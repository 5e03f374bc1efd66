import Pyureq.Base.Delimited
import Pyureq.Base.Json.Values

/-! The parser reads what the printer printed, and that is ASCII. -/

namespace Json

variable {N : Type} (spelling : Spelling N)

section RoundTrip

mutual
def numbers : Value N → List N
  | .num n => [n]
  | .arr xs => elementNumbers xs
  | .obj members => memberNumbers members
  | _ => []
def elementNumbers : List (Value N) → List N
  | [] => []
  | x :: xs => numbers x ++ elementNumbers xs
def memberNumbers : List (List Char × Value N) → List N
  | [] => []
  | (_, v) :: members => numbers v ++ memberNumbers members
end

/-- The names of the constants are words. -/
theorem named_word : (∀ c ∈ "null".toList, isWord c = true) ∧
    (∀ c ∈ "true".toList, isWord c = true) ∧ ∀ c ∈ "false".toList, isWord c = true :=
  ⟨PercentCoding.forall_mem_of_all (by decide), PercentCoding.forall_mem_of_all (by decide),
    PercentCoding.forall_mem_of_all (by decide)⟩

/-- The number is spelled as a word of its own, and read back from it. -/
structure Faithful (n : N) : Prop where
  word : ∀ c ∈ spelling.print n, isWord c = true
  nonempty : spelling.print n ≠ []
  ne_null : spelling.print n ≠ "null".toList
  ne_true : spelling.print n ≠ "true".toList
  ne_false : spelling.print n ≠ "false".toList
  parse : spelling.parse (spelling.print n) = some n

/-- Where a word ends. -/
def Delimits (rest : List Char) : Prop := ∀ c, rest.head? = some c → isWord c = false

theorem delimits_cons {c : Char} (h : isWord c = false) (rest : List Char) :
    Delimits (c :: rest) := by
  intro d hd
  obtain rfl := Option.some.inj hd
  exact h

theorem isWord_plain {c : Char} (h : isWord c = true) :
    isSpace c = false ∧ c ≠ '"' ∧ c ≠ '[' ∧ c ≠ '{' ∧ c ≠ ']' ∧ c ≠ '}' := by
  have hne : ∀ d, isWord d = false → c ≠ d := by
    rintro d hd rfl
    rw [hd] at h
    contradiction
  refine ⟨?_, hne _ (by decide), hne _ (by decide), hne _ (by decide), hne _ (by decide),
    hne _ (by decide)⟩
  have h1 := hne ' ' (by decide)
  have h2 := hne '\t' (by decide)
  have h3 := hne '\n' (by decide)
  have h4 := hne '\r' (by decide)
  simp [isSpace, h1, h2, h3, h4]

theorem skipSpace_cons {c : Char} (h : isSpace c = false) (s : List Char) :
    skipSpace (c :: s) = c :: s := List.dropWhile_cons_of_neg (by simp [h])

variable {spelling}

theorem readValue_word {w : List Char} (hw : ∀ c ∈ w, isWord c = true) (hne : w ≠ [])
    {rest : List Char} (hrest : Delimits rest) (n : ℕ) :
    readValue spelling (n + 1) (w ++ rest) =
      if w = "null".toList then some (.null, rest)
      else if w = "true".toList then some (.bool true, rest)
      else if w = "false".toList then some (.bool false, rest)
      else (spelling.parse w).map fun n => (.num n, rest) := by
  obtain ⟨c, w, rfl⟩ := List.exists_cons_of_ne_nil hne
  obtain ⟨hspace, hquote, hbracket, hbrace, -⟩ := isWord_plain (hw c List.mem_cons_self)
  have htake : rest.takeWhile isWord = [] ∧ rest.dropWhile isWord = rest := by
    cases rest with
    | nil => exact ⟨rfl, rfl⟩
    | cons d rest =>
      have hd := hrest d rfl
      exact ⟨List.takeWhile_cons_of_neg (by simp [hd]), List.dropWhile_cons_of_neg (by simp [hd])⟩
  rw [readValue, List.cons_append, skipSpace_cons hspace]
  split
  next h => exact absurd (List.cons.inj h).1 hquote
  next h => exact absurd (List.cons.inj h).1 hbracket
  next h => exact absurd (List.cons.inj h).1 hbrace
  next =>
    rw [← List.cons_append, readWord, List.takeWhile_append_of_pos hw,
      List.dropWhile_append_of_pos hw, htake.1, htake.2, List.append_nil]

/-- What the first character of a value can be. -/
theorem print_head (v : Value N) (hv : ∀ n ∈ numbers v, Faithful spelling n) :
    ∃ c s, print spelling v = c :: s ∧ isSpace c = false ∧ c ≠ ']' := by
  cases v with
  | null => exact ⟨_, _, rfl, by decide, by decide⟩
  | bool b => cases b <;> exact ⟨_, _, rfl, by decide, by decide⟩
  | num n =>
    have h := hv n (by simp [numbers])
    obtain ⟨c, s, hs⟩ := List.exists_cons_of_ne_nil h.nonempty
    have hc := isWord_plain (h.word c (hs ▸ List.mem_cons_self))
    exact ⟨c, s, hs, hc.1, hc.2.2.2.2.1⟩
  | str s => exact ⟨_, _, rfl, by decide, by decide⟩
  | arr xs => exact ⟨_, _, rfl, by decide, by decide⟩
  | obj members => exact ⟨_, _, rfl, by decide, by decide⟩

theorem readMore_close {α : Type} {close : Char} (h : isSpace close = false) (x : α)
    (more : List Char → Option (List α × List Char)) (rest : List Char) :
    readMore close x more (close :: rest) = some ([x], rest) := by
  rw [readMore, skipSpace_cons h]
  exact if_pos rfl

theorem readMore_comma {α : Type} {close : Char} (h : close ≠ ',') (x : α)
    (more : List Char → Option (List α × List Char)) (rest : List Char) :
    readMore close x more (',' :: rest) = (more rest).map fun y => (x :: y.1, y.2) := by
  have hspace : isSpace ',' = false := by decide
  simp only [readMore, skipSpace_cons hspace, if_neg h.symm, if_true]

theorem readName_quote (k rest : List Char) :
    readName (quote k ++ ':' :: rest) = some (k, rest) := by
  have hcons : quote k ++ ':' :: rest = '"' :: (k.flatMap escapeChar ++ '"' :: ':' :: rest) := by
    simp [quote]
  have hquote : isSpace '"' = false := by decide
  have hcolon : isSpace ':' = false := by decide
  simp only [readName, hcons, skipSpace_cons hquote, readString_quote, Option.bind_some,
    skipSpace_cons hcolon]

theorem readList_cons {α : Type} {close c : Char} (hspace : isSpace c = false) (hc : c ≠ close)
    (members : List Char → Option (List α × List Char)) (s : List Char) :
    readList close members (c :: s) = members (c :: s) := by
  simp only [readList, skipSpace_cons hspace, if_neg hc]

mutual
theorem readValue_print (v : Value N) (hv : ∀ m ∈ numbers v, Faithful spelling m) {n : ℕ}
    (hn : (print spelling v).length ≤ n) {rest : List Char} (hrest : Delimits rest) :
    readValue spelling n (print spelling v ++ rest) = some (v, rest) := by
  obtain ⟨n, rfl⟩ : ∃ m, n = m + 1 := by
    obtain ⟨c, s, hs, -⟩ := print_head v hv
    rw [hs, List.length_cons] at hn
    exact ⟨n - 1, by omega⟩
  cases v with
  | null => rw [print, readValue_word named_word.1 (by decide) hrest, if_pos rfl]
  | bool b =>
    cases b with
    | true => exact readValue_word named_word.2.1 (by decide) hrest n
    | false => exact readValue_word named_word.2.2 (by decide) hrest n
  | num m =>
    have h := hv m (by simp [numbers])
    rw [print, readValue_word h.word h.nonempty hrest, if_neg h.ne_null, if_neg h.ne_true,
      if_neg h.ne_false, h.parse, Option.map_some]
  | str s =>
    have hcons : quote s ++ rest = '"' :: (s.flatMap escapeChar ++ '"' :: rest) := by simp [quote]
    have hquote : isSpace '"' = false := by decide
    simp only [print, hcons, readValue, skipSpace_cons hquote, readString_quote, Option.map_some]
  | arr xs =>
    have hbracket : isSpace '[' = false := by decide
    rw [print, List.length_cons, List.length_append, List.length_singleton] at hn
    simp only [print, List.cons_append, readValue, skipSpace_cons hbracket, List.append_assoc,
      List.nil_append]
    cases xs with
    | nil => rfl
    | cons x xs =>
      have hread := readElements_print x xs hv (n := n) (by omega) rest
      obtain ⟨c, s, hs, hspace, hclose⟩ := print_head x fun m hm =>
        hv m (by simp [numbers, elementNumbers, hm])
      rw [printElements, Delimited.intercalate_cons_flatMap, hs] at hread ⊢
      rw [List.cons_append, List.cons_append] at hread ⊢
      rw [readList_cons hspace hclose, hread, Option.map_some]
  | obj members =>
    have hbrace : isSpace '{' = false := by decide
    rw [print, List.length_cons, List.length_append, List.length_singleton] at hn
    simp only [print, List.cons_append, readValue, skipSpace_cons hbrace, List.append_assoc,
      List.nil_append]
    cases members with
    | nil => rfl
    | cons e members =>
      cases e with
      | mk k v =>
        have hread := readMembers_print k v members hv (n := n) (by omega) rest
        rw [printMembers, Delimited.intercalate_cons_flatMap, quote] at hread ⊢
        simp only [List.cons_append] at hread ⊢
        rw [readList_cons (by decide) (by decide), hread, Option.map_some]
termination_by sizeOf v
/-- The elements of an array, behind its opening bracket. -/
theorem readElements_print (x : Value N) (xs : List (Value N))
    (hv : ∀ m ∈ elementNumbers (x :: xs), Faithful spelling m) {n : ℕ}
    (hn : ([','].intercalate (printElements spelling (x :: xs))).length < n)
    (rest : List Char) :
    readElements spelling n ([','].intercalate (printElements spelling (x :: xs)) ++ ']' :: rest) =
      some (x :: xs, rest) := by
  obtain ⟨n, rfl⟩ : ∃ m, n = m + 1 := ⟨n - 1, by omega⟩
  have hx : ∀ m ∈ numbers x, Faithful spelling m := fun m hm => hv m (by simp [elementNumbers, hm])
  cases xs with
  | nil =>
    simp only [printElements, List.intercalate_singleton] at hn ⊢
    rw [readElements, readValue_print x hx (by omega) (delimits_cons (by decide) rest),
      Option.bind_some, readMore_close (by decide)]
  | cons y ys =>
    have hys : ∀ m ∈ elementNumbers (y :: ys), Faithful spelling m :=
      fun m hm => hv m (by rw [elementNumbers]; exact List.mem_append_right _ hm)
    rw [printElements, printElements, List.intercalate_cons_cons, ← printElements] at hn ⊢
    simp only [List.length_append, List.length_singleton] at hn
    simp only [List.append_assoc, List.cons_append, List.nil_append]
    rw [readElements, readValue_print x hx (by omega) (delimits_cons (by decide) _),
      Option.bind_some, readMore_comma (by decide),
      readElements_print y ys hys (by omega) rest, Option.map_some]
termination_by sizeOf (x :: xs)
/-- The members of an object, behind its opening brace. -/
theorem readMembers_print (k : List Char) (v : Value N) (members : List (List Char × Value N))
    (hv : ∀ m ∈ memberNumbers ((k, v) :: members), Faithful spelling m) {n : ℕ}
    (hn : ([','].intercalate (printMembers spelling ((k, v) :: members))).length < n)
    (rest : List Char) :
    readMembers spelling n
        ([','].intercalate (printMembers spelling ((k, v) :: members)) ++ '}' :: rest) =
      some ((k, v) :: members, rest) := by
  obtain ⟨n, rfl⟩ : ∃ m, n = m + 1 := ⟨n - 1, by omega⟩
  have hx : ∀ m ∈ numbers v, Faithful spelling m := fun m hm => hv m (by simp [memberNumbers, hm])
  cases members with
  | nil =>
    simp only [printMembers, List.intercalate_singleton, List.length_append,
      List.length_cons] at hn ⊢
    rw [List.append_assoc, List.cons_append, readMembers, readName_quote, Option.bind_some,
      readValue_print v hx (by omega) (delimits_cons (by decide) rest), Option.bind_some,
      readMore_close (by decide)]
  | cons f fs =>
    cases f with
    | mk l w =>
      have hfs : ∀ m ∈ memberNumbers ((l, w) :: fs), Faithful spelling m :=
        fun m hm => hv m (by rw [memberNumbers]; exact List.mem_append_right _ hm)
      rw [printMembers, printMembers, List.intercalate_cons_cons, ← printMembers] at hn ⊢
      simp only [List.length_append, List.length_cons, List.length_nil] at hn
      simp only [List.append_assoc, List.cons_append, List.nil_append]
      rw [readMembers, readName_quote, Option.bind_some,
        readValue_print v hx (by omega) (delimits_cons (by decide) _), Option.bind_some,
        readMore_comma (by decide), readMembers_print l w fs hfs (by omega) rest,
        Option.map_some]
termination_by sizeOf ((k, v) :: members)
end

theorem parse_print (v : Value N) (hv : ∀ m ∈ numbers v, Faithful spelling m) :
    parse spelling (print spelling v) = some v := by
  have hend : Delimits [] := fun c hc => nomatch hc
  have hread := readValue_print v hv (Nat.le_refl _) hend
  rw [List.append_nil] at hread
  rw [parse, hread]
  rfl

end RoundTrip

section Ascii

variable {spelling}

theorem isWord_printable {c : Char} (h : isWord c = true) : Printable c := by
  have hascii : c.toNat < 128 := by
    by_contra hc
    have hne : ∀ d : Char, d.toNat < 128 → c ≠ d := by
      rintro d hd rfl
      exact hc hd
    have hplus := hne '+' (by decide)
    have hminus := hne '-' (by decide)
    have hdot := hne '.' (by decide)
    have hval : ¬c.val.toNat < 128 := hc
    have halnum : c.isAlphanum = true := by simpa [isWord, hplus, hminus, hdot] using h
    have hranges : ((decide (65 ≤ c.val ∧ c.val ≤ 90) || (97 ≤ c.val && c.val ≤ 122)) ||
        (48 ≤ c.val && c.val ≤ 57)) = true := halnum
    simp [UInt32.le_iff_toNat_le] at hranges
    omega
  revert h
  apply PercentCoding.ascii_forall (P := fun c => isWord c = true → Printable c) _ hascii
  have htable : ∀ n < 128, isWord (Char.ofNat n) = true →
      32 ≤ (Char.ofNat n).toNat ∧ (Char.ofNat n).toNat < 127 := by decide +kernel
  exact htable

theorem word_printable {w : List Char} (h : ∀ c ∈ w, isWord c = true) : ∀ c ∈ w, Printable c :=
  fun c hc => isWord_printable (h c hc)

theorem intercalate_printable {pieces : List (List Char)}
    (h : ∀ piece ∈ pieces, ∀ c ∈ piece, Printable c) :
    ∀ c ∈ [','].intercalate pieces, Printable c := by
  intro c hc
  rcases Delimited.mem_of_mem_intercalate hc with hc | ⟨piece, hpiece, hc⟩
  · rw [List.mem_singleton.mp hc]
    unfold Printable
    decide
  · exact h piece hpiece c hc

/-- Between its brackets a text is as printable as the brackets. -/
theorem enclosed_printable {a z : Char} {s : List Char} (ha : 32 ≤ a.toNat ∧ a.toNat < 127)
    (hz : 32 ≤ z.toNat ∧ z.toNat < 127) (hs : ∀ c ∈ s, Printable c) :
    ∀ c ∈ a :: (s ++ [z]), Printable c := by
  rw [List.forall_mem_cons, List.forall_mem_append, List.forall_mem_singleton]
  exact ⟨ha, hs, hz⟩

mutual
theorem print_printable (v : Value N) (hv : ∀ m ∈ numbers v, Faithful spelling m) :
    ∀ c ∈ print spelling v, Printable c := by
  cases v with
  | null => exact word_printable (w := "null".toList) named_word.1
  | bool b =>
    cases b with
    | true => exact word_printable (w := "true".toList) named_word.2.1
    | false => exact word_printable (w := "false".toList) named_word.2.2
  | num m => exact word_printable (hv m (by simp [numbers])).word
  | str s => exact quote_printable s
  | arr xs =>
    exact enclosed_printable (by decide) (by decide)
      (intercalate_printable (printElements_printable xs hv))
  | obj members =>
    exact enclosed_printable (by decide) (by decide)
      (intercalate_printable (printMembers_printable members hv))
termination_by sizeOf v
theorem printElements_printable (xs : List (Value N))
    (hv : ∀ m ∈ elementNumbers xs, Faithful spelling m) :
    ∀ piece ∈ printElements spelling xs, ∀ c ∈ piece, Printable c := by
  cases xs with
  | nil => simp [printElements]
  | cons x xs =>
    rw [elementNumbers, List.forall_mem_append] at hv
    exact List.forall_mem_cons.mpr ⟨print_printable x hv.1, printElements_printable xs hv.2⟩
termination_by sizeOf xs
theorem printMembers_printable (members : List (List Char × Value N))
    (hv : ∀ m ∈ memberNumbers members, Faithful spelling m) :
    ∀ piece ∈ printMembers spelling members, ∀ c ∈ piece, Printable c := by
  cases members with
  | nil => simp [printMembers]
  | cons e members =>
    cases e with
    | mk k v =>
      rw [memberNumbers, List.forall_mem_append] at hv
      refine List.forall_mem_cons.mpr ⟨?_, printMembers_printable members hv.2⟩
      rw [List.forall_mem_append, List.forall_mem_cons]
      exact ⟨quote_printable k, by unfold Printable; decide, print_printable v hv.1⟩
termination_by sizeOf members
end

end Ascii

end Json
