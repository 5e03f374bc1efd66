import Pyureq.Base.PercentCoding

/-! JSON strings: printed in ASCII, with everything else escaped, and read back. -/

namespace Json
open PercentCoding (hexValue)

/-- The escapes of two characters that the printer uses. -/
def shortEscapes : List (Char × Char) :=
  [('"', '"'), ('\\', '\\'), ('\n', 'n'), ('\r', 'r'), ('\t', 't'), (Char.ofNat 12, 'f'),
    (Char.ofNat 8, 'b')]

/-- The escapes of two characters that the parser reads, by their second character. -/
def unshort : List (Char × Char) := ('/', '/') :: shortEscapes.map Prod.swap

def hexDigit (n : ℕ) : Char := if n < 10 then Char.ofNat (48 + n) else Char.ofNat (87 + n)

/-- The escape of a UTF-16 unit. -/
def escapeUnit (n : ℕ) : List Char :=
  ['\\', 'u', hexDigit (n / 4096), hexDigit (n / 256 % 16), hexDigit (n / 16 % 16),
    hexDigit (n % 16)]

def escapeChar (c : Char) : List Char :=
  match shortEscapes.lookup c with
  | some e => ['\\', e]
  | none =>
    if 32 ≤ c.toNat ∧ c.toNat < 127 then [c]
    else if c.toNat < 0x10000 then escapeUnit c.toNat
    else
      escapeUnit (0xD800 + (c.toNat - 0x10000) / 0x400) ++
        escapeUnit (0xDC00 + (c.toNat - 0x10000) % 0x400)

def quote (s : List Char) : List Char := '"' :: (s.flatMap escapeChar ++ ['"'])

/-- The unit that four digits spell. -/
def readUnit : List Char → Option (ℕ × List Char)
  | h :: k :: l :: m :: rest => do
    let a ← hexValue h
    let b ← hexValue k
    let c ← hexValue l
    let d ← hexValue m
    pure (4096 * a + 256 * b + 16 * c + d, rest)
  | _ => none

/-- The character after `\u`. A surrogate without its partner is no character. -/
def readUnicode (s : List Char) : Option (Char × List Char) := do
  let (n, rest) ← readUnit s
  if 0xD800 ≤ n ∧ n < 0xDC00 then
    match rest with
    | '\\' :: 'u' :: rest => do
      let (m, rest) ← readUnit rest
      if 0xDC00 ≤ m ∧ m < 0xE000 then
        pure (Char.ofNat (0x10000 + (n - 0xD800) * 0x400 + (m - 0xDC00)), rest)
      else none
    | _ => none
  else if 0xDC00 ≤ n ∧ n < 0xE000 then none
  else pure (Char.ofNat n, rest)

/-- The character after a backslash. -/
def readEscape : List Char → Option (Char × List Char)
  | [] => none
  | e :: rest => if e = 'u' then readUnicode rest else (unshort.lookup e).map fun c => (c, rest)

/-- A string up to its closing quote. Every round takes a character at least. -/
def readString : ℕ → List Char → Option (List Char × List Char)
  | n + 1, c :: rest =>
    if c = '"' then some ([], rest)
    else if c = '\\' then
      (readEscape rest).bind fun e => (readString n e.2).map fun x => (e.1 :: x.1, x.2)
    else if c.toNat < 32 then none
    else (readString n rest).map fun x => (c :: x.1, x.2)
  | _, _ => none

theorem readUnit_escapeUnit {n : ℕ} (h : n < 0x10000) (rest : List Char) :
    readUnit ((escapeUnit n).drop 2 ++ rest) = some (n, rest) := by
  have hdigit : ∀ m < 16, hexValue (hexDigit m) = some m := by decide
  have hsum : 4096 * (n / 4096) + 256 * (n / 256 % 16) + 16 * (n / 16 % 16) + n % 16 = n := by
    omega
  have h1 := hdigit (n / 4096) (by omega)
  have h2 := hdigit (n / 256 % 16) (Nat.mod_lt _ (by decide))
  have h3 := hdigit (n / 16 % 16) (Nat.mod_lt _ (by decide))
  have h4 := hdigit (n % 16) (Nat.mod_lt _ (by decide))
  simp only [escapeUnit, List.drop_succ_cons, List.drop_zero, List.cons_append, List.nil_append,
    readUnit, h1, h2, h3, h4, hsum, bind, Option.bind, pure]

theorem readUnicode_surrogates {n m : ℕ} (hn : 0xD800 ≤ n ∧ n < 0xDC00)
    (hm : 0xDC00 ≤ m ∧ m < 0xE000) (rest : List Char) :
    readUnicode ((escapeUnit n).drop 2 ++ (escapeUnit m ++ rest)) =
      some (Char.ofNat (0x10000 + (n - 0xD800) * 0x400 + (m - 0xDC00)), rest) := by
  have hfirst := readUnit_escapeUnit (n := n) (by omega) (escapeUnit m ++ rest)
  have hsecond := readUnit_escapeUnit (n := m) (by omega) rest
  have hcons : escapeUnit m ++ rest = '\\' :: 'u' :: ((escapeUnit m).drop 2 ++ rest) := rfl
  rw [readUnicode, hfirst]
  simp only [bind, Option.bind, if_pos hn]
  rw [hcons]
  simp only [hsecond, if_pos hm, pure]

/-- A character outside the basic plane comes back from its two surrogates. -/
theorem readUnicode_pair {c : Char} (h : 0x10000 ≤ c.toNat) (rest : List Char) :
    readUnicode ((escapeUnit (0xD800 + (c.toNat - 0x10000) / 0x400)).drop 2 ++
      (escapeUnit (0xDC00 + (c.toNat - 0x10000) % 0x400) ++ rest)) = some (c, rest) := by
  have hc : c.toNat < 0x110000 := by
    rcases c.valid with h | h
    · exact h.trans (by decide)
    · exact h.2
  have hsum : 0x10000 + (0xD800 + (c.toNat - 0x10000) / 0x400 - 0xD800) * 0x400 +
      (0xDC00 + (c.toNat - 0x10000) % 0x400 - 0xDC00) = c.toNat := by omega
  rw [readUnicode_surrogates (by omega) (by omega), hsum, Char.ofNat_toNat]

theorem readUnicode_unit {c : Char} (h : c.toNat < 0x10000) (rest : List Char) :
    readUnicode ((escapeUnit c.toNat).drop 2 ++ rest) = some (c, rest) := by
  have hvalid : c.toNat < 0xD800 ∨ 0xDFFF < c.toNat := by
    rcases c.valid with h | h
    · exact Or.inl h
    · exact Or.inr h.1
  have hhigh : ¬(0xD800 ≤ c.toNat ∧ c.toNat < 0xDC00) := by omega
  have hlow : ¬(0xDC00 ≤ c.toNat ∧ c.toNat < 0xE000) := by omega
  simp only [readUnicode, readUnit_escapeUnit h, bind, Option.bind, if_neg hhigh, if_neg hlow,
    Char.ofNat_toNat, pure]

/-- A short escape is read back. -/
theorem unshort_lookup {c e : Char} (h : shortEscapes.lookup c = some e) :
    e ≠ 'u' ∧ unshort.lookup e = some c := by
  have htable : ∀ p ∈ shortEscapes, p.2 ≠ 'u' ∧ unshort.lookup p.2 = some p.1 :=
    PercentCoding.forall_mem_of_all (by decide)
  obtain ⟨before, after, htable', -⟩ := List.lookup_eq_some_iff.mp h
  exact htable (c, e) (htable' ▸ List.mem_append_right before List.mem_cons_self)

/-- One round reads what one character was printed as. -/
theorem readString_escapeChar (c : Char) (n : ℕ) (rest : List Char) :
    readString (n + 1) (escapeChar c ++ rest) =
      (readString n rest).map fun x => (c :: x.1, x.2) := by
  have hbackslash : ('\\' : Char) ≠ '"' := by decide
  unfold escapeChar
  cases hshort : shortEscapes.lookup c with
  | some e =>
    obtain ⟨hu, hread⟩ := unshort_lookup hshort
    simp only [List.cons_append, List.nil_append, readString, if_neg hbackslash, if_true,
      readEscape, if_neg hu, hread, Option.map_some, Option.bind_some]
  | none =>
    dsimp only
    split
    next hprintable =>
      have hquote : c ≠ '"' := by
        rintro rfl
        exact absurd hshort (by decide)
      have hslash : c ≠ '\\' := by
        rintro rfl
        exact absurd hshort (by decide)
      have hcontrol : ¬c.toNat < 32 := by omega
      simp only [List.cons_append, List.nil_append, readString, if_neg hquote, if_neg hslash,
        if_neg hcontrol]
    next =>
      split
      next hc =>
        have hread := readUnicode_unit hc rest
        have hcons : escapeUnit c.toNat ++ rest =
            '\\' :: 'u' :: ((escapeUnit c.toNat).drop 2 ++ rest) := rfl
        simp only [hcons, readString, if_neg hbackslash, if_true, readEscape, hread,
          Option.bind_some]
      next hc =>
        have hread := readUnicode_pair (Nat.le_of_not_lt hc) rest
        have hcons : escapeUnit (0xD800 + (c.toNat - 0x10000) / 0x400) ++
            escapeUnit (0xDC00 + (c.toNat - 0x10000) % 0x400) ++ rest =
              '\\' :: 'u' :: ((escapeUnit (0xD800 + (c.toNat - 0x10000) / 0x400)).drop 2 ++
                (escapeUnit (0xDC00 + (c.toNat - 0x10000) % 0x400) ++ rest)) := rfl
        simp only [hcons, readString, if_neg hbackslash, if_true, readEscape, hread,
          Option.bind_some]

theorem readString_quoted (s : List Char) {n : ℕ} (h : s.length < n) (rest : List Char) :
    readString n (s.flatMap escapeChar ++ '"' :: rest) = some (s, rest) := by
  obtain ⟨n, rfl⟩ : ∃ m, n = m + 1 := ⟨n - 1, by omega⟩
  induction s generalizing n with
  | nil => simp [readString]
  | cons c s ih =>
    obtain ⟨n, rfl⟩ : ∃ m, n = m + 1 := ⟨n - 1, by simp only [List.length_cons] at h; omega⟩
    have hs : s.length < n + 1 := by simpa using h
    rw [List.flatMap_cons, List.append_assoc, readString_escapeChar, ih n hs]
    rfl

theorem escapeChar_length (c : Char) : 1 ≤ (escapeChar c).length := by
  unfold escapeChar
  split
  · simp
  · split
    · simp
    · split <;> simp [escapeUnit]

theorem length_le_escaped (s : List Char) : s.length ≤ (s.flatMap escapeChar).length := by
  induction s with
  | nil => exact Nat.le_refl 0
  | cons c s ih =>
    have hc := escapeChar_length c
    rw [List.flatMap_cons, List.length_append, List.length_cons]
    omega

/-- A quoted string is read back behind its opening quote. -/
theorem readString_quote (s rest : List Char) :
    let text := s.flatMap escapeChar ++ '"' :: rest
    readString text.length text = some (s, rest) := by
  intro text
  have hs := length_le_escaped s
  refine readString_quoted s ?_ rest
  simp only [text, List.length_append, List.length_cons]
  omega

section Ascii

def Printable (c : Char) : Prop := 32 ≤ c.toNat ∧ c.toNat < 127

theorem escapeUnit_printable {n : ℕ} (h : n < 0x10000) : ∀ c ∈ escapeUnit n, Printable c := by
  have hdigit : ∀ m < 16, Printable (hexDigit m) := by
    have htable : ∀ m < 16, 32 ≤ (hexDigit m).toNat ∧ (hexDigit m).toNat < 127 := by decide
    exact htable
  have hslash : Printable '\\' := by unfold Printable; decide
  have hu : Printable 'u' := by unfold Printable; decide
  simp only [escapeUnit, List.forall_mem_cons, List.not_mem_nil, false_implies, implies_true,
    and_true]
  exact ⟨hslash, hu, hdigit _ (by omega), hdigit _ (Nat.mod_lt _ (by decide)),
    hdigit _ (Nat.mod_lt _ (by decide)), hdigit _ (Nat.mod_lt _ (by decide))⟩

theorem escapeChar_printable (c : Char) : ∀ x ∈ escapeChar c, Printable x := by
  have hslash : Printable '\\' := by unfold Printable; decide
  unfold escapeChar
  cases hshort : shortEscapes.lookup c with
  | some e =>
    have htable : ∀ p ∈ shortEscapes, 32 ≤ p.2.toNat ∧ p.2.toNat < 127 :=
      PercentCoding.forall_mem_of_all (by decide)
    obtain ⟨before, after, hmem, -⟩ := List.lookup_eq_some_iff.mp hshort
    have he : Printable e := htable (c, e) (hmem ▸ List.mem_append_right before List.mem_cons_self)
    simp only [List.forall_mem_cons, List.not_mem_nil, false_implies, implies_true, and_true]
    exact ⟨hslash, he⟩
  | none =>
    dsimp only
    split
    next hc =>
      intro x hx
      rw [List.mem_singleton.mp hx]
      exact hc
    next =>
      have hlt : c.toNat < 0x110000 := by
        rcases c.valid with h | h
        · exact h.trans (by decide)
        · exact h.2
      split
      next hc => exact escapeUnit_printable hc
      next hc =>
        intro x hx
        rcases List.mem_append.mp hx with hx | hx
        · exact escapeUnit_printable (by omega) x hx
        · exact escapeUnit_printable (by omega) x hx

theorem quote_printable (s : List Char) : ∀ x ∈ quote s, Printable x := by
  have hquote : Printable '"' := by unfold Printable; decide
  intro x hx
  rcases List.mem_cons.mp hx with rfl | hx
  · exact hquote
  · rcases List.mem_append.mp hx with hx | hx
    · obtain ⟨c, -, hc⟩ := List.mem_flatMap.mp hx
      exact escapeChar_printable c x hc
    · rw [List.mem_singleton.mp hx]
      exact hquote

end Ascii

end Json
