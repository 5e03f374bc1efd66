import Mathlib.Data.List.Basic
import Mathlib.Tactic.NormNum

/-! Percent-coding of text. `Escaping s t` says that `t` is `s` with some characters,
none of them `%` or a hexadecimal digit, replaced by the escapes of their UTF-8 bytes.
Such a rewriting never changes what the text decodes to and neither completes nor
breaks an escape that was there before. -/

namespace PercentCoding

/-- What a table over the ASCII range shows holds of every ASCII character. -/
theorem ascii_forall {P : Char → Prop} (h : ∀ n < 128, P (Char.ofNat n)) {c : Char}
    (hc : c.toNat < 128) : P c := by
  have hp := h c.toNat hc
  rwa [Char.ofNat_toNat] at hp

theorem toLower_ascii {c : Char} (h : c.toNat < 128) :
    c.toLower.toNat < 128 ∧ c.toLower.toLower = c.toLower := by
  apply ascii_forall (P := fun c => c.toLower.toNat < 128 ∧ c.toLower.toLower = c.toLower) _ h
  decide +kernel

/-- A check of the elements, whatever decides quantifiers over their type. -/
theorem forall_mem_of_all {α : Type} {P : α → Prop} [DecidablePred P] {l : List α}
    (h : (l.all fun a => decide (P a)) = true) : ∀ a ∈ l, P a := by
  intro a ha
  exact of_decide_eq_true (List.all_eq_true.mp h a ha)

def utf8 (s : List Char) : List UInt8 := s.flatMap String.utf8EncodeChar

@[simp] theorem utf8_cons (c : Char) (s : List Char) :
    utf8 (c :: s) = String.utf8EncodeChar c ++ utf8 s := rfl

/-- The character with the number of a byte. -/
theorem toNat_ofNat_byte (b : UInt8) : (Char.ofNat b.toNat).toNat = b.toNat := by
  have htable : ∀ n < 256, (Char.ofNat n).toNat = n := by decide +kernel
  exact htable b.toNat b.toNat_lt

/-- The value of a hexadecimal digit in either case. -/
def hexValue (c : Char) : Option ℕ :=
  if '0' ≤ c ∧ c ≤ '9' then some (c.toNat - 48)
  else if 'A' ≤ c ∧ c ≤ 'F' then some (c.toNat - 55)
  else if 'a' ≤ c ∧ c ≤ 'f' then some (c.toNat - 87)
  else none

/-- Upper-case digit, as the formatter `{:02X}` writes it. -/
def hexDigit (n : ℕ) : Char := if n < 10 then Char.ofNat (48 + n) else Char.ofNat (55 + n)

def escape (b : UInt8) : List Char := ['%', hexDigit (b.toNat / 16), hexDigit (b.toNat % 16)]

/-- The byte named by the two digits at the front, if they are digits. -/
def hexPair : List Char → Option UInt8
  | h :: l :: _ => (hexValue h).bind fun a => (hexValue l).map fun b => UInt8.ofNat (16 * a + b)
  | _ => none

/-- Decode every well-formed escape once; any other `%` stands for itself. -/
def decode : List Char → List UInt8
  | [] => []
  | [c] => String.utf8EncodeChar c
  | [c, d] => String.utf8EncodeChar c ++ String.utf8EncodeChar d
  | c :: h :: l :: rest =>
    match if c = '%' then hexPair [h, l] else none with
    | some b => b :: decode rest
    | none => String.utf8EncodeChar c ++ decode (h :: l :: rest)

/-- Form decoding also reads `+` as a space. -/
def decodePlus (s : List Char) : List UInt8 :=
  decode (s.map fun c => if c = '+' then ' ' else c)

/-- Digits are ASCII. -/
theorem hexValue_ascii {c : Char} (hc : hexValue c ≠ none) : c.toNat < 128 := by
  by_contra hn
  have h1 : ¬c ≤ '9' := fun h => hn (lt_of_le_of_lt h (by decide))
  have h2 : ¬c ≤ 'F' := fun h => hn (lt_of_le_of_lt h (by decide))
  have h3 : ¬c ≤ 'f' := fun h => hn (lt_of_le_of_lt h (by decide))
  simp [hexValue, h1, h2, h3] at hc

theorem hexDigit_value : ∀ n < 16, hexValue (hexDigit n) = some n := by decide

theorem hexDigit_ne (c : Char) (hc : hexValue c = none) : ∀ n < 16, hexDigit n ≠ c := by
  rintro n hn rfl
  rw [hexDigit_value n hn] at hc
  contradiction

theorem nibble_lt (b : UInt8) : b.toNat / 16 < 16 ∧ b.toNat % 16 < 16 := by
  have h := b.toNat_lt
  omega

theorem escape_pair (b : UInt8) (t : List Char) : hexPair ((escape b).tail ++ t) = some b := by
  obtain ⟨hh, hl⟩ := nibble_lt b
  simp only [escape, List.tail_cons, List.cons_append, hexPair, hexDigit_value _ hh,
    hexDigit_value _ hl, Option.bind_some, Option.map_some, Nat.div_add_mod, UInt8.ofNat_toNat]

theorem utf8EncodeChar_ascii {c : Char} (h : c.toNat < 128) :
    String.utf8EncodeChar c = [UInt8.ofNat c.toNat] := by
  have hv : c.val.toNat ≤ 127 := Nat.le_of_lt_succ h
  simp only [String.utf8EncodeChar, hv, if_true, Char.toNat]

/-- Every byte of a character outside ASCII has its top bit set. -/
theorem utf8EncodeChar_high {c : Char} (h : 128 ≤ c.toNat) :
    ∀ b ∈ String.utf8EncodeChar c, 128 ≤ b.toNat := by
  have hv : ¬c.val.toNat ≤ 127 := by
    change 128 ≤ c.val.toNat at h
    omega
  intro b hb
  simp only [String.utf8EncodeChar, hv, if_false] at hb
  split_ifs at hb <;> simp only [List.mem_cons, List.not_mem_nil, or_false] at hb <;>
    rcases hb with rfl | rfl | rfl | rfl <;> simp only [UInt8.toNat_ofNat'] <;> omega

theorem decode_cons (c : Char) (s : List Char) :
    decode (c :: s) = match if c = '%' then hexPair s else none with
      | some b => b :: decode (s.drop 2)
      | none => String.utf8EncodeChar c ++ decode s := by
  match s with
  | [] => split <;> simp_all [decode, hexPair]
  | [d] => split <;> simp_all [decode, hexPair]
  | h :: l :: rest => rw [decode]; rfl

theorem decode_cons_ne {c : Char} (h : c ≠ '%') (s : List Char) :
    decode (c :: s) = String.utf8EncodeChar c ++ decode s := by
  rw [decode_cons, if_neg h]

theorem decode_percent_some {s : List Char} {b : UInt8} (h : hexPair s = some b) :
    decode ('%' :: s) = b :: decode (s.drop 2) := by
  rw [decode_cons, if_pos rfl, h]

theorem decode_percent_none {s : List Char} (h : hexPair s = none) :
    decode ('%' :: s) = String.utf8EncodeChar '%' ++ decode s := by
  rw [decode_cons, if_pos rfl, h]

theorem decode_escape (b : UInt8) (t : List Char) : decode (escape b ++ t) = b :: decode t := by
  have h := decode_percent_some (escape_pair b t)
  simpa [escape] using h

theorem decode_escapes (bs : List UInt8) (t : List Char) :
    decode (bs.flatMap escape ++ t) = bs ++ decode t := by
  induction bs with
  | nil => rfl
  | cons b bs ih =>
    rw [List.flatMap_cons, List.append_assoc, decode_escape, ih, List.cons_append]

def escapeChar (c : Char) : List Char := (String.utf8EncodeChar c).flatMap escape

/-- Characters that an encoder may escape without touching an existing escape. -/
def Inert (c : Char) : Prop := c ≠ '%' ∧ hexValue c = none

instance (c : Char) : Decidable (Inert c) :=
  inferInstanceAs (Decidable (c ≠ '%' ∧ hexValue c = none))

inductive Escaping : List Char → List Char → Prop
  | nil : Escaping [] []
  | keep (c : Char) {s t : List Char} : Escaping s t → Escaping (c :: s) (c :: t)
  | replace {c : Char} (hc : Inert c) {s t : List Char} :
      Escaping s t → Escaping (c :: s) (escapeChar c ++ t)

namespace Escaping

theorem append {s t u v : List Char} (h : Escaping s t) (k : Escaping u v) :
    Escaping (s ++ u) (t ++ v) := by
  induction h with
  | nil => exact k
  | keep c _ ih => exact ih.keep c
  | replace hc _ ih =>
    rw [List.append_assoc]
    exact ih.replace hc

theorem escapeChar_cons (c : Char) : ∃ t, escapeChar c = '%' :: t := by
  obtain ⟨b, bs, hb⟩ := List.exists_cons_of_ne_nil (String.utf8EncodeChar_ne_nil (c := c))
  rw [escapeChar, hb, List.flatMap_cons, escape]
  exact ⟨_, rfl⟩

theorem ne_nil {s t : List Char} (h : Escaping s t) (hs : s ≠ []) : t ≠ [] := by
  cases h with
  | nil => contradiction
  | keep c _ => simp
  | @replace c _ _ _ _ =>
    obtain ⟨u, hu⟩ := escapeChar_cons c
    simp [hu]

/-- The first character stays a digit, with the same value, or stays no digit. -/
theorem head_value {s t : List Char} (h : Escaping s t) :
    t.head?.bind hexValue = s.head?.bind hexValue := by
  cases h with
  | nil => rfl
  | keep c _ => rfl
  | @replace c hc _ t _ =>
    obtain ⟨u, hu⟩ := escapeChar_cons c
    rw [hu]
    exact hc.2.symm

theorem hexPair_cons (c : Char) (s : List Char) :
    hexPair (c :: s) = (hexValue c).bind fun a =>
      (s.head?.bind hexValue).map fun b => UInt8.ofNat (16 * a + b) := by
  cases s with
  | nil => cases h : hexValue c <;> simp [hexPair]
  | cons l s => rfl

theorem hexPair_eq {s t : List Char} (h : Escaping s t) : hexPair t = hexPair s := by
  cases h with
  | nil => rfl
  | keep c h => rw [hexPair_cons, hexPair_cons, h.head_value]
  | @replace c hc s t h =>
    obtain ⟨u, hu⟩ := escapeChar_cons c
    have hp : hexValue '%' = none := by decide
    rw [hu, List.cons_append, hexPair_cons, hexPair_cons, hc.2, hp, Option.bind_none,
      Option.bind_none]

/-- A digit at the front is kept. -/
theorem of_hex {c : Char} {s t : List Char} (hc : hexValue c ≠ none)
    (h : Escaping (c :: s) t) : ∃ u, t = c :: u ∧ Escaping s u := by
  cases h with
  | keep _ h => exact ⟨_, rfl, h⟩
  | replace hi _ => exact absurd hi.2 hc

theorem hexPair_isSome {s : List Char} {b : UInt8} (h : hexPair s = some b) :
    ∃ c d u, s = c :: d :: u ∧ hexValue c ≠ none ∧ hexValue d ≠ none := by
  match s with
  | [] | [_] => simp [hexPair] at h
  | c :: d :: u =>
    refine ⟨c, d, u, rfl, ?_, ?_⟩ <;> intro hn <;> simp [hexPair, hn] at h

/-- Escaping never changes what a text decodes to. -/
theorem decode_eq {s t : List Char} (h : Escaping s t) : decode t = decode s := by
  induction hn : s.length using Nat.strongRecOn generalizing s t with
  | _ n ih =>
    subst hn
    cases h with
    | nil => rfl
    | @keep c s t h =>
      by_cases hc : c = '%'
      · subst hc
        cases hp : hexPair s with
        | none =>
          rw [decode_percent_none (h.hexPair_eq.trans hp), decode_percent_none hp,
            ih s.length (by simp) h rfl]
        | some b =>
          obtain ⟨x, y, u, rfl, hx, hy⟩ := hexPair_isSome hp
          obtain ⟨t₁, rfl, h₁⟩ := h.of_hex hx
          obtain ⟨t₂, rfl, h₂⟩ := h₁.of_hex hy
          rw [decode_percent_some (h.hexPair_eq.trans hp), decode_percent_some hp]
          congr 1
          exact ih u.length (by simp only [List.length_cons]; omega) h₂ rfl
      · rw [decode_cons_ne hc, decode_cons_ne hc, ih s.length (by simp) h rfl]
    | @replace c hc s t h =>
      rw [escapeChar, decode_escapes, decode_cons_ne hc.1, ih s.length (by simp) h rfl]

end Escaping

/-- Every `%` of the text starts a well-formed escape. -/
def EscapesComplete (s : List Char) : Prop :=
  ∀ a b, s = a ++ '%' :: b → ∃ h l r, b = h :: l :: r ∧ hexValue h ≠ none ∧ hexValue l ≠ none

theorem escapesComplete_cons {c : Char} {s : List Char} :
    EscapesComplete (c :: s) ↔ (c = '%' → hexPair s ≠ none) ∧ EscapesComplete s := by
  constructor
  · intro h
    refine ⟨?_, fun a b hs => h (c :: a) b (by rw [hs, List.cons_append])⟩
    rintro rfl
    obtain ⟨x, y, r, rfl, hx, hy⟩ := h [] s rfl
    obtain ⟨a, ha⟩ := Option.ne_none_iff_exists'.mp hx
    obtain ⟨b, hb⟩ := Option.ne_none_iff_exists'.mp hy
    simp [hexPair, ha, hb]
  · rintro ⟨hc, hs⟩ a b he
    cases a with
    | nil =>
      obtain ⟨rfl, rfl⟩ := List.cons.inj he
      obtain ⟨v, hv⟩ := Option.ne_none_iff_exists'.mp (hc rfl)
      obtain ⟨x, y, r, rfl, hx, hy⟩ := Escaping.hexPair_isSome hv
      exact ⟨x, y, r, rfl, hx, hy⟩
    | cons d a => exact hs a b (List.cons.inj he).2

theorem escapesComplete_escapes (bs : List UInt8) (t : List Char) :
    EscapesComplete (bs.flatMap escape ++ t) ↔ EscapesComplete t := by
  induction bs with
  | nil => rfl
  | cons b bs ih =>
    obtain ⟨hh, hl⟩ := nibble_lt b
    have hp := escape_pair b (bs.flatMap escape ++ t)
    have hn := hexDigit_ne '%' (by decide)
    rw [List.flatMap_cons, List.append_assoc, escape, List.cons_append, List.cons_append,
      List.cons_append, List.nil_append, escapesComplete_cons, escapesComplete_cons,
      escapesComplete_cons, ih]
    simp only [escape, List.tail_cons, List.cons_append, List.nil_append] at hp
    simp [hp, hn _ hh, hn _ hl]

/-- Escaping neither completes nor breaks a `%` of the text. -/
theorem Escaping.complete_iff {s t : List Char} (h : Escaping s t) :
    EscapesComplete t ↔ EscapesComplete s := by
  induction h with
  | nil => rfl
  | keep c h ih => rw [escapesComplete_cons, escapesComplete_cons, h.hexPair_eq, ih]
  | replace hc _ ih =>
    rw [escapeChar, escapesComplete_escapes, escapesComplete_cons, ih]
    simp [hc.1]

section Encoder

/-- Write each byte as its escape when `deny` holds of it and as its character otherwise. -/
def encodeByte (deny : UInt8 → Bool) (b : UInt8) : List Char :=
  if deny b then escape b else [Char.ofNat b.toNat]

def encode (deny : UInt8 → Bool) (s : List Char) : List Char :=
  (utf8 s).flatMap (encodeByte deny)

/-- What `encode` makes of one character. -/
def encodeChar (deny : UInt8 → Bool) (c : Char) : List Char :=
  (String.utf8EncodeChar c).flatMap (encodeByte deny)

theorem encode_eq_flatMap (deny : UInt8 → Bool) (s : List Char) :
    encode deny s = s.flatMap (encodeChar deny) := List.flatMap_assoc

theorem encode_cons (deny : UInt8 → Bool) (c : Char) (s : List Char) :
    encode deny (c :: s) = encodeChar deny c ++ encode deny s := by
  rw [encode_eq_flatMap, encode_eq_flatMap, List.flatMap_cons]

theorem encode_append (deny : UInt8 → Bool) (s t : List Char) :
    encode deny (s ++ t) = encode deny s ++ encode deny t := by
  rw [encode_eq_flatMap, encode_eq_flatMap, encode_eq_flatMap, List.flatMap_append]

variable {deny : UInt8 → Bool}

theorem encodeChar_ascii {c : Char} (h : c.toNat < 128) :
    encodeChar deny c = if deny (UInt8.ofNat c.toNat) then escapeChar c else [c] := by
  have hb : (UInt8.ofNat c.toNat).toNat = c.toNat := by
    rw [UInt8.toNat_ofNat']
    omega
  simp only [encodeChar, escapeChar, utf8EncodeChar_ascii h, List.flatMap_cons, List.flatMap_nil,
    List.append_nil, encodeByte, hb, Char.ofNat_toNat]

/-- A character outside ASCII is escaped by every encoder that denies the high bytes. -/
theorem encodeChar_high (hd : ∀ b : UInt8, 128 ≤ b.toNat → deny b = true) {c : Char}
    (h : 128 ≤ c.toNat) : encodeChar deny c = escapeChar c := by
  apply List.flatMap_congr
  intro b hb
  rw [encodeByte, if_pos (hd b (utf8EncodeChar_high h b hb))]

theorem encodeChar_cases (hd : ∀ b : UInt8, 128 ≤ b.toNat → deny b = true) (c : Char) :
    encodeChar deny c = escapeChar c ∨
      (encodeChar deny c = [c] ∧ c.toNat < 128 ∧ deny (UInt8.ofNat c.toNat) = false) := by
  by_cases h : c.toNat < 128
  · rw [encodeChar_ascii h]
    cases hb : deny (UInt8.ofNat c.toNat) <;> simp [h]
  · exact Or.inl (encodeChar_high hd (Nat.le_of_not_lt h))

theorem escape_chars (b : UInt8) : ∀ c ∈ escape b, c = '%' ∨ ∃ n < 16, c = hexDigit n := by
  obtain ⟨hh, hl⟩ := nibble_lt b
  intro c hc
  simp only [escape, List.mem_cons, List.not_mem_nil, or_false] at hc
  rcases hc with rfl | rfl | rfl
  · exact Or.inl rfl
  · exact Or.inr ⟨_, hh, rfl⟩
  · exact Or.inr ⟨_, hl, rfl⟩

theorem escapeChar_chars (c : Char) :
    ∀ x ∈ escapeChar c, x = '%' ∨ ∃ n < 16, x = hexDigit n := by
  intro x hx
  obtain ⟨b, -, hb⟩ := List.mem_flatMap.mp hx
  exact escape_chars b x hb

/-- Every character of the output is part of an escape or was kept. -/
theorem mem_encode (hd : ∀ b : UInt8, 128 ≤ b.toNat → deny b = true) {s : List Char} {x : Char}
    (h : x ∈ encode deny s) : (x = '%' ∨ ∃ n < 16, x = hexDigit n) ∨
      (x ∈ s ∧ x.toNat < 128 ∧ deny (UInt8.ofNat x.toNat) = false) := by
  rw [encode_eq_flatMap] at h
  obtain ⟨c, hc, hx⟩ := List.mem_flatMap.mp h
  rcases encodeChar_cases hd c with he | ⟨he, ha, hk⟩ <;> rw [he] at hx
  · exact Or.inl (escapeChar_chars c x hx)
  · rw [List.mem_singleton.mp hx]
    exact Or.inr ⟨hc, ha, hk⟩

theorem encodeChar_kept {c : Char} (ha : c.toNat < 128)
    (hk : deny (UInt8.ofNat c.toNat) = false) : encodeChar deny c = [c] := by
  rw [encodeChar_ascii ha, hk]
  rfl

theorem mem_encode_of_kept {s : List Char} {c : Char} (hc : c ∈ s) (ha : c.toNat < 128)
    (hk : deny (UInt8.ofNat c.toNat) = false) : c ∈ encode deny s := by
  rw [encode_eq_flatMap]
  exact List.mem_flatMap.mpr ⟨c, hc, by simp [encodeChar_kept ha hk]⟩

theorem encode_of_kept {s : List Char}
    (h : ∀ c ∈ s, c.toNat < 128 ∧ deny (UInt8.ofNat c.toNat) = false) : encode deny s = s := by
  induction s with
  | nil => rfl
  | cons c s ih =>
    obtain ⟨hc, hs⟩ := List.forall_mem_cons.mp h
    rw [encode_cons, encodeChar_kept hc.1 hc.2, ih hs, List.singleton_append]

/-- A kept delimiter that is neither `%` nor a digit comes from itself only. -/
theorem encodeChar_ne (hd : ∀ b : UInt8, 128 ≤ b.toNat → deny b = true) {d : Char}
    (hi : Inert d) {c : Char} (hc : c ≠ d) : d ∉ encodeChar deny c := by
  intro hm
  rcases encodeChar_cases hd c with he | ⟨he, -, -⟩ <;> rw [he] at hm
  · rcases escapeChar_chars c d hm with rfl | ⟨n, hn, rfl⟩
    · exact hi.1 rfl
    · exact hexDigit_ne _ hi.2 n hn rfl
  · exact hc (List.mem_singleton.mp hm).symm

/-- An encoder that leaves `%` and the digits alone is an escaping. -/
theorem encode_escaping (hd : ∀ b : UInt8, 128 ≤ b.toNat → deny b = true)
    (hk : ∀ c : Char, c.toNat < 128 → deny (UInt8.ofNat c.toNat) = true → Inert c)
    (s : List Char) : Escaping s (encode deny s) := by
  induction s with
  | nil => exact Escaping.nil
  | cons c s ih =>
    rw [encode_cons]
    by_cases hc : c.toNat < 128
    · rw [encodeChar_ascii hc]
      split
      next hb => exact ih.replace (hk c hc hb)
      next => exact ih.keep c
    · rw [encodeChar_high hd (Nat.le_of_not_lt hc)]
      refine ih.replace ⟨?_, ?_⟩
      · rintro rfl
        exact hc (by decide)
      · by_contra hn
        exact hc (hexValue_ascii hn)

/-- Such an encoder keeps `%` and the digits. -/
theorem kept_of_not_inert
    (hk : ∀ c : Char, c.toNat < 128 → deny (UInt8.ofNat c.toNat) = true → Inert c) {c : Char}
    (hc : ¬Inert c) : c.toNat < 128 ∧ deny (UInt8.ofNat c.toNat) = false := by
  have ha : c.toNat < 128 := by
    rcases not_and_or.mp hc with hp | hx
    · rw [not_not.mp hp]
      decide
    · exact hexValue_ascii hx
  refine ⟨ha, ?_⟩
  rw [← Bool.not_eq_true]
  exact fun hd => hc (hk c ha hd)

theorem encode_triple
    (hk : ∀ c : Char, c.toNat < 128 → deny (UInt8.ofNat c.toNat) = true → Inert c) {h l : Char}
    (hh : hexValue h ≠ none) (hl : hexValue l ≠ none) (s : List Char) :
    encode deny ('%' :: h :: l :: s) = '%' :: h :: l :: encode deny s := by
  have hkeep : ∀ c : Char, ¬Inert c → encodeChar deny c = [c] := by
    intro c hc
    obtain ⟨ha, hd⟩ := kept_of_not_inert hk hc
    exact encodeChar_kept ha hd
  rw [encode_cons, encode_cons, encode_cons, hkeep '%' (by decide), hkeep h fun hi => hh hi.2,
    hkeep l fun hi => hl hi.2]
  rfl

/-- Its output is over characters that it keeps, so a second pass does nothing. -/
theorem encode_encode (hd : ∀ b : UInt8, 128 ≤ b.toNat → deny b = true)
    (hk : ∀ c : Char, c.toNat < 128 → deny (UInt8.ofNat c.toNat) = true → Inert c)
    (s : List Char) : encode deny (encode deny s) = encode deny s := by
  apply encode_of_kept
  intro c hc
  rcases mem_encode hd hc with (rfl | ⟨n, hn, rfl⟩) | ⟨-, ha, hb⟩
  · exact kept_of_not_inert hk (by decide)
  · apply kept_of_not_inert hk
    intro hi
    have hv := hexDigit_value n hn
    rw [hi.2] at hv
    contradiction
  · exact ⟨ha, hb⟩

/-- An encoder that denies `%` as well is undone by decoding. -/
theorem decode_encode (hd : ∀ b : UInt8, 128 ≤ b.toNat → deny b = true)
    (hp : deny (UInt8.ofNat '%'.toNat) = true) (s : List Char) :
    decode (encode deny s) = utf8 s := by
  induction s with
  | nil => rfl
  | cons c s ih =>
    rw [encode_cons, utf8_cons]
    rcases encodeChar_cases hd c with he | ⟨he, -, hb⟩ <;> rw [he]
    · rw [escapeChar, decode_escapes, ih]
    · have hc : c ≠ '%' := by
        rintro rfl
        rw [hp] at hb
        contradiction
      rw [List.singleton_append, decode_cons_ne hc, ih]

end Encoder
end PercentCoding
