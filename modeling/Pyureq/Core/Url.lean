import Pyureq.Base.Delimited
import Pyureq.Base.PercentCoding
import Pyureq.Exceptions

/-! `url_with_params`, `pct` and `percent_encode_uri` of `lib.rs`. -/

namespace Pyureq
open Delimited PercentCoding

/-- The bytes `pct` copies: the unreserved characters. -/
def pctKeeps (b : UInt8) : Bool :=
  (65 ≤ b && b ≤ 90) || (97 ≤ b && b ≤ 122) || (48 ≤ b && b ≤ 57) || b == 45 || b == 95 ||
    b == 46 || b == 126

def pct (s : Text) : Text := encode (fun b => !pctKeeps b) s

def queryString (params : List (Text × Text)) : Text :=
  ['&'].intercalate (params.map fun p => pct p.1 ++ '=' :: pct p.2)

def urlWithParams (base : Text) (params : Option (List (Text × Text))) : Text :=
  match params with
  | none => base
  | some p =>
    if p.isEmpty then base
    else
      let sep := if base.contains '?' then '&' else '?'
      base ++ sep :: queryString p

/-- What the parameters append, behind a query or in its place. -/
def paramsSuffix (hasQuery : Bool) : Option (List (Text × Text)) → Text
  | some (p :: ps) => (if hasQuery then '&' else '?') :: queryString (p :: ps)
  | _ => []

theorem urlWithParams_eq (base : Text) (params : Option (List (Text × Text))) :
    urlWithParams base params = base ++ paramsSuffix (base.contains '?') params := by
  rcases params with _ | _ | ⟨p, ps⟩
  · exact (List.append_nil base).symm
  · exact (List.append_nil base).symm
  · rfl

theorem paramsSuffix_length (a b : Bool) (params : Option (List (Text × Text))) :
    (paramsSuffix a params).length = (paramsSuffix b params).length := by
  rcases params with _ | _ | ⟨p, ps⟩ <;> rfl

/-- `CONTROLS` of the percent_encoding crate. -/
def controls : List UInt8 := (List.range 32).map UInt8.ofNat ++ [127]

/-- The ASCII bytes that the path encoder escapes. -/
def urlPath : List UInt8 :=
  controls ++ ([' ', '"', '#', '$', '<', '>', '?', '`', '{', '}'].map fun c => UInt8.ofNat c.toNat)

/-- The ASCII bytes that the query encoder escapes. -/
def urlQuery : List UInt8 :=
  controls ++ ([' ', '"', '#', '<', '>', '`', '{', '}'].map fun c => UInt8.ofNat c.toNat)

/-- `AsciiSet::should_percent_encode`: the set, and every byte outside ASCII. -/
def shouldEncode (set : List UInt8) (b : UInt8) : Bool := 128 ≤ b.toNat || set.contains b

def utf8PercentEncode (s : Text) (set : List UInt8) : Text := encode (shouldEncode set) s

def percentEncodeUri (url : Text) : Text :=
  match cut '?' url with
  | (path, some query) => utf8PercentEncode path urlPath ++ utf8PercentEncode ('?' :: query) urlQuery
  | (path, none) => utf8PercentEncode path urlPath

theorem shouldEncode_high (set : List UInt8) :
    ∀ b : UInt8, 128 ≤ b.toNat → shouldEncode set b = true := by
  intro b hb
  simp [shouldEncode, hb]

/-- Both sets leave `%` and the hexadecimal digits alone. -/
theorem urlPath_inert : ∀ c : Char, c.toNat < 128 →
    shouldEncode urlPath (UInt8.ofNat c.toNat) = true → Inert c := by
  intro c
  apply ascii_forall (P := fun c => shouldEncode urlPath (UInt8.ofNat c.toNat) = true → Inert c)
  decide +kernel

theorem urlQuery_inert : ∀ c : Char, c.toNat < 128 →
    shouldEncode urlQuery (UInt8.ofNat c.toNat) = true → Inert c := by
  intro c
  apply ascii_forall (P := fun c => shouldEncode urlQuery (UInt8.ofNat c.toNat) = true → Inert c)
  decide +kernel

theorem urlSet_inert {set : List UInt8} (hset : set = urlPath ∨ set = urlQuery) :
    ∀ c : Char, c.toNat < 128 → shouldEncode set (UInt8.ofNat c.toNat) = true → Inert c := by
  rcases hset with rfl | rfl
  · exact urlPath_inert
  · exact urlQuery_inert

theorem pct_denies_high : ∀ b : UInt8, 128 ≤ b.toNat → (!pctKeeps b) = true := by
  intro b hb
  have h : ∀ n < 256, 128 ≤ n → (!pctKeeps (UInt8.ofNat n)) = true := by decide +kernel
  have hk := h b.toNat b.toNat_lt hb
  rwa [UInt8.ofNat_toNat] at hk

theorem percentEncodeUri_of_query {path query : Text} (h : '?' ∉ path) :
    percentEncodeUri (path ++ '?' :: query) =
      utf8PercentEncode path urlPath ++ '?' :: utf8PercentEncode query urlQuery := by
  rw [percentEncodeUri, cut_append_cons h]
  simp only [utf8PercentEncode, encode_cons]
  rfl

theorem percentEncodeUri_of_path {path : Text} (h : '?' ∉ path) :
    percentEncodeUri path = utf8PercentEncode path urlPath := by
  rw [percentEncodeUri, cut_of_notMem h]

/-- A URL is its path, or its path and the query behind the first `?`. -/
theorem url_cases (url : Text) :
    '?' ∉ url ∨ ∃ path query, '?' ∉ path ∧ url = path ++ '?' :: query := by
  by_cases h : '?' ∈ url
  · obtain ⟨p, q, rfl, hp⟩ := List.eq_append_cons_of_mem h
    exact Or.inr ⟨p, q, hp, rfl⟩
  · exact Or.inl h

section Halves
variable {set : List UInt8} (hset : set = urlPath ∨ set = urlQuery)
include hset

theorem utf8PercentEncode_escaping (s : Text) : Escaping s (utf8PercentEncode s set) :=
  encode_escaping (shouldEncode_high set) (urlSet_inert hset) s

theorem utf8PercentEncode_twice (s : Text) :
    utf8PercentEncode (utf8PercentEncode s set) set = utf8PercentEncode s set :=
  encode_encode (shouldEncode_high set) (urlSet_inert hset) s

theorem decode_utf8PercentEncode (s : Text) : decode (utf8PercentEncode s set) = decode s :=
  (utf8PercentEncode_escaping hset s).decode_eq

end Halves

section Delimiter
variable {set : List UInt8} {d : Char} (hi : Inert d) (ha : d.toNat < 128)
  (hk : shouldEncode set (UInt8.ofNat d.toNat) = false)
include hi ha hk

/-- A delimiter that the set keeps splits the encoded text where it splits the text. -/
theorem splitOn_utf8PercentEncode (s : Text) : (utf8PercentEncode s set).splitOn d =
    (s.splitOn d).map fun piece => utf8PercentEncode piece set := by
  have hne : ∀ c, c ≠ d → d ∉ encodeChar (shouldEncode set) c := fun c hc =>
    encodeChar_ne (shouldEncode_high set) hi hc
  simp only [utf8PercentEncode, encode_eq_flatMap]
  exact splitOn_flatMap (encodeChar_kept ha hk) hne s

theorem cut_utf8PercentEncode (s : Text) : cut d (utf8PercentEncode s set) =
    (utf8PercentEncode (cut d s).1 set, (cut d s).2.map fun t => utf8PercentEncode t set) := by
  have hne : ∀ c, c ≠ d → d ∉ encodeChar (shouldEncode set) c := fun c hc =>
    encodeChar_ne (shouldEncode_high set) hi hc
  simp only [utf8PercentEncode, encode_eq_flatMap]
  exact cut_flatMap (encodeChar_kept ha hk) hne s

theorem mem_utf8PercentEncode (s : Text) : d ∈ utf8PercentEncode s set ↔ d ∈ s := by
  constructor
  · intro h
    rw [utf8PercentEncode, encode_eq_flatMap] at h
    obtain ⟨c, hc, hd⟩ := List.mem_flatMap.mp h
    by_contra hs
    exact encodeChar_ne (shouldEncode_high set) hi (fun hcd => hs (hcd ▸ hc)) hd
  · exact fun h => mem_encode_of_kept h ha hk

end Delimiter

/-- The whole encoder is an escaping. -/
theorem percentEncodeUri_escaping (url : Text) : Escaping url (percentEncodeUri url) := by
  have hpath := utf8PercentEncode_escaping (Or.inl rfl)
  have hquery := utf8PercentEncode_escaping (Or.inr rfl)
  rcases url_cases url with h | ⟨p, q, hp, rfl⟩
  · rw [percentEncodeUri_of_path h]
    exact hpath url
  · rw [percentEncodeUri_of_query hp]
    exact (hpath p).append ((hquery q).keep '?')

theorem question_notMem_path {path : Text} (h : '?' ∉ path) :
    '?' ∉ utf8PercentEncode path urlPath := by
  have hhex : ∀ n < 16, '?' ≠ hexDigit n := by decide
  intro hm
  rcases mem_encode (shouldEncode_high urlPath) hm with (hp | ⟨n, hn, he⟩) | ⟨hs, -, -⟩
  · exact absurd hp (by decide)
  · exact hhex n hn he
  · exact h hs

/-- The encoder works from left to right and remembers only whether it has seen a `?`. -/
theorem percentEncodeUri_append (a b : Text) : percentEncodeUri (a ++ b) =
    percentEncodeUri a ++ if '?' ∈ a then utf8PercentEncode b urlQuery else percentEncodeUri b := by
  rcases url_cases a with h | ⟨p, q, hp, rfl⟩
  · rw [if_neg h]
    rcases url_cases b with hb | ⟨p, q, hp, rfl⟩
    · have hab : '?' ∉ a ++ b := by simp [h, hb]
      rw [percentEncodeUri_of_path h, percentEncodeUri_of_path hb, percentEncodeUri_of_path hab]
      exact encode_append _ a b
    · have hap : '?' ∉ a ++ p := by simp [h, hp]
      rw [percentEncodeUri_of_path h, percentEncodeUri_of_query hp, ← List.append_assoc,
        percentEncodeUri_of_query hap, ← List.append_assoc]
      congr 1
      exact encode_append _ a p
  · rw [if_pos (by simp), List.append_assoc, List.cons_append, percentEncodeUri_of_query hp,
      percentEncodeUri_of_query hp, List.append_assoc, List.cons_append]
    congr 2
    exact encode_append _ q b

end Pyureq
