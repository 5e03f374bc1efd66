import Pyureq.Core.Url

/-! When the request target of `percent_encode_uri` is built from RFC 3986 characters.
Three ASCII characters outside the grammar are in neither deny-list, and a `%` is passed
on whatever follows it. -/
namespace Pyureq.TargetCompliance
open Delimited PercentCoding

def isUnreserved (c : Char) : Bool :=
  ('A' ≤ c && c ≤ 'Z') || ('a' ≤ c && c ≤ 'z') || ('0' ≤ c && c ≤ '9') ||
    "-._~".toList.contains c

/-- The general and the sub-delimiters. -/
def isReserved (c : Char) : Bool := ":/?#[]@!$&'()*+,;=".toList.contains c

/-- A text over the characters of RFC 3986 with well-formed percent-encodings. -/
def Compliant (t : Text) : Prop :=
  (∀ c ∈ t, isUnreserved c = true ∨ isReserved c = true ∨ c = '%') ∧ EscapesComplete t

/-- The printable ASCII characters that RFC 3986 has no place for and the encoder keeps. -/
def missed : List Char := ['\\', '^', '|']

theorem hexDigit_unreserved : ∀ n < 16, isUnreserved (hexDigit n) = true := by decide

theorem missed_not_legal : ∀ c ∈ missed, isUnreserved c = false ∧ isReserved c = false ∧ c ≠ '%' ∧
    c.toNat < 128 := forall_mem_of_all (by decide)

/-- A character that an encoder keeps is legal, `%`, or one of the missed three. -/
theorem kept_cases {set : List UInt8} (hset : set = urlPath ∨ set = urlQuery) {c : Char}
    (ha : c.toNat < 128) (hk : shouldEncode set (UInt8.ofNat c.toNat) = false) :
    (isUnreserved c = true ∨ isReserved c = true ∨ c = '%') ∨ c ∈ missed := by
  rcases hset with rfl | rfl
  · revert hk
    apply ascii_forall (P := fun c => shouldEncode urlPath (UInt8.ofNat c.toNat) = false →
      (isUnreserved c = true ∨ isReserved c = true ∨ c = '%') ∨ c ∈ missed) _ ha
    decide +kernel
  · revert hk
    apply ascii_forall (P := fun c => shouldEncode urlQuery (UInt8.ofNat c.toNat) = false →
      (isUnreserved c = true ∨ isReserved c = true ∨ c = '%') ∨ c ∈ missed) _ ha
    decide +kernel

theorem missed_kept {set : List UInt8} (hset : set = urlPath ∨ set = urlQuery) :
    ∀ c ∈ missed, shouldEncode set (UInt8.ofNat c.toNat) = false := by
  rcases hset with rfl | rfl <;> exact forall_mem_of_all (by decide +kernel)

/-- One encoded half is legal exactly when its input has none of the missed characters. -/
theorem encode_legal_iff {set : List UInt8} (hset : set = urlPath ∨ set = urlQuery) (s : Text) :
    (∀ c ∈ utf8PercentEncode s set, isUnreserved c = true ∨ isReserved c = true ∨ c = '%') ↔
      ∀ c ∈ s, c ∉ missed := by
  constructor
  · intro h c hc hm
    obtain ⟨hu, hr, hp, ha⟩ := missed_not_legal c hm
    have hl := h c (mem_encode_of_kept hc ha (missed_kept hset c hm))
    simp [hu, hr, hp] at hl
  · intro h c hc
    rcases mem_encode (shouldEncode_high set) hc with (rfl | ⟨n, hn, rfl⟩) | ⟨hs, ha, hk⟩
    · exact Or.inr (Or.inr rfl)
    · exact Or.inl (hexDigit_unreserved n hn)
    · rcases kept_cases hset ha hk with hl | hm
      · exact hl
      · exact absurd hm (h c hs)

/-- The target is RFC 3986 text exactly when the URL has no backslash, caret or bar and
each `%` of the URL already starts a well-formed escape. -/
theorem percentEncodeUri_compliant_iff (url : Text) :
    Compliant (percentEncodeUri url) ↔ (∀ c ∈ url, c ∉ missed) ∧ EscapesComplete url := by
  have hlegal : (∀ c ∈ percentEncodeUri url,
      isUnreserved c = true ∨ isReserved c = true ∨ c = '%') ↔ ∀ c ∈ url, c ∉ missed := by
    rcases url_cases url with h | ⟨p, q, hp, rfl⟩
    · rw [percentEncodeUri_of_path h]
      exact encode_legal_iff (Or.inl rfl) url
    · have hq : isReserved '?' = true ∧ '?' ∉ missed := by decide
      rw [percentEncodeUri_of_query hp]
      simp only [List.forall_mem_append, List.forall_mem_cons, encode_legal_iff (Or.inl rfl) p,
        encode_legal_iff (Or.inr rfl) q, hq.1, hq.2, true_or, or_true, not_false_eq_true, true_and]
  rw [Compliant, hlegal, (percentEncodeUri_escaping url).complete_iff]

/-- A bar in the path and a bare `%` in the query reach the request line as they are. -/
theorem percentEncodeUri_not_compliant :
    ¬Compliant (percentEncodeUri "http://h/a|b".toList) ∧
      ¬Compliant (percentEncodeUri "http://h/?q=100%".toList) := by
  constructor
  · intro h
    have hbar := h.1 '|' (by decide +kernel)
    revert hbar
    decide
  · intro h
    obtain ⟨x, y, r, hr, -⟩ := h.2 "http://h/?q=100".toList [] (by decide +kernel)
    simp at hr

end Pyureq.TargetCompliance
