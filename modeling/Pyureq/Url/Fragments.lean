import Mathlib.Data.List.TakeWhile
import Pyureq.Url.CompliantUrls
import Pyureq.Url.QueryRoundTrip
import Pyureq.Url.StructureKept

/-! What becomes of a fragment. The `#` is escaped like any other character, so the fragment
is sent with whatever it stood behind, and the parameters go behind it. -/
namespace Pyureq.Fragments
open Delimited PercentCoding Grammar

/-- A character of the authority: it starts neither a path nor a query. -/
def inAuthority (c : Char) : Bool := c != '/' && c != '?'

theorem forall_inAuthority {s : Text} :
    (∀ c ∈ s, inAuthority c = true) ↔ '/' ∉ s ∧ '?' ∉ s := by
  constructor
  · intro h
    refine ⟨?_, ?_⟩ <;> intro hm <;> simpa [inAuthority] using h _ hm
  · rintro ⟨hs, hq⟩ c hc
    simp only [inAuthority, Bool.and_eq_true, bne_iff_ne]
    refine ⟨?_, ?_⟩ <;> rintro rfl
    · exact hs hc
    · exact hq hc

/-- Text in the middle shows behind the authority unless it is all part of the authority. -/
theorem behindAuthority_eq_iff {r g : Text} (hg : g ≠ []) (params : Option (List (Text × Text))) :
    (urlWithParams (r ++ g) params).dropWhile inAuthority =
        (urlWithParams r params).dropWhile inAuthority ↔
      ∀ c ∈ r ++ g, inAuthority c = true := by
  rw [urlWithParams_eq, urlWithParams_eq]
  constructor
  · intro h
    by_contra hn
    have hne : (r ++ g).dropWhile inAuthority ≠ [] := by
      rwa [Ne, List.dropWhile_eq_nil_iff]
    have hpos : 0 < g.length := List.length_pos_iff.mpr hg
    have hsuffix := paramsSuffix_length ((r ++ g).contains '?') (r.contains '?') params
    have hlen := congrArg List.length h
    rw [List.dropWhile_append, if_neg (by simpa using hne), List.dropWhile_append,
      List.dropWhile_append] at hlen
    by_cases hr : (r.dropWhile inAuthority).isEmpty = true
    · -- the text without `g` starts with its parameters, if at all
      have hle := (List.dropWhile_suffix inAuthority
        (l := paramsSuffix (r.contains '?') params)).length_le
      rw [List.dropWhile_append, if_pos hr, ← List.length_pos_iff] at hne
      simp only [hr, if_true, List.length_append] at hlen
      omega
    · simp only [hr, Bool.false_eq_true, if_false, List.length_append] at hlen
      omega
  · intro h
    have hr := fun c hc => h c (List.mem_append_left g hc)
    have hcontains : (r ++ g).contains '?' = false ∧ r.contains '?' = false := by
      have hq := (forall_inAuthority.mp h).2
      simp only [List.mem_append, not_or] at hq
      simp [hq]
    rw [List.dropWhile_append_of_pos h, List.dropWhile_append_of_pos hr, hcontains.1, hcontains.2]

section Encoded

theorem hash_notMem_encode {set : List UInt8} (hset : set = urlPath ∨ set = urlQuery) (s : Text) :
    '#' ∉ utf8PercentEncode s set := by
  have hdeny : shouldEncode set (UInt8.ofNat '#'.toNat) = true := by
    rcases hset with rfl | rfl <;> decide +kernel
  intro h
  rcases mem_encode (shouldEncode_high set) h with (hp | ⟨n, hn, he⟩) | ⟨-, -, hk⟩
  · exact absurd hp (by decide)
  · exact hexDigit_ne '#' (by decide) n hn he.symm
  · rw [hdeny] at hk
    contradiction

/-- No request target has a fragment. -/
theorem hash_notMem (url : Text) (params : Option (List (Text × Text))) :
    '#' ∉ percentEncodeUri (urlWithParams url params) := by
  have hpath := hash_notMem_encode (Or.inl rfl)
  rcases url_cases (urlWithParams url params) with h | ⟨p, q, hp, h⟩
  · rw [percentEncodeUri_of_path h]
    exact hpath _
  · rw [h, percentEncodeUri_of_query hp]
    simp [hpath p, hash_notMem_encode (Or.inr rfl) q]

theorem slash_mem_iff (url : Text) : '/' ∈ percentEncodeUri url ↔ '/' ∈ url := by
  have hslash : ∀ set, set = urlPath ∨ set = urlQuery → ∀ s : Text,
      '/' ∈ utf8PercentEncode s set ↔ '/' ∈ s := by
    rintro set (rfl | rfl) s <;>
      exact mem_utf8PercentEncode (by decide) (by decide) (by decide +kernel) s
  rcases url_cases url with h | ⟨p, q, hp, rfl⟩
  · rw [percentEncodeUri_of_path h]
    exact hslash urlPath (Or.inl rfl) url
  · rw [percentEncodeUri_of_query hp]
    simp [hslash urlPath (Or.inl rfl) p, hslash urlQuery (Or.inr rfl) q]

/-- The whole of an encoded text is part of the authority if the text was. -/
theorem forall_inAuthority_encoded (url : Text) :
    (∀ c ∈ percentEncodeUri url, inAuthority c = true) ↔ ∀ c ∈ url, inAuthority c = true := by
  rw [forall_inAuthority, forall_inAuthority, slash_mem_iff, StructureKept.question_mem_iff]

end Encoded

/-- The scheme and the two slashes are sent as they are. -/
theorem percentEncodeUri_of_scheme {scheme : Text} (hs : IsScheme scheme) (rest : Text) :
    percentEncodeUri (scheme ++ "://".toList ++ rest) =
      scheme ++ "://".toList ++ percentEncodeUri rest := by
  have hchars : ∀ c ∈ scheme ++ "://".toList, CompliantUrls.isHeadChar c = true := by
    rw [List.forall_mem_append]
    refine ⟨?_, forall_mem_of_all (by decide)⟩
    exact fun c hc => CompliantUrls.Head.of_reg (isSchemeChar_reg (hs.chars c hc))
  have hquestion : '?' ∉ scheme ++ "://".toList := fun h =>
    (CompliantUrls.Head.kept (hchars '?' h)).1 rfl
  have hdollar : '$' ∉ scheme ++ "://".toList := by
    have hsep : '$' ∉ "://".toList := by decide
    have hscheme : '$' ∉ scheme := fun h => absurd (hs.chars '$' h) (by decide)
    simp only [List.mem_append, not_or]
    exact ⟨hscheme, hsep⟩
  rw [percentEncodeUri_append, if_neg hquestion, percentEncodeUri_of_path hquestion,
    (CompliantUrls.head_encoded_iff hchars).mpr hdollar]

/-- The path and the query that are sent with the parameters. -/
theorem pathAndQuery_sent {scheme : Text} (hs : IsScheme scheme) (rest : Text)
    (params : Option (List (Text × Text))) :
    pathAndQuery (percentEncodeUri (urlWithParams (scheme ++ "://".toList ++ rest) params)) =
      some (cut '?' ((urlWithParams (percentEncodeUri rest) params).dropWhile inAuthority)) := by
  have hquestion : '?' ∉ scheme ++ "://".toList := by
    have hsep : '?' ∉ "://".toList := by decide
    have hscheme : '?' ∉ scheme := fun h => absurd (hs.chars '?' h) (by decide)
    simp only [List.mem_append, not_or]
    exact ⟨hscheme, hsep⟩
  have hsplit : urlWithParams (scheme ++ "://".toList ++ rest) params =
      scheme ++ "://".toList ++ urlWithParams rest params := by
    have hcontains : (scheme ++ "://".toList ++ rest).contains '?' = rest.contains '?' := by
      simp only [List.mem_append, not_or] at hquestion
      simp [hquestion]
    rw [urlWithParams_eq, urlWithParams_eq, hcontains, List.append_assoc]
  have hhash := hash_notMem rest params
  rw [hsplit, percentEncodeUri_of_scheme hs, pathAndQuery_of_scheme hs hhash,
    QueryRoundTrip.percentEncodeUri_urlWithParams]
  rfl

/-- The fragment stays out of the path and the query exactly when there is neither a path nor
a query for it to join and it does not start one itself. -/
theorem fragment_kept_out_iff {scheme : Text} (hs : IsScheme scheme) (rest fragment : Text)
    (params : Option (List (Text × Text))) :
    let base := scheme ++ "://".toList ++ rest
    pathAndQuery (percentEncodeUri (urlWithParams (base ++ '#' :: fragment) params)) =
        pathAndQuery (percentEncodeUri (urlWithParams base params)) ↔
      ('/' ∉ rest ∧ '?' ∉ rest) ∧ '/' ∉ fragment ∧ '?' ∉ fragment := by
  intro base
  obtain ⟨tail, hne, htail⟩ : ∃ tail, tail ≠ [] ∧
      percentEncodeUri (rest ++ '#' :: fragment) = percentEncodeUri rest ++ tail := by
    refine ⟨_, ?_, percentEncodeUri_append rest _⟩
    split
    · exact (utf8PercentEncode_escaping (Or.inr rfl) _).ne_nil (by simp)
    · exact (percentEncodeUri_escaping _).ne_nil (by simp)
  rw [List.append_assoc, pathAndQuery_sent hs, pathAndQuery_sent hs, Option.some_inj, htail]
  have hinj : ∀ s t : Text, cut '?' s = cut '?' t ↔ s = t :=
    fun s t => ⟨cut_injective, fun h => h ▸ rfl⟩
  rw [hinj, behindAuthority_eq_iff hne, ← htail, forall_inAuthority_encoded,
    forall_inAuthority]
  have hhash : '/' ≠ '#' ∧ '?' ≠ '#' := by decide
  simp only [List.mem_append, List.mem_cons, hhash.1, hhash.2, false_or, not_or]
  tauto

/-- A URL that is only an authority lets the fragment disappear into it. -/
theorem fragment_kept_out_iff_authority :
    pathAndQuery (percentEncodeUri (urlWithParams "http://h#top".toList none)) =
      pathAndQuery (percentEncodeUri (urlWithParams "http://h".toList none)) :=
  (fragment_kept_out_iff http_isScheme "h".toList "top".toList none).mpr (by decide)

/-- The fragment becomes part of the path, and the parameters are asked of another resource. -/
theorem fragment_sent :
    pathAndQuery (percentEncodeUri (urlWithParams "http://h/p#top".toList none)) =
      some ("/p%23top".toList, none) ∧
    pathAndQuery (percentEncodeUri (urlWithParams "http://h/p".toList none)) =
      some ("/p".toList, none) ∧
    pathAndQuery (percentEncodeUri
        (urlWithParams "http://h/p#top".toList (some [("a".toList, "1".toList)]))) ≠
      pathAndQuery (percentEncodeUri
        (urlWithParams "http://h/p".toList (some [("a".toList, "1".toList)]))) := by
  refine ⟨?_, ?_, ?_⟩ <;> decide +kernel

end Pyureq.Fragments
