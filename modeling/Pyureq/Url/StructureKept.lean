import Pyureq.Core.Url

/-! What `percent_encode_uri` leaves as it is: the place of the query, the delimiters, the
escapes that are already there, and its own output. -/
namespace Pyureq.StructureKept
open Delimited PercentCoding

/-- The delimiters of paths and queries that both halves keep. -/
def delimiters : List Char := ['/', '&', '=']

theorem delimiters_kept {set : List UInt8} (hset : set = urlPath ∨ set = urlQuery) :
    ∀ d ∈ delimiters, Inert d ∧ d.toNat < 128 ∧ shouldEncode set (UInt8.ofNat d.toNat) = false := by
  rcases hset with rfl | rfl <;> exact forall_mem_of_all (by decide +kernel)

/-- One half has as many pieces as its input, and they decode to the same bytes. -/
theorem pieces_decode {set : List UInt8} (hset : set = urlPath ∨ set = urlQuery) {d : Char}
    (hd : d ∈ delimiters) (s : Text) :
    ((utf8PercentEncode s set).splitOn d).map decode = (s.splitOn d).map decode := by
  obtain ⟨hi, ha, hk⟩ := delimiters_kept hset d hd
  rw [splitOn_utf8PercentEncode hi ha hk, List.map_map]
  apply List.map_congr_left
  exact fun piece _ => decode_utf8PercentEncode hset piece

/-- The cut of the encoded URL is the encoded cut of the URL. -/
theorem cut_percentEncodeUri (url : Text) : cut '?' (percentEncodeUri url) =
    (utf8PercentEncode (cut '?' url).1 urlPath,
      (cut '?' url).2.map fun query => utf8PercentEncode query urlQuery) := by
  rcases url_cases url with h | ⟨path, query, hp, rfl⟩
  · rw [percentEncodeUri_of_path h, cut_of_notMem h, cut_of_notMem (question_notMem_path h)]
    rfl
  · rw [percentEncodeUri_of_query hp, cut_append_cons hp,
      cut_append_cons (question_notMem_path hp)]
    rfl

theorem question_mem_iff (url : Text) : '?' ∈ percentEncodeUri url ↔ '?' ∈ url := by
  rcases url_cases url with h | ⟨path, query, hp, rfl⟩
  · rw [percentEncodeUri_of_path h]
    exact iff_of_false (question_notMem_path h) h
  · rw [percentEncodeUri_of_query hp]
    simp

/-- An escape of the URL stands unchanged behind the encoding of what stood in front of it. -/
theorem triple_kept {before after : Text} {h l : Char} (hh : hexValue h ≠ none)
    (hl : hexValue l ≠ none) : ∃ rest, percentEncodeUri (before ++ '%' :: h :: l :: after) =
      percentEncodeUri before ++ '%' :: h :: l :: rest ∧ decode rest = decode after := by
  rw [percentEncodeUri_append]
  split
  · refine ⟨utf8PercentEncode after urlQuery, ?_, decode_utf8PercentEncode (Or.inr rfl) after⟩
    rw [utf8PercentEncode, encode_triple urlQuery_inert hh hl]
    rfl
  · have hne : ∀ c : Char, hexValue c ≠ none → '?' ≠ c := by
      rintro c hc rfl
      exact hc (by decide)
    have hq : '?' ∉ ['%', h, l] := by simp [hne h hh, hne l hl]
    refine ⟨percentEncodeUri after, ?_, (percentEncodeUri_escaping after).decode_eq⟩
    have hsplit := percentEncodeUri_append ['%', h, l] after
    rw [if_neg hq, percentEncodeUri_of_path hq, utf8PercentEncode,
      encode_triple urlPath_inert hh hl] at hsplit
    exact congrArg _ hsplit

/-- The encoded URL has a query exactly when the URL has one, both halves mean the same bytes,
piece by piece, and no escape of the URL is touched. -/
theorem structure_kept (url : Text) :
    let out := percentEncodeUri url
    ('?' ∈ out ↔ '?' ∈ url) ∧
    (decode (cut '?' out).1 = decode (cut '?' url).1 ∧
      (cut '?' out).2.map decode = (cut '?' url).2.map decode) ∧
    (∀ before h l after, url = before ++ '%' :: h :: l :: after → hexValue h ≠ none →
      hexValue l ≠ none → ∃ rest, out = percentEncodeUri before ++ '%' :: h :: l :: rest ∧
        decode rest = decode after) ∧
    ∀ d ∈ delimiters,
      ((cut '?' out).1.splitOn d).map decode = ((cut '?' url).1.splitOn d).map decode ∧
      (cut '?' out).2.map (fun query => (query.splitOn d).map decode) =
        (cut '?' url).2.map fun query => (query.splitOn d).map decode := by
  intro out
  refine ⟨question_mem_iff url, ⟨?_, ?_⟩, ?_, ?_⟩
  · rw [cut_percentEncodeUri]
    exact decode_utf8PercentEncode (Or.inl rfl) _
  · rw [cut_percentEncodeUri, Option.map_map]
    congr 1
    exact funext (decode_utf8PercentEncode (Or.inr rfl))
  · rintro before h l after rfl hh hl
    exact triple_kept hh hl
  · intro d hd
    rw [cut_percentEncodeUri, Option.map_map]
    refine ⟨pieces_decode (Or.inl rfl) hd _, ?_⟩
    congr 1
    exact funext (pieces_decode (Or.inr rfl) hd)

/-- A URL that went through the encoder goes through it unchanged. -/
theorem percentEncodeUri_idempotent (url : Text) :
    percentEncodeUri (percentEncodeUri url) = percentEncodeUri url := by
  rcases url_cases url with h | ⟨path, query, hp, rfl⟩
  · rw [percentEncodeUri_of_path h, percentEncodeUri_of_path (question_notMem_path h),
      utf8PercentEncode_twice (Or.inl rfl)]
  · rw [percentEncodeUri_of_query hp, percentEncodeUri_of_query (question_notMem_path hp),
      utf8PercentEncode_twice (Or.inl rfl), utf8PercentEncode_twice (Or.inr rfl)]

end Pyureq.StructureKept
