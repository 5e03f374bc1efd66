import Pyureq.Core.Url

/-! Reading the query of the encoded URL returns the pairs of the base URL followed by the
parameters: the second encoder leaves what `pct` wrote alone, and both keep the delimiters. -/
namespace Pyureq.QueryRoundTrip
open Delimited PercentCoding

/-- The pairs behind the first `?`. A segment without `=` has no value. -/
def queryPairs (dec : Text → Bytes) (url : Text) : List (Bytes × Option Bytes) :=
  match (cut '?' url).2 with
  | none => []
  | some query => (query.splitOn '&').map fun segment =>
      (dec (cut '=' segment).1, (cut '=' segment).2.map dec)

/-- The decoded text before the first `?`. -/
def decodedPath (url : Text) : Bytes := decode (cut '?' url).1

theorem queryPairs_of_query (dec : Text → Bytes) {path : Text} (h : '?' ∉ path) (query : Text) :
    queryPairs dec (path ++ '?' :: query) = (query.splitOn '&').map fun segment =>
      (dec (cut '=' segment).1, (cut '=' segment).2.map dec) := by
  rw [queryPairs, cut_append_cons h]

theorem queryPairs_of_path (dec : Text → Bytes) {path : Text} (h : '?' ∉ path) :
    queryPairs dec path = [] := by
  rw [queryPairs, cut_of_notMem h]

section Pct

theorem pct_chars (s : Text) : ∀ c ∈ pct s, c = '%' ∨ (∃ n < 16, c = hexDigit n) ∨
    (c.toNat < 128 ∧ pctKeeps (UInt8.ofNat c.toNat) = true) := by
  intro c hc
  rcases mem_encode pct_denies_high hc with (h | h) | ⟨-, ha, hk⟩
  · exact Or.inl h
  · exact Or.inr (Or.inl h)
  · exact Or.inr (Or.inr ⟨ha, by simpa using hk⟩)

/-- What `pct` writes is a text over the unreserved characters and `%`. -/
theorem pct_mem_forall {P : Char → Prop} (hp : P '%') (hh : ∀ n < 16, P (hexDigit n))
    (hk : ∀ n < 128, pctKeeps (UInt8.ofNat n) = true → P (Char.ofNat n)) (s : Text) :
    ∀ c ∈ pct s, P c := by
  intro c hc
  rcases pct_chars s c hc with rfl | ⟨n, hn, rfl⟩ | ⟨ha, hb⟩
  · exact hp
  · exact hh n hn
  · rw [← Char.ofNat_toNat c]
    exact hk c.toNat ha hb

/-- No delimiter of a query occurs in the output of `pct`. -/
theorem pct_delimiter_free (s : Text) : ∀ d ∈ ['&', '=', '?', '+'], d ∉ pct s := by
  intro d hd hm
  have h := pct_mem_forall (P := fun c => c ∉ ['&', '=', '?', '+']) (by decide) (by decide)
    (by decide +kernel) s d hm
  exact h hd

theorem pct_kept_by_query (s : Text) : ∀ c ∈ pct s,
    c.toNat < 128 ∧ shouldEncode urlQuery (UInt8.ofNat c.toNat) = false := by
  apply pct_mem_forall (P := fun c => c.toNat < 128 ∧
    shouldEncode urlQuery (UInt8.ofNat c.toNat) = false) <;> decide +kernel

end Pct

/-- Appending parameters appends their pairs, whether or not there was a query before. -/
theorem queryPairs_urlWithParams (dec : Text → Bytes) (url : Text) (params : List (Text × Text)) :
    queryPairs dec (urlWithParams url (some params)) =
      queryPairs dec url ++ params.map fun p => (dec (pct p.1), some (dec (pct p.2))) := by
  cases params with
  | nil => simp [urlWithParams]
  | cons p ps =>
    have hsegments : ∀ s ∈ (p :: ps).map fun p => pct p.1 ++ '=' :: pct p.2, '&' ∉ s := by
      intro s hs
      obtain ⟨q, -, rfl⟩ := List.mem_map.mp hs
      have hk := pct_delimiter_free q.1 '&' (by decide)
      have hv := pct_delimiter_free q.2 '&' (by decide)
      simp [hk, hv]
    have hpairs : ((p :: ps).map fun p => pct p.1 ++ '=' :: pct p.2).map (fun segment =>
        (dec (cut '=' segment).1, (cut '=' segment).2.map dec)) =
          (p :: ps).map fun p => (dec (pct p.1), some (dec (pct p.2))) := by
      rw [List.map_map]
      apply List.map_congr_left
      intro q _
      simp [cut_append_cons (pct_delimiter_free q.1 '=' (by decide))]
    rcases url_cases url with h | ⟨path, query, hp, rfl⟩
    · have hu : urlWithParams url (some (p :: ps)) = url ++ '?' :: queryString (p :: ps) := by
        simp [urlWithParams, h]
      rw [hu, queryPairs_of_query dec h, queryPairs_of_path dec h, List.nil_append, queryString,
        List.splitOn_intercalate '&' hsegments (by simp), hpairs]
    · have hu : urlWithParams (path ++ '?' :: query) (some (p :: ps)) =
          path ++ '?' :: (query ++ '&' :: queryString (p :: ps)) := by
        simp [urlWithParams]
      rw [hu, queryPairs_of_query dec hp, queryPairs_of_query dec hp, queryString,
        splitOn_append_intercalate query (by simp) hsegments, List.map_append, hpairs]

section Encoder

/-- The second encoder does nothing to the parameters. -/
theorem encode_queryString (params : List (Text × Text)) :
    utf8PercentEncode (queryString params) urlQuery = queryString params := by
  have hamp : shouldEncode urlQuery (UInt8.ofNat '&'.toNat) = false := by decide +kernel
  have heq : shouldEncode urlQuery (UInt8.ofNat '='.toNat) = false := by decide +kernel
  apply encode_of_kept
  intro c hc
  rcases mem_of_mem_intercalate hc with hsep | ⟨s, hs, hcs⟩
  · rw [List.mem_singleton.mp hsep]
    exact ⟨by decide, hamp⟩
  · obtain ⟨p, -, rfl⟩ := List.mem_map.mp hs
    rcases List.mem_append.mp hcs with hk | hv
    · exact pct_kept_by_query p.1 c hk
    · rcases List.mem_cons.mp hv with rfl | hv
      · exact ⟨by decide, heq⟩
      · exact pct_kept_by_query p.2 c hv

/-- Encoding the URL with its parameters is encoding the URL and then adding them. -/
theorem percentEncodeUri_urlWithParams (base : Text) (params : Option (List (Text × Text))) :
    percentEncodeUri (urlWithParams base params) =
      urlWithParams (percentEncodeUri base) params := by
  cases params with
  | none => rfl
  | some ps =>
    cases ps with
    | nil => rfl
    | cons p ps =>
      rcases url_cases base with h | ⟨path, query, hp, rfl⟩
      · have hu : urlWithParams base (some (p :: ps)) = base ++ '?' :: queryString (p :: ps) := by
          simp [urlWithParams, h]
        rw [hu, percentEncodeUri_of_query h, percentEncodeUri_of_path h, encode_queryString]
        simp [urlWithParams, question_notMem_path h]
      · have hu : urlWithParams (path ++ '?' :: query) (some (p :: ps)) =
            path ++ '?' :: (query ++ '&' :: queryString (p :: ps)) := by
          simp [urlWithParams]
        have hamp : encodeChar (shouldEncode urlQuery) '&' = ['&'] :=
          encodeChar_kept (by decide) (by decide +kernel)
        have hq : utf8PercentEncode (query ++ '&' :: queryString (p :: ps)) urlQuery =
            utf8PercentEncode query urlQuery ++ '&' :: queryString (p :: ps) := by
          have hps := encode_queryString (p :: ps)
          unfold utf8PercentEncode at hps ⊢
          rw [encode_append, encode_cons, hamp, hps, List.singleton_append]
        rw [hu, percentEncodeUri_of_query hp, percentEncodeUri_of_query hp, hq]
        simp [urlWithParams]

/-- The encoder keeps the delimiters of a query and what its parts decode to. -/
theorem queryPairs_encoded (base : Text) :
    queryPairs decode (percentEncodeUri base) = queryPairs decode base := by
  rcases url_cases base with h | ⟨path, query, hp, rfl⟩
  · rw [percentEncodeUri_of_path h, queryPairs_of_path decode (question_notMem_path h),
      queryPairs_of_path decode h]
  · rw [percentEncodeUri_of_query hp, queryPairs_of_query decode (question_notMem_path hp),
      queryPairs_of_query decode hp,
      splitOn_utf8PercentEncode (by decide) (by decide) (by decide +kernel), List.map_map]
    apply List.map_congr_left
    intro segment _
    simp only [Function.comp_apply]
    rw [cut_utf8PercentEncode (by decide) (by decide) (by decide +kernel),
      decode_utf8PercentEncode (Or.inr rfl), Option.map_map]
    congr 2
    exact funext (decode_utf8PercentEncode (Or.inr rfl))

theorem decodedPath_encoded (base : Text) : decodedPath (percentEncodeUri base) = decodedPath base := by
  rcases url_cases base with h | ⟨path, query, hp, rfl⟩
  · rw [percentEncodeUri_of_path h, decodedPath, decodedPath, cut_of_notMem h,
      cut_of_notMem (question_notMem_path h), decode_utf8PercentEncode (Or.inl rfl)]
  · rw [percentEncodeUri_of_query hp, decodedPath, decodedPath, cut_append_cons hp,
      cut_append_cons (question_notMem_path hp), decode_utf8PercentEncode (Or.inl rfl)]

end Encoder

theorem decodedPath_urlWithParams (url : Text) (params : List (Text × Text)) :
    decodedPath (urlWithParams url (some params)) = decodedPath url := by
  cases params with
  | nil => rfl
  | cons p ps =>
    rcases url_cases url with h | ⟨path, query, hp, rfl⟩
    · simp [urlWithParams, h, decodedPath, cut_append_cons, cut_of_notMem]
    · simp [urlWithParams, decodedPath, cut_append_cons, hp]

/-- The parameters that come back are the ones that went in, in order and byte for byte,
behind what the base URL already carried. Reading `+` as a space changes nothing for them,
and the part before the query keeps its meaning. -/
theorem query_round_trip (base : Text) (params : List (Text × Text)) :
    let url := percentEncodeUri (urlWithParams base (some params))
    let sent := params.map fun p => (utf8 p.1, some (utf8 p.2))
    queryPairs decode url = queryPairs decode base ++ sent ∧
      queryPairs decodePlus url = queryPairs decodePlus (percentEncodeUri base) ++ sent ∧
      decodedPath url = decodedPath base := by
  have hdecode : ∀ s, decode (pct s) = utf8 s := decode_encode pct_denies_high (by decide +kernel)
  have hplus : ∀ s, decodePlus (pct s) = utf8 s := by
    intro s
    have hid : (pct s).map (fun c => if c = '+' then ' ' else c) = pct s := by
      conv_rhs => rw [← List.map_id (pct s)]
      apply List.map_congr_left
      intro c hc
      refine if_neg ?_
      rintro rfl
      exact pct_delimiter_free s '+' (by decide) hc
    rw [decodePlus, hid, hdecode]
  simp only [percentEncodeUri_urlWithParams, queryPairs_urlWithParams, queryPairs_encoded,
    decodedPath_urlWithParams, decodedPath_encoded, hdecode, hplus, and_self]

end Pyureq.QueryRoundTrip
