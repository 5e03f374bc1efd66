import Pyureq.Requests.Sending
import Pyureq.Url.QueryRoundTrip

/-! Requests that follow each other: each goes to the `url` of the response before it, with
parameters of its own, as a client does that pages through a listing. -/
namespace Pyureq.Following
open PercentCoding Sending QueryRoundTrip

variable {b : Builtins}

/-- One request of such a sequence, but for its URL. -/
structure Hop (b : Builtins) where
  platform : Platform
  env : TlsEnv
  session : Option (Session b.lower)
  world : World
  method : Text
  kw : Kwargs b.lower

/-- The pairs of the session and then those of the request. -/
def Hop.params (hop : Hop b) : Except PyErr (List (Text × Text)) := do
  let own ← normalizeParams b ((hop.session.map Session.params).getD .none)
  let given ← normalizeParams b (orNone hop.kw.params)
  pure (own ++ given)

/-- What the hop hands to ureq when it goes to `url`. -/
def Hop.handed (hop : Hop b) (url : Text) : Except PyErr Handover :=
  Sending.handed b hop.platform hop.env hop.session hop.world hop.method url hop.kw

/-- How the request ends. -/
def Hop.answer (hop : Hop b) (url : Text) : Except PyErr (Response b.lower) :=
  match hop.session with
  | some s => (s.request b hop.platform hop.env hop.world hop.method url hop.kw).result
  | none => (statelessRequest b hop.platform hop.env hop.world hop.method url hop.kw).result

/-- From `url` to `last` over the URLs of the responses. Each response comes from the very URL
that its request was sent to: there was no redirect, and the URL was in normal form. -/
def Follows : Text → List (Hop b) → Text → Prop
  | url, [], last => last = url
  | url, hop :: hops, last => ∃ h r, hop.handed url = .ok h ∧ hop.answer url = .ok r ∧
      r.raw.url = h.req.uri ∧ Follows r.raw.url hops last

/-- The pairs of all hops in their order. -/
def allParams : List (Hop b) → Except PyErr (List (Text × Text))
  | [] => .ok []
  | hop :: hops => do
    let ps ← hop.params
    let rest ← allParams hops
    pure (ps ++ rest)

section Targets

theorem queryString_append {ps qs : List (Text × Text)} (hp : ps ≠ []) (hq : qs ≠ []) :
    queryString (ps ++ qs) = queryString ps ++ '&' :: queryString qs := by
  obtain ⟨p, ps, rfl⟩ := List.exists_cons_of_ne_nil hp
  obtain ⟨q, qs, rfl⟩ := List.exists_cons_of_ne_nil hq
  simp only [queryString, List.map_cons, List.cons_append, List.map_append,
    Delimited.intercalate_cons_flatMap, List.flatMap_append, List.flatMap_cons, List.append_assoc,
    List.nil_append]

/-- Parameters can be added at once or one list after the other. -/
theorem urlWithParams_append (url : Text) (ps qs : List (Text × Text)) :
    urlWithParams (urlWithParams url (some ps)) (some qs) =
      urlWithParams url (some (ps ++ qs)) := by
  cases ps with
  | nil => rfl
  | cons p ps =>
    cases qs with
    | nil => rw [List.append_nil]; rfl
    | cons q qs =>
      have hquery : queryString (p :: (ps ++ q :: qs)) =
          queryString (p :: ps) ++ '&' :: queryString (q :: qs) :=
        queryString_append (List.cons_ne_nil p ps) (List.cons_ne_nil q qs)
      have hcontains : (url ++ (if url.contains '?' then '&' else '?') ::
          queryString (p :: ps)).contains '?' = true := by
        by_cases h : '?' ∈ url <;> simp [h]
      simp only [urlWithParams, List.isEmpty_cons, Bool.false_eq_true, if_false, List.cons_append,
        hcontains, if_true, List.append_assoc]
      rw [hquery]

/-- Parameters added to an encoded URL are encoded once, and nothing is encoded again. -/
theorem percentEncodeUri_resumed (url : Text) (params : Option (List (Text × Text))) :
    percentEncodeUri (urlWithParams (percentEncodeUri url) params) =
      percentEncodeUri (urlWithParams url params) := by
  rw [percentEncodeUri_urlWithParams, percentEncodeUri_urlWithParams]
  congr 1
  rcases url_cases url with h | ⟨path, query, hp, rfl⟩
  · rw [percentEncodeUri_of_path h, percentEncodeUri_of_path (question_notMem_path h),
      utf8PercentEncode_twice (Or.inl rfl)]
  · rw [percentEncodeUri_of_query hp, percentEncodeUri_of_query (question_notMem_path hp),
      utf8PercentEncode_twice (Or.inl rfl), utf8PercentEncode_twice (Or.inr rfl)]

theorem urlWithParams_listOrNone (url : Text) (ps : List (Text × Text)) :
    urlWithParams url (listOrNone ps) = urlWithParams url (some ps) := by
  cases ps <;> rfl

end Targets

/-- One request goes to its URL with the parameters of the session and its own. -/
theorem hop_uri {hop : Hop b} {url : Text} {h : Handover} (hh : hop.handed url = .ok h) :
    ∃ ps, hop.params = .ok ps ∧ h.req.uri = percentEncodeUri (urlWithParams url (some ps)) := by
  obtain ⟨args, hargs, hh⟩ := bind_eq_ok.mp hh
  rw [handover_uri hh, Hop.params]
  cases hs : hop.session with
  | none =>
    rw [hs] at hargs
    have hspec := prepare_spec hargs
    obtain ⟨ps, hps, hparams⟩ := hspec.params
    have hnone : normalizeParams b .none = .ok [] := rfl
    refine ⟨ps, ?_, ?_⟩
    · simp only [Option.map_none, Option.getD_none, hnone, hps, bind, Except.bind, pure,
        Except.pure, List.nil_append]
    · rw [hspec.url_eq, hparams, urlWithParams_listOrNone]
  | some s =>
    rw [hs] at hargs
    obtain ⟨merged, hmerged, hargs⟩ := bind_eq_ok.mp hargs
    have hspec := prepare_spec hargs
    obtain ⟨own, given, hown, hgiven, hmergedParams⟩ := (merge_spec hmerged).params
    obtain ⟨ps, hps, hparams⟩ := hspec.params
    rw [hmergedParams] at hps
    obtain rfl := Except.ok.inj ((normalizeParams_ofStrPairs b (own ++ given)).symm.trans hps)
    refine ⟨own ++ given, ?_, ?_⟩
    · simp only [Option.map_some, Option.getD_some, hown, hgiven, bind, Except.bind, pure,
        Except.pure]
    · rw [hspec.url_eq, hparams, urlWithParams_listOrNone]

/-- However many requests follow each other, the last response comes from the first URL, encoded
once, with the parameters of all of them. -/
theorem follows_target {url last : Text} {hop : Hop b} {hops : List (Hop b)}
    (h : Follows url (hop :: hops) last) : ∃ ps, allParams (hop :: hops) = .ok ps ∧
      last = percentEncodeUri (urlWithParams url (some ps)) := by
  induction hops generalizing url hop with
  | nil =>
    obtain ⟨x, r, hx, -, hurl, hlast⟩ := h
    obtain ⟨ps, hps, huri⟩ := hop_uri hx
    refine ⟨ps, ?_, Eq.trans hlast (hurl.trans huri)⟩
    simp only [allParams, hps, bind, Except.bind, pure, Except.pure, List.append_nil]
  | cons hop' hops ih =>
    obtain ⟨x, r, hx, -, hurl, hrest⟩ := h
    obtain ⟨ps, hps, huri⟩ := hop_uri hx
    obtain ⟨rs, hrs, hlast⟩ := ih hrest
    refine ⟨ps ++ rs, ?_, ?_⟩
    · rw [allParams, hps, hrs]
      rfl
    · rw [hlast, hurl, huri, percentEncodeUri_resumed, urlWithParams_append]

/-- Following responses that come from where they were asked for neither loses nor repeats a
parameter, and encodes nothing twice: the last response comes from the target of one request with
all parameters, the query of its URL reads as that of the first URL followed by all pairs in
order, and its path as that of the first URL. -/
theorem following_accumulates {b : Builtins} {url last : Text} {hop : Hop b} {hops : List (Hop b)}
    (h : Follows url (hop :: hops) last) : ∃ ps, allParams (hop :: hops) = .ok ps ∧
      last = percentEncodeUri (urlWithParams url (some ps)) ∧
      queryPairs decode last =
        queryPairs decode url ++ ps.map (fun p => (utf8 p.1, some (utf8 p.2))) ∧
      decodedPath last = decodedPath url := by
  obtain ⟨ps, hps, rfl⟩ := follows_target h
  have hdecode : ∀ s, decode (pct s) = utf8 s := decode_encode pct_denies_high (by decide +kernel)
  refine ⟨ps, hps, rfl, ?_, ?_⟩
  · rw [percentEncodeUri_urlWithParams, queryPairs_urlWithParams, queryPairs_encoded]
    simp only [hdecode]
  · rw [percentEncodeUri_urlWithParams, decodedPath_urlWithParams, decodedPath_encoded]

/-- One page of a listing, through a session with a parameter of its own. -/
def page (n : String) : Hop Builtins.ascii where
  platform := Platform.plain
  env := .noFiles
  session := some { Session.plain with params := .dict [(.str "é".toList, .str "1".toList)] }
  world := World.initial
  method := "get".toList
  kw := { params := some (.dict [(.str "page".toList, .str n.toList)]) }

theorem following_accumulates_pages : ∃ ps,
    allParams [page "1", page "2"] = .ok ps ∧
      Follows "http://h/a b".toList [page "1", page "2"]
        "http://h/a%20b?%C3%A9=1&page=1&%C3%A9=1&page=2".toList ∧
      decodedPath "http://h/a%20b?%C3%A9=1&page=1&%C3%A9=1&page=2".toList =
        decodedPath "http://h/a b".toList := by
  have hfollows : Follows "http://h/a b".toList [page "1", page "2"]
      "http://h/a%20b?%C3%A9=1&page=1&%C3%A9=1&page=2".toList :=
    ⟨_, _, rfl, rfl, rfl, _, _, rfl, rfl, rfl, rfl⟩
  obtain ⟨ps, hps, -, -, hpath⟩ := following_accumulates hfollows
  exact ⟨ps, hps, hfollows, hpath⟩

end Pyureq.Following
