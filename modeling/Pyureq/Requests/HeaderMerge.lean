import Pyureq.Sessions

/-! Merging the headers of a session and of a request. The session's dict ignores case, the
merge is a union of plain dicts, so a name that the two spell differently survives twice. -/
namespace Pyureq.HeaderMerge

/-- What the merged map promises: one entry for each name up to case, with the request's
value where the request has one, and no names of its own. -/
structure MergedOnce (lower : Text → Text) (own given m : OrderedMap Text Text) : Prop where
  once : (m.keys.map lower).Nodup
  value : ∀ e ∈ m.entries, (∃ g ∈ given.entries, lower g.1 = lower e.1 ∧ g.2 = e.2) ∨
    ((∀ g ∈ given.entries, lower g.1 ≠ lower e.1) ∧
      ∃ o ∈ own.entries, lower o.1 = lower e.1 ∧ o.2 = e.2)
  present : ∀ n, n ∈ own.keys ∨ n ∈ given.keys → ∃ e ∈ m.entries, lower e.1 = lower n
  only : ∀ n ∈ m.keys, n ∈ own.keys ∨ n ∈ given.keys

/-- What the request that leaves the machine promises about the merged map. -/
structure EmittedOnce (m : OrderedMap Text Text) (sent : List (Text × Text)) : Prop where
  once : (sent.map fun e => e.1.map Char.toLower).Nodup
  keeps : ∀ e ∈ m.entries, e ∈ sent
  only : ∀ e ∈ sent, e ∈ m.entries ∨
    (e.1 ∈ ["Cookie".toList, "Authorization".toList, "Content-Type".toList] ∧
      ∀ k ∈ m.keys, eqIgnoreAsciiCase k e.1 = false)

/-- Where both sides name a header, they spell it alike. -/
def SameSpelling (lower : Text → Text) (own given : OrderedMap Text Text) : Prop :=
  ∀ g ∈ given.keys, ∀ o ∈ own.keys, lower g = lower o → g = o

theorem union_value {lower : Text → Text} {own given : OrderedMap Text Text}
    (h : SameSpelling lower own given) : ∀ e ∈ (own.union given).entries,
      (∃ g ∈ given.entries, lower g.1 = lower e.1 ∧ g.2 = e.2) ∨
        ((∀ g ∈ given.entries, lower g.1 ≠ lower e.1) ∧
          ∃ o ∈ own.entries, lower o.1 = lower e.1 ∧ o.2 = e.2) := by
  rintro ⟨k, v⟩ he
  rw [← OrderedMap.get?_eq_some, OrderedMap.get?_union] at he
  cases hg : given.get? k with
  | some w =>
    rw [hg, Option.some_or] at he
    obtain rfl := Option.some.inj he
    exact Or.inl ⟨_, OrderedMap.get?_eq_some.mp hg, rfl, rfl⟩
  | none =>
    rw [hg, Option.none_or] at he
    have ho := OrderedMap.get?_eq_some.mp he
    refine Or.inr ⟨?_, _, ho, rfl, rfl⟩
    -- an entry of the request under another spelling is excluded
    intro g hg' hl
    have hgk : g.1 = k :=
      h g.1 (OrderedMap.mem_keys_of_mem hg') k (OrderedMap.mem_keys_of_mem ho) hl
    exact OrderedMap.get?_eq_none.mp hg (hgk ▸ OrderedMap.mem_keys_of_mem hg')

theorem union_mergedOnce {lower : Text → Text} {own given : OrderedMap Text Text}
    (hown : (own.keys.map lower).Nodup) (hgiven : (given.keys.map lower).Nodup)
    (h : SameSpelling lower own given) : MergedOnce lower own given (own.union given) where
  once := (OrderedMap.union_image_nodup_iff hown hgiven).mpr h
  value := union_value h
  present := by
    intro n hn
    obtain ⟨v, hv⟩ := OrderedMap.mem_keys.mp (OrderedMap.mem_keys_union.mpr hn.symm)
    exact ⟨_, hv, rfl⟩
  only := fun n hn => (OrderedMap.mem_keys_union.mp hn).symm

/-- On a request that the http crate accepts, Python's case and Rust's agree. -/
theorem emittedOnce {b : Builtins} {p : Platform} {m : OrderedMap Text Text}
    (hm : (m.keys.map b.lower).Nodup) {a : CallArgs} (ha : a.headers = mapOrNone m)
    (hok : p.checkRequest (request p a) = .ok ()) : EmittedOnce m (request p a).headers := by
  have hcaller : callerEntries a.headers = m.entries := by rw [ha, callerEntries_mapOrNone]
  have hmem := fun e => @mem_requestHeaders p a.headers a.cookies a.auth a.contentType e
  have hascii : ∀ e ∈ m.entries, b.lower e.1 = e.1.map Char.toLower := by
    intro e he
    apply b.lower_ascii
    apply isToken_ascii
    exact p.checkRequest_names _ hok e ((hmem e).mpr (Or.inl (hcaller ▸ he)))
  refine ⟨?_, ?_, ?_⟩
  · apply requestHeaders_nodup
    rw [hcaller, ← List.map_congr_left hascii]
    rwa [OrderedMap.keys, List.map_map] at hm
  · exact fun e he => (hmem e).mpr (Or.inl (hcaller ▸ he))
  · intro e he
    rcases (hmem e).mp he with hc | ⟨d, hd, hs⟩
    · exact Or.inl (hcaller ▸ hc)
    · obtain ⟨hno, -, hn⟩ := sentHeader_eq_some.mp hs
      refine Or.inr ⟨?_, ?_⟩
      · rw [hn]
        exact List.mem_map_of_mem (f := Prod.fst) hd
      · intro k hk
        obtain ⟨v, hv⟩ := OrderedMap.mem_keys.mp hk
        rw [← Bool.not_eq_true]
        intro heq
        rw [hasHeader_eq_true.mpr ⟨_, hcaller ▸ hv, hn ▸ heq⟩] at hno
        contradiction

theorem ofStrDict_injective {m n : OrderedMap Text Text}
    (h : PyVal.ofStrDict m = PyVal.ofStrDict n) : m = n := by
  have hinj : Function.Injective fun e : Text × Text => (PyVal.str e.1, PyVal.str e.2) := by
    rintro ⟨k, v⟩ ⟨l, w⟩ he
    simpa using he
  apply OrderedMap.ext
  apply List.map_injective_iff.mpr hinj
  simpa [PyVal.ofStrDict] using h

/-- The merged headers hold every name once, with the right value, and go out once, exactly
when the request spells the session's header names as the session does. -/
theorem headers_merged_once_iff {b : Builtins} (p : Platform) {s : Session b.lower}
    {d : CaseInsensitiveDict b.lower PyVal} (hs : s.headers = .cid d)
    {own given : OrderedMap Text Text} {kw merged : Kwargs b.lower}
    (hown : normalizeHeaders b (some (.cid d)) = .ok own)
    (hgiven : normalizeHeaders b kw.headers = .ok given)
    (hdistinct : (given.keys.map b.lower).Nodup) (hmerge : s.merge b kw = .ok merged) :
    (∃ m, merged.headers = some (.val (.ofStrDict m)) ∧ MergedOnce b.lower own given m ∧
      ∀ method url args, prepare b method url merged = .ok args →
        ∀ a : CallArgs, a.headers = args.headers → p.checkRequest (request p a) = .ok () →
          EmittedOnce m (request p a).headers) ↔
      SameSpelling b.lower own given := by
  obtain ⟨own', given', ho, hg, hmerged⟩ := (merge_spec hmerge).headers
  obtain rfl : own = own' := Except.ok.inj (hown.symm.trans (hs ▸ ho))
  obtain rfl : given = given' := Except.ok.inj (hgiven.symm.trans hg)
  have hownDistinct : (own.keys.map b.lower).Nodup := by
    obtain ⟨o, ho, hentries⟩ := normalizeHeaders_cid b d
    obtain rfl := Except.ok.inj (hown.symm.trans ho)
    rw [OrderedMap.keys, hentries, List.map_map, List.map_map]
    exact d.iter_distinct
  constructor
  · rintro ⟨m, hm, honce, -⟩
    rw [hmerged, Option.some.injEq, HeadersVal.val.injEq] at hm
    rw [← ofStrDict_injective hm] at honce
    exact (OrderedMap.union_image_nodup_iff hownDistinct hdistinct).mp honce.once
  · intro h
    have honce := union_mergedOnce hownDistinct hdistinct h
    refine ⟨_, hmerged, honce, ?_⟩
    intro method url args hprep a ha hok
    obtain ⟨hdrs, hn, hargs⟩ := (prepare_spec hprep).headers
    rw [hmerged, normalizeHeaders_ofStrDict] at hn
    obtain rfl := Except.ok.inj hn
    exact emittedOnce honce.once (ha.trans hargs) hok

/-- A request that sets the user agent under the given name. -/
def withUserAgent (name : String) : Kwargs Builtins.ascii.lower :=
  { headers := some (.val (.dict [(.str name.toList, .str "x".toList)])) }

theorem headers_merged_once_iff_same_spelling : ∃ own given merged,
    normalizeHeaders Builtins.ascii (some (.cid (CaseInsensitiveDict.ofPairs defaultHeaders))) =
      .ok own ∧
    normalizeHeaders Builtins.ascii (withUserAgent "User-Agent").headers = .ok given ∧
    (Session.init Builtins.ascii.lower RustClient.plain).merge Builtins.ascii
      (withUserAgent "User-Agent") = .ok merged ∧
    ∃ m, merged.headers = some (.val (.ofStrDict m)) ∧
      MergedOnce Builtins.ascii.lower own given m ∧
      ∀ method url args, prepare Builtins.ascii method url merged = .ok args →
        ∀ a : CallArgs, a.headers = args.headers →
          Platform.plain.checkRequest (request Platform.plain a) = .ok () →
            EmittedOnce m (request Platform.plain a).headers := by
  refine ⟨_, _, _, rfl, rfl, rfl, ?_⟩
  apply (@headers_merged_once_iff Builtins.ascii Platform.plain (Session.init _ RustClient.plain) _ rfl
    _ _ (withUserAgent "User-Agent") _ rfl rfl (by decide) rfl).mpr
  unfold SameSpelling
  decide

/-- With `user-agent` in lower case both spellings are merged, and both are sent. -/
theorem headers_not_merged_once : ∃ given merged args call m,
    normalizeHeaders Builtins.ascii (withUserAgent "user-agent").headers = .ok given ∧
    (given.keys.map Builtins.ascii.lower).Nodup ∧
    (Session.init Builtins.ascii.lower RustClient.plain).merge Builtins.ascii
      (withUserAgent "user-agent") = .ok merged ∧
    merged.headers = some (.val (.ofStrDict m)) ∧ ¬(m.keys.map Builtins.ascii.lower).Nodup ∧
    prepare Builtins.ascii "GET".toList "http://h/".toList merged = .ok args ∧
    extractArgs args = .ok call ∧
    Platform.plain.checkRequest (request Platform.plain call) = .ok () ∧
    ¬((request Platform.plain call).headers.map fun e => e.1.map Char.toLower).Nodup := by
  refine ⟨_, _, _, _, _, rfl, ?_, rfl, rfl, ?_, rfl, rfl, ?_, ?_⟩ <;> decide

end Pyureq.HeaderMerge
