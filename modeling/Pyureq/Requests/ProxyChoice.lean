import Pyureq.Sessions.NoTrace

/-! Which proxy a request uses. The documented rule asks the entry for the URL's scheme first
and `all` only when there is none; the code falls through an empty entry as well. -/
namespace Pyureq.ProxyChoice
open Delimited Runs Lifetime

/-- The entry that decides: the scheme's own, or else `all`. -/
def decider (proxies : OrderedMap Text Text) (scheme : Text) : Option Text :=
  (proxies.get? scheme).or (proxies.get? "all".toList)

/-- The setting when a proxy URL is configured explicitly. -/
def explicit (p : Platform) (url : Text) : Except PyErr ProxySetting :=
  match p.newProxy url with
  | .ok proxy => .ok (.via proxy)
  | .error e => .error ⟨.valueError, e⟩

/-- The documented rule. When nothing decides and some entry is in use for another scheme,
the rule only excludes an explicit proxy. -/
def FollowsRule (p : Platform) (proxies : OrderedMap Text Text) (scheme : Text)
    (setting : Except PyErr ProxySetting) : Prop :=
  match decider proxies scheme with
  | some v => setting = if v = [] then .ok .disabled else explicit p v
  | none => (∃ v ∈ proxies.values, v ≠ []) → setting = .ok .inherit ∨ setting = .ok .disabled

/-- An empty deciding entry stands among empty entries only. -/
def EmptyAlone (proxies : OrderedMap Text Text) (scheme : Text) : Prop :=
  decider proxies scheme = some [] → ∀ v ∈ proxies.values, v = []

section Choice

def noneUsed (proxies : OrderedMap Text Text) : Bool := proxies.values.all List.isEmpty

/-- What the chain of `or` picks: the first non-empty one of the two entries. -/
def picked (proxies : OrderedMap Text Text) (scheme : Text) : Option Text :=
  ((proxies.get? scheme).filter fun v => !v.isEmpty).or
    ((proxies.get? "all".toList).filter fun v => !v.isEmpty)

/-- The arguments for Rust from the merged entries. -/
def chosen (proxies : OrderedMap Text Text) (scheme : Text) : Option Text :=
  if noneUsed proxies then none else picked proxies scheme

theorem truthy_getD (o : Option Text) :
    ((o.map PyVal.str).getD .none).truthy = (o.filter fun v => !v.isEmpty).isSome := by
  cases o with
  | none => rfl
  | some v => cases v <;> rfl

theorem allEmpty_str (es : List (Text × Text)) :
    allEmpty (.dict (es.map fun e => (.str e.1, .str e.2))) =
      noneUsed (OrderedMap.ofList es) := by
  rw [allEmpty, PyVal.dictItems_str, noneUsed, OrderedMap.values, List.all_map, List.all_map]
  rfl

theorem proxyUrl_str {b : Builtins} {url scheme rest : Text}
    (hurl : cutSub "://".toList url = some (scheme, rest)) {es : List (Text × Text)}
    (hes : es ≠ []) :
    proxyUrl b (.dict (es.map fun e => (.str e.1, .str e.2))) url =
      .ok ((chosen (OrderedMap.ofList es) (b.lower scheme)).map .str) := by
  have hget : ∀ k, (PyVal.dict (es.map fun e => (.str e.1, .str e.2))).dictGet (.str k) =
      .ok ((((OrderedMap.ofList es).get? k).map PyVal.str).getD .none) := by
    intro k
    rw [PyVal.dictGet, PyVal.dictItems_str, PyVal.lookupItem_str]
  have htruthy : (PyVal.dict (es.map fun e => (.str e.1, .str e.2))).truthy = true := by
    simp [PyVal.truthy, hes]
  rw [proxyUrl, allEmpty_str, chosen]
  by_cases hn : noneUsed (OrderedMap.ofList es) = true
  · rw [if_pos hn, if_pos hn, Option.map_none]
  · rw [if_neg hn, if_neg hn, getProxyUrl, if_pos htruthy, urlScheme, hurl, hget, hget]
    simp only [bind, Except.bind, pure, Except.pure, truthyOrNone, truthy_getD, picked]
    cases (OrderedMap.ofList es).get? (b.lower scheme) with
    | none =>
      cases (OrderedMap.ofList es).get? "all".toList with
      | none => rfl
      | some v => cases v <;> rfl
    | some u =>
      cases u with
      | cons c u => rfl
      | nil =>
        cases (OrderedMap.ofList es).get? "all".toList with
        | none => rfl
        | some v => cases v <;> rfl

/-- The setting that Rust makes of the two arguments. -/
theorem proxySetting_chosen (p : Platform) (proxies : OrderedMap Text Text) (scheme : Text) :
    proxySetting p (chosen proxies scheme) (noneUsed proxies) =
      if noneUsed proxies then .ok .disabled
      else match picked proxies scheme with
        | some v => explicit p v
        | none => .ok .inherit := by
  unfold chosen
  by_cases hn : noneUsed proxies = true
  · simp [hn, proxySetting]
  · rw [if_neg hn, if_neg hn]
    cases picked proxies scheme with
    | none => simp [hn, proxySetting]
    | some v =>
      simp only [proxySetting, explicit]
      cases p.newProxy v <;> rfl

theorem explicit_ne {p : Platform} {url : Text} {s : ProxySetting}
    (h : s = .disabled ∨ s = .inherit) : explicit p url ≠ .ok s := by
  unfold explicit
  rcases h with rfl | rfl <;> split <;> simp

theorem picked_of_decider {proxies : OrderedMap Text Text} {scheme v : Text}
    (h : decider proxies scheme = some v) (hv : v ≠ []) : picked proxies scheme = some v := by
  unfold decider at h
  unfold picked
  cases hs : proxies.get? scheme with
  | none => simp_all
  | some u => simp_all

theorem picked_of_none {proxies : OrderedMap Text Text} {scheme : Text}
    (h : decider proxies scheme = none) : picked proxies scheme = none := by
  unfold decider at h
  unfold picked
  obtain ⟨hs, ha⟩ := Option.or_eq_none_iff.mp h
  rw [hs, ha]
  rfl

theorem noneUsed_iff {proxies : OrderedMap Text Text} :
    noneUsed proxies = true ↔ ∀ v ∈ proxies.values, v = [] := by
  simp [noneUsed]

theorem decider_mem {proxies : OrderedMap Text Text} {scheme v : Text}
    (h : decider proxies scheme = some v) : v ∈ proxies.values := by
  rcases Option.or_eq_some_iff.mp h with h | ⟨-, h⟩ <;>
    exact List.mem_map_of_mem (f := Prod.snd) (OrderedMap.get?_eq_some.mp h)

/-- The choice follows the rule exactly when an empty deciding entry is not in mixed company. -/
theorem chosen_follows_iff (p : Platform) (proxies : OrderedMap Text Text) (scheme : Text) :
    FollowsRule p proxies scheme (proxySetting p (chosen proxies scheme) (noneUsed proxies)) ↔
      EmptyAlone proxies scheme := by
  rw [proxySetting_chosen, EmptyAlone, ← noneUsed_iff]
  unfold FollowsRule
  cases hd : decider proxies scheme with
  | none =>
    have hp := picked_of_none hd
    simp only [reduceCtorEq, false_implies, iff_true]
    intro _
    by_cases hn : noneUsed proxies = true
    · exact Or.inr (if_pos hn)
    · rw [if_neg hn, hp]
      exact Or.inl rfl
  | some v =>
    by_cases hv : v = []
    · subst hv
      simp only [if_true, true_implies]
      by_cases hn : noneUsed proxies = true
      · simp [hn]
      · -- another entry is in use, so the empty one is passed over
        rw [if_neg hn]
        refine iff_of_false ?_ hn
        cases picked proxies scheme with
        | none => simp
        | some u => exact explicit_ne (Or.inl rfl)
    · have hn : ¬noneUsed proxies = true := fun h => hv (noneUsed_iff.mp h v (decider_mem hd))
      dsimp only
      rw [if_neg hv, if_neg hn, picked_of_decider hd hv]
      simp [hv]

end Choice

/-- From the two dicts through the merge and `_dispatch` to the request configuration of a client
that disables no proxies by itself. -/
theorem merged_follows_iff {b : Builtins} (p : Platform) {s : Session b.lower}
    {own given : OrderedMap Text Text} (hown : s.proxies = .ofStrDict own)
    {kw : Kwargs b.lower} (hgiven : Session.orEmptyDict (orNone kw.proxies) = .ofStrDict given)
    (hne : (own.union given).entries ≠ []) {url scheme rest : Text}
    (hurl : cutSub "://".toList url = some (scheme, rest)) {merged : Kwargs b.lower}
    (hmerge : s.merge b kw = .ok merged) {method : Text} {args : RustArgs}
    (hprep : prepare b method url merged = .ok args) {call : CallArgs}
    (hcall : extractArgs args = .ok call) {c : RustClient} (hc : c.defaultNoProxyAll = false) :
    FollowsRule p (own.union given) (b.lower scheme)
        (proxySetting p (c.effective call).proxy (c.effective call).noProxyAll) ↔
      EmptyAlone (own.union given) (b.lower scheme) := by
  have hunion : OrderedMap.ofList (own.entries ++ given.entries) = own.union given := by
    have h := OrderedMap.update_append OrderedMap.empty own.entries given.entries
    rwa [← OrderedMap.ofList, ← OrderedMap.ofList, OrderedMap.ofList_entries] at h
  have hes : own.entries ++ given.entries ≠ [] := by
    intro h
    rw [← hunion, h] at hne
    exact hne rfl
  have hdisplay : ∃ v, merged.proxies = some v ∧ v =
      .dict ((own.entries ++ given.entries).map fun e => (.str e.1, .str e.2)) := by
    obtain ⟨v, hv, hm⟩ := (merge_spec hmerge).proxies
    refine ⟨v, hm, ?_⟩
    simp only [Session.mergeProxies, hown, hgiven, PyVal.ofStrDict, PyVal.unpackMapping,
      PyVal.dictItems_ofStrDict, bind, Except.bind, pure, Except.pure, ← List.map_append,
      List.isEmpty_map, Except.ok.injEq] at hv
    rw [if_neg (by simpa using hes)] at hv
    exact hv.symm
  obtain ⟨v, hm, rfl⟩ := hdisplay
  have hspec := prepare_spec hprep
  have hproxy := hspec.proxy
  have hflag := hspec.noProxyAll
  rw [hm, orNone, Option.getD_some] at hproxy hflag
  rw [proxyUrl_str hurl hes, hunion] at hproxy
  rw [allEmpty_str, hunion] at hflag
  have hargs : (c.effective call).proxy = chosen (own.union given) (b.lower scheme) ∧
      (c.effective call).noProxyAll = noneUsed (own.union given) := by
    unfold extractArgs at hcall
    obtain ⟨redirects, -, hcall⟩ := bind_eq_ok.mp hcall
    obtain ⟨proxy, hx, hcall⟩ := bind_eq_ok.mp hcall
    obtain rfl := Except.ok.inj hcall
    rw [← Except.ok.inj hproxy] at hx
    refine ⟨?_, by simp [RustClient.effective, hflag, hc]⟩
    cases h : chosen (own.union given) (b.lower scheme) <;> rw [h] at hx <;>
      exact (Except.ok.inj hx).symm
  rw [hargs.1, hargs.2]
  exact chosen_follows_iff p _ _

/-- In every state that a session can reach, the proxy of its next request is the one the rule
names exactly when no empty deciding entry stands among entries in use. -/
theorem proxy_rule_iff {b : Builtins} (p : Platform) {env₀ : TlsEnv} {w₀ w : World}
    {c₀ : RustClient} (hnew : RustClient.new env₀ (some (.bool true)) none false w₀ = .ok (c₀, w))
    {actions : List (Action b.lower)} {s : State b.lower}
    (hrun : run step (start b.lower c₀ w) actions = some s) {own given : OrderedMap Text Text}
    (hown : s.session.proxies = .ofStrDict own) {kw : Kwargs b.lower}
    (hgiven : Session.orEmptyDict (orNone kw.proxies) = .ofStrDict given)
    (hne : (own.union given).entries ≠ []) {url scheme rest : Text}
    (hurl : cutSub "://".toList url = some (scheme, rest)) {merged : Kwargs b.lower}
    (hmerge : s.session.merge b kw = .ok merged) {method : Text} {args : RustArgs}
    (hprep : prepare b method url merged = .ok args) {call : CallArgs}
    (hcall : extractArgs args = .ok call) {c : RustClient} (hclient : s.session.client = some c) :
    FollowsRule p (own.union given) (b.lower scheme)
        (proxySetting p (c.effective call).proxy (c.effective call).noProxyAll) ↔
      EmptyAlone (own.union given) (b.lower scheme) :=
  merged_follows_iff p hown hgiven hne hurl hmerge hprep hcall
    (NoTrace.run_unset hnew hrun c hclient).2

/-- A session whose HTTPS entry is empty and which has a proxy for everything else. -/
def bypassing : Session Builtins.ascii.lower :=
  { Session.init Builtins.ascii.lower RustClient.plain with
    proxies := .ofStrDict
      (OrderedMap.ofList [("https".toList, []), ("all".toList, "http://p:1".toList)]) }

/-- The assignment that makes a new session `bypassing`. -/
def bypass : List (Action Builtins.ascii.lower) :=
  [.set (.proxies (.ofStrDict
    (OrderedMap.ofList [("https".toList, []), ("all".toList, "http://p:1".toList)])))]

theorem proxy_rule_iff_http : ∃ c w s merged args call,
    RustClient.new .noFiles (some (.bool true)) none false World.initial = .ok (c, w) ∧
    run step (start Builtins.ascii.lower c w) bypass = some s ∧ s.session = bypassing ∧
    s.session.merge Builtins.ascii {} = .ok merged ∧
    prepare Builtins.ascii "GET".toList "http://h/".toList merged = .ok args ∧
    extractArgs args = .ok call ∧
    FollowsRule Platform.plain
      (OrderedMap.ofList [("https".toList, []), ("all".toList, "http://p:1".toList)]) "http".toList
      (proxySetting Platform.plain (c.effective call).proxy (c.effective call).noProxyAll) := by
  refine ⟨_, _, _, _, _, _, rfl, rfl, rfl, rfl, rfl, rfl, ?_⟩
  apply (@proxy_rule_iff Builtins.ascii Platform.plain .noFiles World.initial _ _ rfl bypass _ rfl
    _ OrderedMap.empty rfl {} rfl (by decide) "http://h/".toList "http".toList "h/".toList
    (by decide) _ rfl "GET".toList _ rfl _ rfl _ rfl).mpr
  intro h
  exact absurd h (by decide)

/-- The same session sends an HTTPS request through the proxy for everything. -/
theorem proxy_rule_broken : ∃ merged args call,
    bypassing.merge Builtins.ascii {} = .ok merged ∧
    prepare Builtins.ascii "GET".toList "https://h/".toList merged = .ok args ∧
    extractArgs args = .ok call ∧
    proxySetting Platform.plain (RustClient.plain.effective call).proxy
      (RustClient.plain.effective call).noProxyAll = .ok (.via ⟨"http://p:1".toList⟩) ∧
    ¬FollowsRule Platform.plain
      (OrderedMap.ofList [("https".toList, []), ("all".toList, "http://p:1".toList)]) "https".toList
      (proxySetting Platform.plain (RustClient.plain.effective call).proxy
        (RustClient.plain.effective call).noProxyAll) := by
  refine ⟨_, _, _, rfl, rfl, rfl, rfl, ?_⟩
  intro h
  have hset : Except.ok (ProxySetting.via ⟨"http://p:1".toList⟩) =
      (Except.ok ProxySetting.disabled : Except PyErr ProxySetting) := h
  contradiction

end Pyureq.ProxyChoice
