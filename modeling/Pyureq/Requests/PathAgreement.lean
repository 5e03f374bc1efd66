import Pyureq.Sessions

/-! A session at its initial settings against the stateless functions. Both run the same
conversions; only `proxies` takes a detour, through the merge, and an empty dict does not
survive it. -/
namespace Pyureq.PathAgreement

/-- Two computations of the arguments for Rust: equal arguments, or exceptions of one class. -/
def SameCall : Except PyErr RustArgs → Except PyErr RustArgs → Prop
  | .ok a, .ok a' => a = a'
  | .error e, .error e' => e.cls = e'.cls
  | _, _ => False

/-- The session's own settings contribute nothing. -/
structure Blank (b : Builtins) (s : Session b.lower) : Prop where
  headers : normalizeHeaders b (some s.headers) = .ok OrderedMap.empty
  params : normalizeParams b s.params = .ok []
  cookies : normalizeCookies b s.cookies = .ok OrderedMap.empty
  proxies : s.proxies = .dict []
  auth : s.auth = .none
  verify : s.verify = .bool true
  timeout : s.timeout = .none
  allowRedirects : s.allowRedirects = .bool true

/-- What `Session.request` computes before the call into Rust. -/
def sessionArgs (b : Builtins) (s : Session b.lower) (method url : Text) (kw : Kwargs b.lower) :
    Except PyErr RustArgs := do
  let merged ← s.merge b kw
  prepare b (b.upper method) url merged

/-- What `pyureq.request` computes before the call into Rust. -/
def statelessArgs (b : Builtins) (method url : Text) (kw : Kwargs b.lower) :
    Except PyErr RustArgs := prepare b (b.upper method) url kw

/-- The conversions that both paths make first. -/
def Normalizes (b : Builtins) (kw : Kwargs b.lower) : Prop :=
  (∃ hs, normalizeHeaders b kw.headers = .ok hs) ∧
    (∃ ps, normalizeParams b (orNone kw.params) = .ok ps) ∧
    ∃ cs, normalizeCookies b (orNone kw.cookies) = .ok cs

/-- The conversions that both paths make after looking at `proxies`. -/
def Converts (b : Builtins) (kw : Kwargs b.lower) : Prop :=
  (∃ body, prepareBody b (orNone kw.data) (orNone kw.json) = .ok body) ∧
    (∃ auth, authTuple b (orNone kw.auth) = .ok auth) ∧
    ∃ t, timeoutFloat b (orNone kw.timeout) = .ok t

/-- No empty dict, unless the request fails anyway, and no truthy value of another type. -/
def ProxiesAgree (b : Builtins) (kw : Kwargs b.lower) : PyVal → Prop
  | .dict [] => ¬Converts b kw
  | v => v.truthy = true → v.isDict = true

/-- If the first conversions succeed, the `proxies` argument is one that survives the merge. -/
def Agrees (b : Builtins) (kw : Kwargs b.lower) : Prop :=
  Normalizes b kw → ProxiesAgree b kw (orNone kw.proxies)

section Args
variable {b : Builtins} {method url : Text} {kw : Kwargs b.lower}

/-- The rest of `_dispatch` behind the three normalisers, for any `proxies`. -/
def finish (b : Builtins) (method url : Text) (kw : Kwargs b.lower) (hs : OrderedMap Text Text)
    (ps : List (Text × Text)) (cs : OrderedMap Text Text) (proxies : PyVal) :
    Except PyErr RustArgs := do
  let proxy ← proxyUrl b proxies url
  let body ← prepareBody b (orNone kw.data) (orNone kw.json)
  let auth ← authTuple b (orNone kw.auth)
  let timeout ← timeoutFloat b (orNone kw.timeout)
  pure { method, url, headers := mapOrNone hs, params := listOrNone ps,
         body := body.1, contentType := body.2, auth, timeout,
         verify := kw.verify.getD (.bool true),
         allowRedirects := kw.allowRedirects.getD (.bool true),
         cookies := mapOrNone cs, noProxyAll := allEmpty proxies, proxy }

theorem statelessArgs_eq : statelessArgs b method url kw = (do
    let hs ← normalizeHeaders b kw.headers
    let ps ← normalizeParams b (orNone kw.params)
    let cs ← normalizeCookies b (orNone kw.cookies)
    finish b (b.upper method) url kw hs ps cs (orNone kw.proxies)) := rfl

/-- A blank session passes everything on and rebuilds `proxies`. -/
theorem sessionArgs_eq {s : Session b.lower} (hs : Blank b s) :
    sessionArgs b s method url kw = (do
      let hs ← normalizeHeaders b kw.headers
      let ps ← normalizeParams b (orNone kw.params)
      let cs ← normalizeCookies b (orNone kw.cookies)
      let proxies ← Session.mergeProxies (.dict []) (orNone kw.proxies)
      finish b (b.upper method) url kw hs ps cs proxies) := by
  unfold sessionArgs Session.merge
  rw [hs.headers, hs.params, hs.cookies, hs.proxies, hs.auth, hs.verify, hs.timeout,
    hs.allowRedirects]
  cases normalizeHeaders b kw.headers with
  | error e => rfl
  | ok given =>
    cases normalizeParams b (orNone kw.params) with
    | error e => simp only [bind, Except.bind, normalizeHeaders_ofStrDict]
    | ok ps =>
      cases normalizeCookies b (orNone kw.cookies) with
      | error e => simp only [bind, Except.bind, normalizeHeaders_ofStrDict]
      | ok cs =>
        cases Session.mergeProxies (.dict []) (orNone kw.proxies) with
        | error e => simp only [bind, Except.bind, normalizeHeaders_ofStrDict]
        | ok proxies =>
          simp only [bind, Except.bind, pure, Except.pure, prepare, finish, orNone,
            Option.getD_some, normalizeHeaders_ofStrDict, normalizeCookies_ofStrDict,
            normalizeParams_ofStrPairs, OrderedMap.empty_union, List.nil_append]

theorem sameCall_refl (x : Except PyErr RustArgs) : SameCall x x := by
  cases x <;> rfl

/-- A common first step does not matter unless it succeeds. -/
theorem sameCall_bind {α : Type} {x : Except PyErr α} {f g : α → Except PyErr RustArgs} :
    SameCall (x >>= f) (x >>= g) ↔ ∀ a, x = .ok a → SameCall (f a) (g a) := by
  cases x with
  | error e => simp [bind, Except.bind, SameCall]
  | ok a => simp [bind, Except.bind]

/-- An empty dict only sets the flag. -/
theorem finish_nil (hs : OrderedMap Text Text) (ps : List (Text × Text))
    (cs : OrderedMap Text Text) : finish b method url kw hs ps cs (.dict []) =
      (finish b method url kw hs ps cs .none).map fun a => { a with noProxyAll := true } := by
  unfold finish
  cases prepareBody b (orNone kw.data) (orNone kw.json) with
  | error e => rfl
  | ok body =>
    cases authTuple b (orNone kw.auth) with
    | error e => rfl
    | ok auth => cases timeoutFloat b (orNone kw.timeout) <;> rfl

theorem finish_none_ok (hs : OrderedMap Text Text) (ps : List (Text × Text))
    (cs : OrderedMap Text Text) :
    (∃ a, finish b method url kw hs ps cs .none = .ok a) ↔ Converts b kw := by
  unfold finish Converts
  cases prepareBody b (orNone kw.data) (orNone kw.json) with
  | error e => simp [proxyUrl, allEmpty, getProxyUrl, PyVal.truthy, bind, Except.bind]
  | ok body =>
    cases authTuple b (orNone kw.auth) with
    | error e => simp [proxyUrl, allEmpty, getProxyUrl, PyVal.truthy, bind, Except.bind]
    | ok auth =>
      cases timeoutFloat b (orNone kw.timeout) <;>
        simp [proxyUrl, allEmpty, getProxyUrl, PyVal.truthy, bind, Except.bind, pure, Except.pure]

theorem finish_noProxyAll {hs : OrderedMap Text Text} {ps : List (Text × Text)}
    {cs : OrderedMap Text Text} {proxies : PyVal} {a : RustArgs}
    (h : finish b method url kw hs ps cs proxies = .ok a) : a.noProxyAll = allEmpty proxies := by
  unfold finish at h
  obtain ⟨proxy, -, h⟩ := bind_eq_ok.mp h
  obtain ⟨body, -, h⟩ := bind_eq_ok.mp h
  obtain ⟨auth, -, h⟩ := bind_eq_ok.mp h
  obtain ⟨timeout, -, h⟩ := bind_eq_ok.mp h
  obtain rfl := Except.ok.inj h
  rfl

/-- `proxies` matters to the rest only through the flag and the chosen proxy. -/
theorem finish_congr {v w : PyVal} (hp : proxyUrl b v url = proxyUrl b w url)
    (he : allEmpty v = allEmpty w) (hs : OrderedMap Text Text) (ps : List (Text × Text))
    (cs : OrderedMap Text Text) :
    finish b method url kw hs ps cs v = finish b method url kw hs ps cs w := by
  unfold finish
  rw [hp, he]

theorem allEmpty_copy (d : List (PyVal × PyVal)) :
    allEmpty (.dict (PyVal.dictItems d)) = allEmpty (.dict d) := by
  rw [allEmpty, allEmpty, PyVal.dictItems_dictItems]

/-- Copying a dict does not change the proxy that is picked from it. -/
theorem proxyUrl_copy (d : List (PyVal × PyVal)) :
    proxyUrl b (.dict (PyVal.dictItems d)) url = proxyUrl b (.dict d) url := by
  have htruthy : (PyVal.dict (PyVal.dictItems d)).truthy = (PyVal.dict d).truthy := by
    rw [PyVal.truthy, PyVal.truthy, Bool.not_inj_iff, Bool.eq_iff_iff, List.isEmpty_iff,
      List.isEmpty_iff]
    exact PyVal.dictItems_eq_nil
  have hget : ∀ k, (PyVal.dict (PyVal.dictItems d)).dictGet k = (PyVal.dict d).dictGet k := by
    intro k
    simp only [PyVal.dictGet, PyVal.dictItems_dictItems]
  simp only [proxyUrl, getProxyUrl, allEmpty_copy, htruthy, hget]

theorem mergeProxies_falsy {v : PyVal} (h : v.truthy = false) :
    Session.mergeProxies (.dict []) v = .ok .none := by
  rw [Session.mergeProxies, Session.orEmptyDict, h]
  rfl

theorem mergeProxies_dict (e : PyVal × PyVal) (d : List (PyVal × PyVal)) :
    Session.mergeProxies (.dict []) (.dict (e :: d)) = .ok (.dict (PyVal.dictItems (e :: d))) := by
  have hne : PyVal.dictItems (e :: d) ≠ [] := by
    intro h
    simpa using PyVal.dictItems_eq_nil.mp h
  have hempty : PyVal.dictItems ([] : List (PyVal × PyVal)) = [] := PyVal.dictItems_eq_nil.mpr rfl
  simp only [Session.mergeProxies, Session.orEmptyDict, PyVal.truthy, PyVal.unpackMapping, hempty,
    List.isEmpty_cons, Bool.not_false, if_true, bind, Except.bind, pure, Except.pure,
    List.nil_append]
  rw [if_neg (by simpa [List.isEmpty_iff] using hne)]

theorem mergeProxies_other {v : PyVal} (ht : v.truthy = true) (hd : v.isDict = false) :
    ∃ msg, Session.mergeProxies (.dict []) v = .error ⟨.typeError, msg⟩ := by
  rw [Session.mergeProxies, Session.orEmptyDict, ht]
  cases v <;> first | exact ⟨_, rfl⟩ | simp [PyVal.isDict] at hd

theorem finish_other {v : PyVal} (ht : v.truthy = true) (hd : v.isDict = false)
    (hs : OrderedMap Text Text) (ps : List (Text × Text)) (cs : OrderedMap Text Text) :
    ∃ msg, finish b method url kw hs ps cs v = .error ⟨.attributeError, msg⟩ := by
  have hget : ∀ k, ∃ msg, v.dictGet k = .error ⟨.attributeError, msg⟩ := by
    intro k
    cases v <;> first | exact ⟨_, rfl⟩ | simp [PyVal.isDict] at hd
  have hempty : allEmpty v = false := by
    cases v <;> first | rfl | simp [PyVal.isDict] at hd
  obtain ⟨msg, hmsg⟩ := hget (.str (urlScheme b url))
  refine ⟨msg, ?_⟩
  simp only [finish, proxyUrl, hempty, Bool.false_eq_true, if_false, getProxyUrl, ht, if_true,
    hmsg, bind, Except.bind]

theorem finish_falsy {v : PyVal} (ht : v.truthy = false) (hd : v.isDict = false)
    (hs : OrderedMap Text Text) (ps : List (Text × Text)) (cs : OrderedMap Text Text) :
    finish b method url kw hs ps cs v = finish b method url kw hs ps cs .none := by
  have hempty : allEmpty v = false := by
    cases v <;> first | rfl | simp [PyVal.isDict] at hd
  have hproxy : ∀ w, allEmpty w = false → w.truthy = false → proxyUrl b w url = .ok none := by
    intro w he hw
    rw [proxyUrl, he, getProxyUrl, hw]
    rfl
  apply finish_congr
  · rw [hproxy v hempty ht, hproxy .none rfl rfl]
  · rw [hempty]
    rfl

/-- The detour of `proxies` through the merge, case by case. -/
theorem sameCall_finish (v : PyVal) (hs : OrderedMap Text Text) (ps : List (Text × Text))
    (cs : OrderedMap Text Text) :
    SameCall (Session.mergeProxies (.dict []) v >>= finish b method url kw hs ps cs)
        (finish b method url kw hs ps cs v) ↔ ProxiesAgree b kw v := by
  by_cases hd : v.isDict = true
  · cases v with
    | dict d =>
      cases d with
      | nil =>
        -- the session has forgotten the empty dict
        have hok := @finish_none_ok b method url kw hs ps cs
        rw [mergeProxies_falsy rfl, finish_nil, ProxiesAgree, ← hok]
        change SameCall (finish b method url kw hs ps cs .none) _ ↔ _
        cases h : finish b method url kw hs ps cs .none with
        | error e => simp [Except.map, SameCall]
        | ok a =>
          have hflag : a.noProxyAll = false := finish_noProxyAll h
          simp only [Except.map, SameCall, Except.ok.injEq, exists_eq', not_true, iff_false]
          intro ha
          rw [ha] at hflag
          simp at hflag
      | cons e d =>
        rw [mergeProxies_dict]
        change SameCall (finish b method url kw hs ps cs (.dict (PyVal.dictItems (e :: d)))) _ ↔ _
        rw [finish_congr (proxyUrl_copy (e :: d)) (allEmpty_copy (e :: d))]
        simp [sameCall_refl, ProxiesAgree, PyVal.isDict]
    | _ => simp [PyVal.isDict] at hd
  · have hd' : v.isDict = false := by simpa using hd
    have hgoal : ProxiesAgree b kw v ↔ v.truthy = false := by
      cases v <;> simp_all [ProxiesAgree, PyVal.isDict]
    rw [hgoal]
    cases ht : v.truthy with
    | false =>
      rw [mergeProxies_falsy ht, finish_falsy ht hd']
      exact iff_of_true (sameCall_refl _) rfl
    | true =>
      obtain ⟨m, hm⟩ := mergeProxies_other ht hd'
      obtain ⟨n, hn⟩ := @finish_other b method url kw v ht hd' hs ps cs
      rw [hm, hn]
      simp [bind, Except.bind, SameCall]

theorem sameCall_iff {s : Session b.lower} (hs : Blank b s) :
    SameCall (sessionArgs b s method url kw) (statelessArgs b method url kw) ↔ Agrees b kw := by
  rw [sessionArgs_eq hs, statelessArgs_eq]
  simp only [sameCall_bind, sameCall_finish, Agrees, Normalizes]
  constructor
  · rintro h ⟨⟨hs, hhs⟩, ⟨ps, hps⟩, cs, hcs⟩
    exact h hs hhs ps hps cs hcs
  · intro h hs hhs ps hps cs hcs
    exact h ⟨⟨hs, hhs⟩, ⟨ps, hps⟩, cs, hcs⟩

end Args

section Outcome
variable {b : Builtins} {p : Platform} {env : TlsEnv}

/-- A client at its initial settings, whose agents are what `build_agent` would build now. -/
structure Intact (env : TlsEnv) (c : RustClient) : Prop where
  verify : c.verify = .system
  timeout : c.defaultTimeout = none
  noProxyAll : c.defaultNoProxyAll = false
  lock : c.overrides.poisoned = false
  built : ∀ m a, c.table m = some a → ∃ w a' w', buildAgent env m w = .ok (a', w') ∧
    a'.config = a.config

theorem new_intact {w w' : World} {c : RustClient}
    (h : RustClient.new env (some (.bool true)) none false w = .ok (c, w')) : Intact env c := by
  obtain ⟨m, hm, h⟩ := bind_eq_ok.mp h
  obtain ⟨⟨a, w₁⟩, hbuild, h⟩ := bind_eq_ok.mp h
  obtain ⟨rfl, rfl⟩ := Prod.mk.inj (Except.ok.inj h)
  obtain rfl := Except.ok.inj hm
  refine ⟨rfl, rfl, rfl, rfl, ?_⟩
  intro n a' hn
  simp only [RustClient.table, OrderedMap.get?_empty, Option.ite_none_right_eq_some] at hn
  obtain ⟨rfl, ha⟩ := hn
  obtain rfl := Option.some.inj ha
  exact ⟨w, a, w₁, hbuild, rfl⟩

/-- The session's agent and the one-shot agent are configured alike, or neither exists. -/
theorem selectAgent_oneShot {c : RustClient} (hc : Intact env c) (verify : Option PyVal)
    (w w' : World) :
    (∃ e, (c.selectAgent env verify w).result = .error e ∧
      oneShotAgent env verify w' = .error e) ∨
    ∃ a a' w'', (c.selectAgent env verify w).result = .ok a ∧
      oneShotAgent env verify w' = .ok (a', w'') ∧ a.config = a'.config := by
  have htable : ∀ m a, c.table m = some a → ∃ a' w'', buildAgent env m w' = .ok (a', w'') ∧
      a.config = a'.config := by
    intro m a hm
    obtain ⟨u, a₁, u', hbuild, hconfig⟩ := hc.built m a hm
    have h := buildAgent_config env m u w'
    rw [hbuild] at h
    cases hb : buildAgent env m w' with
    | error e => simp [hb, Except.map] at h
    | ok r => exact ⟨r.1, r.2, rfl, by simpa [hb, Except.map, ← hconfig] using h⟩
  cases verify with
  | none =>
    obtain ⟨a', w'', hb, ha⟩ := htable .system c.agent (by simp [RustClient.table, hc.verify])
    exact Or.inr ⟨c.agent, a', w'', rfl, hb, ha⟩
  | some v =>
    cases hv : VerifyMode.fromPyAny v with
    | error e =>
      exact Or.inl ⟨e, by simp [RustClient.selectAgent, hv],
        by simp [oneShotAgent, VerifyMode.orSystem, hv, bind, Except.bind]⟩
    | ok m =>
      have hone : oneShotAgent env (some v) w' = buildAgent env m w' := by
        simp [oneShotAgent, VerifyMode.orSystem, hv, bind, Except.bind]
      rw [hone]
      cases ht : c.table m with
      | some a =>
        obtain ⟨a', w'', hb, ha⟩ := htable m a ht
        refine Or.inr ⟨a, a', w'', ?_, hb, ha⟩
        by_cases hm : m = c.verify
        · simpa [RustClient.selectAgent, hv, hm, RustClient.table] using ht
        · have hg : c.overrides.data.get? m = some a := by
            simpa [RustClient.table, hm] using ht
          simp [RustClient.selectAgent, hv, hm, hc.lock, hg]
      | none =>
        have hm : ¬m = c.verify := by
          rintro rfl
          simp [RustClient.table] at ht
        have hg : c.overrides.data.get? m = none := by
          simpa [RustClient.table, hm] using ht
        have h := buildAgent_config env m w w'
        cases hb : buildAgent env m w with
        | error e =>
          refine Or.inl ⟨e, by simp [RustClient.selectAgent, hv, hm, hc.lock, hg, hb], ?_⟩
          cases hb' : buildAgent env m w' with
          | error e' => simpa [hb, hb', Except.map] using h.symm
          | ok r => simp [hb, hb', Except.map] at h
        | ok r =>
          cases hb' : buildAgent env m w' with
          | error e' => simp [hb, hb', Except.map] at h
          | ok r' =>
            refine Or.inr ⟨r.1, r'.1, r'.2, ?_, rfl, by simpa [hb, hb', Except.map] using h⟩
            simp [RustClient.selectAgent, hv, hm, hc.lock, hg, hb]

/-- Both calls fail with one class of exception, or both run the same call of `http_execute`
on agents of the same configuration. -/
def SameRequest (b : Builtins) (p : Platform) (r r' : Except PyErr (Response b.lower)) : Prop :=
  (∃ e e', r = .error e ∧ r' = .error e' ∧ e.cls = e'.cls) ∨
    ∃ (a a' : Agent) (call : CallArgs), a.config = a'.config ∧
      r = respond b p (httpExecute p a call) ∧ r' = respond b p (httpExecute p a' call)

theorem callRust_same {c : RustClient} (hc : Intact env c) (w w' : World) (args : RustArgs) :
    SameRequest b p (respond b p (callRust p env (some c) w args).result)
      (respond b p (callRust p env none w' args).result) := by
  rw [callRust, callRust, RustClient.request, httpRequest]
  cases extractArgs args with
  | error e => exact Or.inl ⟨_, _, rfl, rfl, rfl⟩
  | ok call =>
    have heff : c.effective call = call := by
      rw [RustClient.effective, hc.timeout, hc.noProxyAll, Option.or_none, Bool.or_false]
    rcases selectAgent_oneShot hc (pyOption args.verify) w w' with ⟨e, hs, ho⟩ | ⟨a, a', u, hs, ho, ha⟩
    · simp only [hs, ho]
      exact Or.inl ⟨_, _, rfl, rfl, rfl⟩
    · simp only [hs, ho, heff]
      exact Or.inr ⟨a, a', call, ha, rfl, rfl⟩

theorem request_result {s : Session b.lower} (w : World) (method url : Text) (kw : Kwargs b.lower) :
    (s.request b p env w method url kw).result =
      (sessionArgs b s method url kw).bind fun args =>
        respond b p (callRust p env s.client w args).result := by
  unfold Session.request sessionArgs dispatch
  cases s.merge b kw with
  | error e => rfl
  | ok merged => cases h : prepare b (b.upper method) url merged <;> simp [h, bind, Except.bind]

theorem statelessRequest_result (w : World) (method url : Text) (kw : Kwargs b.lower) :
    (statelessRequest b p env w method url kw).result =
      (statelessArgs b method url kw).bind fun args =>
        respond b p (callRust p env none w args).result := by
  unfold statelessRequest statelessArgs dispatch
  cases h : prepare b (b.upper method) url kw <;> simp [Except.bind]

end Outcome

/-- A session at its initial settings hands Rust what the stateless function hands it exactly
when `proxies` survives the merge, and then both make the same request. -/
theorem paths_agree_iff {b : Builtins} {s : Session b.lower} (hs : Blank b s) (p : Platform)
    (env : TlsEnv) (method url : Text) (kw : Kwargs b.lower) :
    (SameCall (sessionArgs b s method url kw) (statelessArgs b method url kw) ↔ Agrees b kw) ∧
    (Agrees b kw → ∀ c, s.client = some c → Intact env c → ∀ w w',
      SameRequest b p (s.request b p env w method url kw).result
        (statelessRequest b p env w' method url kw).result) := by
  refine ⟨sameCall_iff hs, ?_⟩
  intro hagrees c hclient hc w w'
  have hsame := (@sameCall_iff b method url kw s hs).mpr hagrees
  rw [request_result, statelessRequest_result, hclient]
  cases h : sessionArgs b s method url kw with
  | error e =>
    cases h' : statelessArgs b method url kw with
    | error e' =>
      rw [h, h'] at hsame
      exact Or.inl ⟨e, e', rfl, rfl, hsame⟩
    | ok a => simp [h, h', SameCall] at hsame
  | ok a =>
    cases h' : statelessArgs b method url kw with
    | error e => simp [h, h', SameCall] at hsame
    | ok a' =>
      rw [h, h'] at hsame
      obtain rfl : a = a' := hsame
      exact callRust_same hc w w' a

/-- A new session whose default headers have been cleared. -/
def cleared : Session Builtins.ascii.lower :=
  { Session.init Builtins.ascii.lower RustClient.plain with
    headers := .cid CaseInsensitiveDict.empty }

theorem cleared_blank : Blank Builtins.ascii cleared := ⟨rfl, rfl, rfl, rfl, rfl, rfl, rfl, rfl⟩

def withProxies (display : List (PyVal × PyVal)) : Kwargs Builtins.ascii.lower :=
  { proxies := some (.dict display) }

theorem paths_agree_iff_proxy :
    let kw := withProxies [(.str "https".toList, .str "http://p:8080".toList)]
    SameCall (sessionArgs Builtins.ascii cleared "get".toList "https://h/".toList kw)
      (statelessArgs Builtins.ascii "get".toList "https://h/".toList kw) ∧
    SameRequest Builtins.ascii Platform.plain
      (cleared.request Builtins.ascii Platform.plain .noFiles World.initial "get".toList
        "https://h/".toList kw).result
      (statelessRequest Builtins.ascii Platform.plain .noFiles World.initial "get".toList
        "https://h/".toList kw).result := by
  intro kw
  have hagrees : Agrees Builtins.ascii kw := fun _ _ => rfl
  obtain ⟨hcall, hrequest⟩ := paths_agree_iff cleared_blank Platform.plain .noFiles "get".toList
    "https://h/".toList kw
  have hclient : Intact .noFiles RustClient.plain := @new_intact .noFiles World.initial _ _ rfl
  exact ⟨hcall.mpr hagrees, hrequest hagrees _ rfl hclient _ _⟩

/-- `proxies={}` disables the system proxies for the stateless call only. -/
theorem paths_disagree : Blank Builtins.ascii cleared ∧ ∃ a a',
    sessionArgs Builtins.ascii cleared "get".toList "https://h/".toList (withProxies []) = .ok a ∧
    statelessArgs Builtins.ascii "get".toList "https://h/".toList (withProxies []) = .ok a' ∧
    a.noProxyAll = false ∧ a'.noProxyAll = true ∧ ¬SameCall (.ok a) (.ok a') := by
  refine ⟨cleared_blank, _, _, rfl, rfl, rfl, rfl, ?_⟩
  intro h
  have hflag : false = true := congrArg RustArgs.noProxyAll h
  contradiction

end Pyureq.PathAgreement
