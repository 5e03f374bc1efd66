import Pyureq.Threads.AgentPools

/-! The certificates that a client trusts. A CA bundle is read when an agent is built for it,
and the agent is kept; a build that fails is not. -/
namespace Pyureq.TrustAnchors
open Runs AgentPools

section Bundles

def itemError : Except Text PemItem → Option Text
  | .error e => some e
  | .ok _ => none

def itemCert : Except Text PemItem → Option Cert
  | .ok (.certificate c) => some c
  | _ => none

/-- The loop over the items stops at the first malformed one, and keeps the certificates. -/
theorem collectCerts_eq (path : Text) (items : List (Except Text PemItem)) :
    collectCerts path items =
      match items.findSome? itemError with
      | some e => .error ⟨.valueError, "Invalid CA bundle '".toList ++ path ++ "': ".toList ++ e⟩
      | none => .ok (items.filterMap itemCert) := by
  induction items with
  | nil => rfl
  | cons item items ih =>
    match item with
    | .error e => rfl
    | .ok (.privateKey der) => exact ih
    | .ok (.certificate c) =>
      simp only [collectCerts, ih, List.findSome?_cons, itemError]
      cases items.findSome? itemError <;> rfl

/-- The items of the bundle, when it can be read. -/
def bundleItems (env : TlsEnv) (path : Text) : Except Text (List (Except Text PemItem)) :=
  (env.read path).map env.parsePem

/-- A bundle from which a configuration is made: it can be read, no item of it is malformed,
and `certs` are its certificates, of which there is one at least. -/
structure Accepted (env : TlsEnv) (path : Text) (certs : List Cert) : Prop where
  items : ∃ items, bundleItems env path = .ok items ∧ (∀ i ∈ items, itemError i = none) ∧
    certs = items.filterMap itemCert
  nonempty : certs ≠ []

/-- Nothing but a `ValueError` that names the bundle is raised. -/
def Rejects (path : Text) (e : PyErr) : Prop := e.cls = .valueError ∧ path <:+: e.msg

theorem buildTlsConfig_bundle (env : TlsEnv) (path : Text) :
    (∃ certs, Accepted env path certs ∧
      buildTlsConfig env (.caBundle path) = .ok { rootCerts := .specific certs }) ∨
    ((∀ certs, ¬Accepted env path certs) ∧
      ∃ e, buildTlsConfig env (.caBundle path) = .error e ∧ Rejects path e) := by
  cases hread : env.read path with
  | error e =>
    refine Or.inr ⟨?_, _, by simp only [buildTlsConfig, hread]; rfl, rfl, ?_⟩
    · rintro certs ⟨⟨items, hitems, -⟩, -⟩
      simp [bundleItems, hread, Except.map] at hitems
    · exact ⟨_, "': ".toList ++ e, (List.append_assoc _ _ _).symm⟩
  | ok pem =>
    have hbundle : bundleItems env path = .ok (env.parsePem pem) := by
      simp [bundleItems, hread, Except.map]
    cases herror : (env.parsePem pem).findSome? itemError with
    | some e =>
      refine Or.inr ⟨?_, _, by simp only [buildTlsConfig, hread, collectCerts_eq, herror]; rfl,
        rfl, ?_⟩
      · rintro certs ⟨⟨items, hitems, hok, -⟩, -⟩
        obtain rfl := Except.ok.inj (hbundle.symm.trans hitems)
        rw [List.findSome?_eq_none_iff.mpr hok] at herror
        cases herror
      · exact ⟨_, "': ".toList ++ e, (List.append_assoc _ _ _).symm⟩
    | none =>
      cases hcerts : (env.parsePem pem).filterMap itemCert with
      | nil =>
        refine Or.inr ⟨?_, _,
          by simp only [buildTlsConfig, hread, collectCerts_eq, herror, hcerts]; rfl, rfl, ?_⟩
        · rintro certs ⟨⟨items, hitems, -, rfl⟩, hne⟩
          obtain rfl := Except.ok.inj (hbundle.symm.trans hitems)
          exact hne hcerts
        · exact ⟨_, "'".toList, rfl⟩
      | cons c certs =>
        refine Or.inl ⟨c :: certs, ⟨⟨_, hbundle, ?_, hcerts.symm⟩, by simp⟩, ?_⟩
        · exact List.findSome?_eq_none_iff.mp herror
        · simp only [buildTlsConfig, hread, collectCerts_eq, herror, hcerts]

end Bundles

/-- A CA bundle makes exactly its certificates trusted, in their order, and only if the file can
be read, nothing in it is malformed, and it has a certificate. Otherwise a `ValueError` that
names the bundle is raised. -/
theorem bundle_accepted_iff (env : TlsEnv) (path : Text) :
    (∀ tls, buildTlsConfig env (.caBundle path) = .ok tls ↔
      ∃ certs, Accepted env path certs ∧ tls = { rootCerts := .specific certs }) ∧
    ∀ e, buildTlsConfig env (.caBundle path) = .error e → Rejects path e := by
  have hunique : ∀ certs certs', Accepted env path certs → Accepted env path certs' →
      certs = certs' := by
    rintro _ _ ⟨⟨items, hitems, -, rfl⟩, -⟩ ⟨⟨items', hitems', -, rfl⟩, -⟩
    rw [Except.ok.inj (hitems.symm.trans hitems')]
  rcases buildTlsConfig_bundle env path with ⟨certs, haccepted, hok⟩ | ⟨hnot, e, herror, hrejects⟩
  · refine ⟨?_, fun e he => by rw [hok] at he; cases he⟩
    intro tls
    rw [hok, Except.ok.injEq]
    constructor
    · rintro rfl
      exact ⟨certs, haccepted, rfl⟩
    · rintro ⟨certs', haccepted', rfl⟩
      rw [hunique _ _ haccepted haccepted']
  · refine ⟨?_, ?_⟩
    · intro tls
      rw [herror]
      refine iff_of_false (fun h => nomatch h) ?_
      rintro ⟨certs, haccepted, -⟩
      exact hnot certs haccepted
    · intro e' he'
      rw [← Except.error.inj (herror.symm.trans he')]
      exact hrejects

section Attempts

/-- The surroundings of a selection for mode `m` in which an agent for `m` can be built. -/
def attempt (c : RustClient) (m : VerifyMode) : Action → Option TlsEnv
  | .select _ env verify =>
    match c.effectiveMode verify, buildTlsConfig env m with
    | .ok n, .ok tls => if n = m ∧ env.panics tls = false then some env else none
    | _, _ => none
  | _ => none

/-- Those of the first such selection. -/
def firstAttempt (c : RustClient) (m : VerifyMode) (actions : List Action) : Option TlsEnv :=
  actions.findSome? (attempt c m)

theorem firstAttempt_append (c : RustClient) (m : VerifyMode) (actions : List Action)
    (a : Action) :
    firstAttempt c m (actions ++ [a]) = (firstAttempt c m actions).or (attempt c m a) := by
  rw [firstAttempt, List.findSome?_append]
  simp [firstAttempt]

theorem attempt_other {c : RustClient} {m n : VerifyMode} {t : ℕ} {env : TlsEnv}
    {verify : Option PyVal} (hn : c.effectiveMode verify = .ok n) (hnm : n ≠ m) :
    attempt c m (.select t env verify) = none := by
  simp only [attempt, hn]
  cases buildTlsConfig env m with
  | error e => rfl
  | ok tls => exact if_neg fun h => hnm h.1

/-- A selection that builds an agent for `m` is an attempt, and one that fails to is none. -/
theorem attempt_eq {c : RustClient} {n : VerifyMode} {env : TlsEnv} {verify : Option PyVal}
    (hn : c.effectiveMode verify = .ok n) (m : VerifyMode) (t : ℕ) (w : World) :
    attempt c m (.select t env verify) =
      match buildAgent env n w with
      | .ok _ => if n = m then some env else none
      | .error _ => none := by
  have hiff := buildAgent_succeeds_iff env n w
  by_cases hnm : n = m
  · subst hnm
    simp only [attempt, hn]
    cases hbuild : buildAgent env n w with
    | ok r =>
      obtain ⟨tls, htls, hpanics⟩ := hiff.mp ⟨r, hbuild⟩
      simp only [htls, hpanics, and_self, if_true]
    | error e =>
      cases htls : buildTlsConfig env n with
      | error e => rfl
      | ok tls =>
        refine if_neg fun hpanics => ?_
        obtain ⟨r, hr⟩ := hiff.mpr ⟨tls, htls, hpanics.2⟩
        rw [hbuild] at hr
        cases hr
  · rw [attempt_other hn hnm]
    cases buildAgent env n w with
    | ok r => exact (if_neg hnm).symm
    | error e => rfl

/-- The agent for `m` trusts what `found` says; it is missing before anything is found, and
once the lock is poisoned. -/
structure Anchored (m : VerifyMode) (found : Option TlsEnv) (c : RustClient) : Prop where
  agent : ∀ a, c.table m = some a →
    ∃ env, found = some env ∧ buildTlsConfig env m = .ok a.config.tlsConfig
  missing : c.table m = none → found = none ∨ c.overrides.poisoned = true

theorem Anchored.keep {m : VerifyMode} {found : Option TlsEnv} {c : RustClient}
    (h : Anchored m found c) {o : Option TlsEnv}
    (ho : c.table m = none → o = none ∨ c.overrides.poisoned = true) :
    Anchored m (found.or o) c := by
  refine ⟨?_, ?_⟩
  · intro a ha
    obtain ⟨env, rfl, hbuild⟩ := h.agent a ha
    exact ⟨env, rfl, hbuild⟩
  · intro hnone
    rcases ho hnone with rfl | hp
    · rw [Option.or_none]
      exact h.missing hnone
    · exact Or.inr hp

/-- Storing the agent built for `n` anchors `n`, and leaves the other modes as they were. -/
theorem Anchored.insert {m n : VerifyMode} {found : Option TlsEnv} {c : RustClient}
    (h : Anchored m found c) (hlock : c.overrides.poisoned = false) (hmiss : c.table n = none)
    {env : TlsEnv} {a : Agent} (ha : buildTlsConfig env n = .ok a.config.tlsConfig) :
    Anchored m (found.or (if n = m then some env else none))
      { c with overrides := ⟨c.overrides.data.insert n a, false⟩ } := by
  have hfound : c.table m = none → found = none := fun hnone =>
    (h.missing hnone).resolve_right (by simp [hlock])
  by_cases hnm : n = m
  · subst hnm
    have hself := RustClient.table_insert hmiss a false n
    rw [if_pos rfl] at hself ⊢
    rw [hfound hmiss, Option.none_or]
    constructor
    · intro b hb
      obtain rfl := Option.some.inj (hself.symm.trans hb)
      exact ⟨env, rfl, ha⟩
    · intro hnone
      cases hself.symm.trans hnone
  · have hsame := RustClient.table_insert hmiss a false m
    rw [if_neg fun hmn => hnm hmn.symm] at hsame
    rw [if_neg hnm, Option.or_none]
    exact ⟨fun b hb => h.agent b (hsame.symm.trans hb),
      fun hnone => Or.inl (hfound (hsame.symm.trans hnone))⟩

/-- A selection for another mode than the client's own. -/
theorem Anchored.select {m : VerifyMode} {found : Option TlsEnv} {c : RustClient}
    (h : Anchored m found c) (hm : m ≠ c.verify) (t : ℕ) (env : TlsEnv) (verify : Option PyVal)
    (w : World) :
    Anchored m (found.or (attempt c m (.select t env verify)))
      (c.selectAgent env verify w).client := by
  cases hmode : c.effectiveMode verify with
  | error e =>
    have hnone : attempt c m (.select t env verify) = none := by simp [attempt, hmode]
    rw [hnone, Option.or_none, RustClient.selectAgent_mistyped hmode]
    exact h
  | ok n =>
    by_cases hown : n = c.verify
    · rw [hown] at hmode
      rw [attempt_other hmode hm.symm, Option.or_none, RustClient.selectAgent_own hmode]
      exact h
    cases hlock : c.overrides.poisoned with
    | true =>
      rw [RustClient.selectAgent_poisoned hmode hown hlock]
      exact h.keep fun _ => Or.inr hlock
    | false =>
      have htable : c.table n = c.overrides.data.get? n := if_neg hown
      rw [RustClient.selectAgent_override hmode hown hlock]
      cases hget : c.overrides.data.get? n with
      | some a =>
        refine h.keep fun hnone => Or.inl (attempt_other hmode ?_)
        rintro rfl
        rw [htable, hget] at hnone
        cases hnone
      | none =>
        have hmiss := htable.trans hget
        rw [attempt_eq hmode m t w]
        cases hbuild : buildAgent env n w with
        | error e =>
          refine ⟨?_, ?_⟩
          · intro a ha
            obtain ⟨env', hf, htls⟩ := h.agent a ha
            exact ⟨env', by rw [hf, Option.some_or], htls⟩
          · intro hnone
            have hf := (h.missing hnone).resolve_right (by simp [hlock])
            rw [hf]
            exact Or.inl rfl
        | ok r => exact h.insert hlock hmiss (buildAgent_ok hbuild).2.1

/-- Only selections change the client, and only they are attempts. -/
theorem step_client {s u : State} {a : Action} (h : step s a = some u) :
    (∃ t env verify, a = .select t env verify ∧
      u.client = (s.client.selectAgent env verify s.world).client) ∨
    (u.client = s.client ∧ ∀ c m, attempt c m a = none) := by
  cases a <;> simp only [step] at h
  case select t env verify =>
    split at h <;> cases h
    exact Or.inl ⟨t, env, verify, rfl, rfl⟩
  all_goals repeat' split at h
  all_goals first | contradiction | (cases h; exact Or.inr ⟨rfl, fun _ _ => rfl⟩)

theorem attempt_congr {c d : RustClient} (h : d.verify = c.verify) (m : VerifyMode) (a : Action) :
    attempt d m a = attempt c m a := by
  cases a <;> simp only [attempt]
  rw [effectiveMode_congr h]

theorem step_anchored {c : RustClient} {m : VerifyMode} (hm : m ≠ c.verify)
    {actions : List Action} {s u : State} {a : Action}
    (h : s.client.verify = c.verify ∧ Anchored m (firstAttempt c m actions) s.client)
    (hs : step s a = some u) :
    u.client.verify = c.verify ∧ Anchored m (firstAttempt c m (actions ++ [a])) u.client := by
  refine ⟨(step_verify hs).trans h.1, ?_⟩
  rw [firstAttempt_append]
  rcases step_client hs with ⟨t, env, verify, rfl, hclient⟩ | ⟨hclient, hnone⟩
  · have hsel := h.2.select (h.1 ▸ hm) t env verify s.world
    rwa [attempt_congr h.1, ← hclient] at hsel
  · rw [hclient, hnone, Option.or_none]
    exact h.2

/-- A new client has built an agent for its own mode only. -/
theorem new_anchors {env : TlsEnv} {verify : Option PyVal} {timeout : Option PyFloat}
    {noProxyAll : Bool} {w w' : World} {c : RustClient}
    (h : RustClient.new env verify timeout noProxyAll w = .ok (c, w')) :
    buildTlsConfig env c.verify = .ok c.agent.config.tlsConfig ∧
      ∀ m, m ≠ c.verify → c.table m = none := by
  obtain ⟨m, -, h⟩ := bind_eq_ok.mp h
  obtain ⟨⟨a, w₁⟩, hbuild, h⟩ := bind_eq_ok.mp h
  obtain ⟨rfl, -⟩ := Prod.mk.inj (Except.ok.inj h)
  exact ⟨(buildAgent_ok hbuild).2.1, fun n hn => (if_neg hn).trans (OrderedMap.get?_empty n)⟩

theorem step_agent {s u : State} {a : Action} (h : step s a = some u) :
    u.client.agent = s.client.agent := by
  rcases step_client h with ⟨t, env, verify, -, hclient⟩ | ⟨hclient, -⟩ <;> rw [hclient]
  rcases RustClient.selectAgent_cases env verify s.client s.world with
    ⟨e, p, hr⟩ | ⟨m, a, -, -, hr⟩ | ⟨m, a, w', -, -, -, hr⟩ <;> rw [hr]

theorem run_agent {s u : State} {actions : List Action} (h : run step s actions = some u) :
    u.client.agent = s.client.agent := by
  have htrans : ∀ s t u : State, t.client.agent = s.client.agent →
      u.client.agent = t.client.agent → u.client.agent = s.client.agent :=
    fun _ _ _ hst htu => htu.trans hst
  exact run_relates (R := fun s u => u.client.agent = s.client.agent) (fun _ => rfl) htrans
    (fun _ _ _ => step_agent) h

end Attempts

/-- Over every schedule of requests on one client, while files come, go and change: what a
request trusts was read once. For the client's own mode that was when the client was made, and
for another mode when it was first asked for and an agent could be built. Attempts that failed
before leave no trace, and nothing is read again later. -/
theorem anchors_read_once {env₀ : TlsEnv} {verify : Option PyVal} {timeout : Option PyFloat}
    {noProxyAll : Bool} {w₀ w : World} {c : RustClient}
    (hnew : RustClient.new env₀ verify timeout noProxyAll w₀ = .ok (c, w))
    {actions : List Action} {s : State} (hrun : run step (start c w) actions = some s)
    {v : Option PyVal} {a : Agent} (hv : (v, .ok a) ∈ s.requests) :
    ∃ m env, c.effectiveMode v = .ok m ∧ buildTlsConfig env m = .ok a.config.tlsConfig ∧
      (if m = c.verify then env = env₀ else firstAttempt c m actions = some env) := by
  obtain ⟨hown, hother⟩ := new_anchors hnew
  have hinv := run_inv (RustClient.new_owns hnew).1 hrun
  obtain ⟨m, hm, ht⟩ := hinv.requests v a hv
  rw [effectiveMode_congr (run_verify hrun)] at hm
  by_cases hmode : m = c.verify
  · rw [RustClient.table, if_pos (hmode.trans (run_verify hrun).symm), run_agent hrun] at ht
    obtain rfl := Option.some.inj ht
    exact ⟨m, env₀, hm, hmode ▸ hown, by rw [if_pos hmode]⟩
  · have hstart : (start c w).client.verify = c.verify ∧
        Anchored m (firstAttempt c m []) (start c w).client := by
      refine ⟨rfl, ?_, fun _ => Or.inl rfl⟩
      intro a ha
      cases (hother m hmode).symm.trans ha
    have hstep : ∀ as s a t, s.client.verify = c.verify ∧
        Anchored m (firstAttempt c m as) s.client → step s a = some t →
          t.client.verify = c.verify ∧ Anchored m (firstAttempt c m (as ++ [a])) t.client :=
      fun _ _ _ _ => step_anchored hmode
    obtain ⟨-, hanchored⟩ := run_invariant_history hstep hstart hrun
    obtain ⟨env, hfirst, hbuild⟩ := hanchored.agent a ht
    exact ⟨m, env, hm, hbuild, by rw [if_neg hmode]; exact hfirst⟩

/-- Every file is a bundle of the one certificate `c`. -/
def oneCert (c : Cert) : TlsEnv where
  read _ := .ok []
  parsePem _ := [.ok (.privateKey []), .ok (.certificate c)]
  panics _ := false

/-- The bundle is missing, then there, then another one. -/
def replaced : List Action :=
  let ask (t : ℕ) (env : TlsEnv) : Action := .select t env (some (.str "/ca.pem".toList))
  [ask 0 .noFiles, ask 1 (oneCert [1]), ask 2 (oneCert [2])]

theorem anchors_read_once_replaced : ∃ c w s a,
    RustClient.new .noFiles none none false World.initial = .ok (c, w) ∧
    run step (start c w) replaced = some s ∧
    (some (.str "/ca.pem".toList), .ok a) ∈ s.requests ∧
    a.config.tlsConfig = { rootCerts := .specific [[1]] } ∧
    ∃ m env, c.effectiveMode (some (.str "/ca.pem".toList)) = .ok m ∧
      buildTlsConfig env m = .ok a.config.tlsConfig ∧
      (if m = c.verify then env = .noFiles else firstAttempt c m replaced = some env) :=
  ⟨_, _, _, _, rfl, rfl, List.mem_cons_self, rfl,
    @anchors_read_once .noFiles none none false World.initial _ _ rfl replaced _ rfl _ _
      List.mem_cons_self⟩

end Pyureq.TrustAnchors
