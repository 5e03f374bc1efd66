import Pyureq.Sessions.KeepAlive

/-! Requests leave no trace in a session. What a request comes to is determined by the assignments
before it; the requests before it matter only for the connections that are open, or when the
construction of an agent panicked. -/
namespace Pyureq.NoTrace
open Runs Lifetime Sending PathAgreement
open KeepAlive (pick callMode verifyOf)

variable {b : Builtins} {p : Platform} {env : TlsEnv}

/-- An action on the session itself, that is, no request through it or elsewhere. -/
def isAssignment {lower : Text → Text} : Action lower → Bool
  | .set _ | .setVerify .. | .close => true
  | .request .. | .elsewhere .. => false

/-- What the construction of a client settles for its life. -/
structure SameSettings (c d : RustClient) : Prop where
  verify : c.verify = d.verify
  timeout : c.defaultTimeout = d.defaultTimeout
  noProxyAll : c.defaultNoProxyAll = d.defaultNoProxyAll

/-- The sessions differ in their clients at most, and those have the same settings. -/
structure Alike (s t : Session b.lower) : Prop where
  attributes : s.close = t.close
  clients : Option.Rel SameSettings s.client t.client

/-- `agent.run` is called with the same request and configuration, on agents related by `A`. -/
structure SameUse (A : Agent → Agent → Prop) (h g : Handover) : Prop where
  req : h.req = g.req
  cfg : h.cfg = g.cfg
  agent : A h.agent g.agent

/-- Both verify, or both do not. -/
def VerifyAlike (a a' : Agent) : Prop :=
  a.config.tlsConfig.disableVerification = a'.config.tlsConfig.disableVerification

def ConfiguredAlike (a a' : Agent) : Prop := a.config = a'.config

/-- The construction of an agent panicked, or the conversion of the timeout. -/
def Panicked (x : Exchange b.lower) : Prop := ∃ msg, x.answer = .error ⟨.panicException, msg⟩

/-- The files that the action meets are those of `env`. -/
def Meets (env : TlsEnv) {lower : Text → Text} : Action lower → Prop
  | .setVerify env' _ | .request _ env' _ _ _ => env' = env
  | _ => True

section Calls

/-- The arguments for Rust are made from the attributes. -/
theorem sessionArgs_alike {s t : Session b.lower} (h : s.close = t.close) (method url : Text)
    (kw : Kwargs b.lower) : sessionArgs b s method url kw = sessionArgs b t method url kw := by
  have hclose : ∀ s : Session b.lower,
      sessionArgs b s method url kw = sessionArgs b s.close method url kw := fun _ => rfl
  rw [hclose s, h, ← hclose t]

theorem executeArgs_alike {c d : Option RustClient} (h : Option.Rel SameSettings c d)
    (given : CallArgs) : executeArgs c given = executeArgs d given := by
  cases h with
  | none => rfl
  | some h => simp only [executeArgs, RustClient.effective, h.timeout, h.noProxyAll]

theorem callMode_alike {c d : Option RustClient} (h : Option.Rel SameSettings c d)
    (verify : PyVal) : callMode c verify = callMode d verify := by
  cases h with
  | none => rfl
  | some h => cases hv : pyOption verify <;> simp [callMode, RustClient.effectiveMode, hv, h.verify]

/-- Whatever client serves a call, its mode decides whether the agent verifies. -/
theorem pick_mode {client : Option RustClient} {w : World} {verify : PyVal} {a : Agent}
    (howns : ∀ c, client = some c → c.Owns w) (h : (pick env client w verify).agent = .ok a) :
    ∃ m, callMode client verify = .ok m ∧
      (a.config.tlsConfig.disableVerification = true ↔ m = .none) := by
  cases client with
  | none =>
    simp only [pick] at h
    split at h
    next a' w' hone =>
      obtain rfl := Except.ok.inj h
      obtain ⟨m, hm, hbuild⟩ := bind_eq_ok.mp hone
      exact ⟨m, hm, buildTlsConfig_disables (buildAgent_ok hbuild).2.1⟩
    next => cases h
  | some c =>
    have spec := RustClient.selectAgent_spec (howns c rfl) env (pyOption verify)
    obtain ⟨m, hm, ht⟩ := spec.serves a h
    exact ⟨m, hm, World.honest _ _ (spec.owns m a ht)⟩

theorem handover_config {client : Option RustClient} {w : World} {args : RustArgs} {h : Handover}
    (hh : handover p env client w args = .ok h) : ∃ given, extractArgs args = .ok given ∧
      requestConfig p (executeArgs client given) = .ok h.cfg := by
  obtain ⟨r, hr, hh⟩ := bind_eq_ok.mp hh
  obtain ⟨cfg, hcfg, hh⟩ := bind_eq_ok.mp hh
  obtain rfl := Except.ok.inj hh
  obtain ⟨given, hgiven, hr⟩ := bind_eq_ok.mp hr
  obtain ⟨agent, -, hr⟩ := bind_eq_ok.mp hr
  refine ⟨given, hgiven, ?_⟩
  split at hr
  · cases hr
  · obtain rfl := Except.ok.inj hr
    exact hcfg

/-- Alike sessions make the same request, in whatever surroundings, if both get to make it. -/
theorem handed_alike {s t : Session b.lower} {w w' : World} {method url : Text}
    {kw : Kwargs b.lower} {h g : Handover} (hst : Alike s t)
    (hs : ∀ c, s.client = some c → c.Owns w) (ht : ∀ c, t.client = some c → c.Owns w')
    (hh : handed b p env (some s) w method url kw = .ok h)
    (hg : handed b p env (some t) w' method url kw = .ok g) : SameUse VerifyAlike h g := by
  obtain ⟨args, hargs, hh⟩ := bind_eq_ok.mp hh
  obtain ⟨args', hargs', hg⟩ := bind_eq_ok.mp hg
  obtain rfl : args = args' := by
    rw [pathArgs, sessionArgs_alike hst.attributes] at hargs
    exact Except.ok.inj (hargs.symm.trans hargs')
  refine ⟨(handover_request hh).trans (handover_request hg).symm, ?_, ?_⟩
  · obtain ⟨given, hgiven, hcfg⟩ := handover_config hh
    obtain ⟨given', hgiven', hcfg'⟩ := handover_config hg
    obtain rfl := Except.ok.inj (hgiven.symm.trans hgiven')
    have hexec := executeArgs_alike hst.clients given
    change executeArgs ((some s).bind Session.client) given =
      executeArgs ((some t).bind Session.client) given at hexec
    rw [hexec] at hcfg
    exact Except.ok.inj (hcfg.symm.trans hcfg')
  · obtain ⟨-, -, hagent⟩ := KeepAlive.handover_agent hh
    obtain ⟨-, -, hagent'⟩ := KeepAlive.handover_agent hg
    obtain ⟨m, hm, hmode⟩ := pick_mode hs hagent
    obtain ⟨m', hm', hmode'⟩ := pick_mode ht hagent'
    have hmodes := callMode_alike hst.clients args.verify
    obtain rfl := Except.ok.inj ((hm.symm.trans hmodes).trans hm')
    exact Bool.eq_iff_iff.mpr (hmode.trans hmode'.symm)

end Calls

section Steady

/-- The configuration that `build_agent` makes for a mode. -/
def agentConfig (env : TlsEnv) (m : VerifyMode) : Except PyErr AgentConfig :=
  (buildAgent env m World.initial).map fun r => r.1.config

/-- Every agent of the client is what would be built for its mode now. -/
def Filed (env : TlsEnv) (c : RustClient) : Prop :=
  ∀ m a, c.table m = some a → agentConfig env m = .ok a.config

theorem buildAgent_agentConfig (env : TlsEnv) (m : VerifyMode) (w : World) :
    (buildAgent env m w).map (fun r => r.1.config) = agentConfig env m :=
  buildAgent_config env m w World.initial

/-- What a cached agent is configured like does not depend on when it was built. -/
theorem selectAgent_config {c : RustClient} (hfiled : Filed env c)
    (hlock : c.overrides.poisoned = false) (verify : Option PyVal) (w : World) :
    (c.selectAgent env verify w).result.map Agent.config =
      (c.effectiveMode verify).bind (agentConfig env) := by
  cases hmode : c.effectiveMode verify with
  | error e =>
    rw [RustClient.selectAgent_mistyped hmode]
    rfl
  | ok m =>
    rw [Except.bind]
    by_cases hm : m = c.verify
    · subst hm
      rw [RustClient.selectAgent_own hmode]
      exact (hfiled _ _ (if_pos rfl)).symm
    · rw [RustClient.selectAgent_override hmode hm hlock]
      cases hget : c.overrides.data.get? m with
      | some a => exact (hfiled m a ((if_neg hm).trans hget)).symm
      | none =>
        rw [← buildAgent_agentConfig env m w]
        cases buildAgent env m w <;> rfl

theorem pick_config {client : Option RustClient} (hfiled : ∀ c, client = some c → Filed env c)
    (hlock : ∀ c, client = some c → c.overrides.poisoned = false) (w : World) (verify : PyVal) :
    (pick env client w verify).agent.map Agent.config =
      (callMode client verify).bind (agentConfig env) := by
  cases client with
  | some c => exact selectAgent_config (hfiled c rfl) (hlock c rfl) (pyOption verify) w
  | none =>
    simp only [pick, callMode, oneShotAgent]
    cases VerifyMode.orSystem (pyOption verify) with
    | error e => rfl
    | ok m =>
      simp only [bind, Except.bind]
      rw [← buildAgent_agentConfig env m w]
      cases buildAgent env m w <;> rfl

/-- Before `agent.run` a call depends on its client through the defaults that this fills in, and
the choice of the agent. -/
theorem handover_alike {A : Agent → Agent → Prop} {c d : Option RustClient} {w w' : World}
    {args : RustArgs} (hexec : ∀ given, executeArgs c given = executeArgs d given)
    (hagent : ExceptRel Eq A (pick env c w args.verify).agent (pick env d w' args.verify).agent) :
    ExceptRel Eq (SameUse A) (handover p env c w args) (handover p env d w' args) := by
  unfold handover reach
  rw [KeepAlive.pickAgent_eq, KeepAlive.pickAgent_eq]
  generalize (pick env c w args.verify).agent = x at hagent ⊢
  generalize (pick env d w' args.verify).agent = y at hagent ⊢
  cases extractArgs args with
  | error e => exact ExceptRel.error rfl
  | ok given =>
    simp only [bind, Except.bind]
    rw [hexec given]
    cases hagent with
    | error he => exact ExceptRel.error he
    | ok ha =>
      cases p.checkRequest (request p (executeArgs d given)) with
      | error e => exact ExceptRel.error rfl
      | ok u =>
        cases hcfg : requestConfig p (executeArgs d given) with
        | error e =>
          simp only [hcfg]
          exact ExceptRel.error rfl
        | ok cfg =>
          simp only [hcfg]
          exact ExceptRel.ok ⟨rfl, rfl, ha⟩

theorem handed_steady {s t : Session b.lower} {w w' : World} (hst : Alike s t)
    (hs : ∀ c, s.client = some c → Filed env c ∧ c.overrides.poisoned = false)
    (ht : ∀ c, t.client = some c → Filed env c ∧ c.overrides.poisoned = false)
    (method url : Text) (kw : Kwargs b.lower) :
    ExceptRel Eq (SameUse ConfiguredAlike) (handed b p env (some s) w method url kw)
      (handed b p env (some t) w' method url kw) := by
  rw [handed, handed, pathArgs, pathArgs, sessionArgs_alike hst.attributes]
  cases sessionArgs b t method url kw with
  | error e => exact ExceptRel.error rfl
  | ok args =>
    refine handover_alike (executeArgs_alike hst.clients) (exceptRel_of_map ?_)
    rw [Option.bind_some, Option.bind_some, pick_config (fun c hc => (hs c hc).1)
      (fun c hc => (hs c hc).2), pick_config (fun c hc => (ht c hc).1) (fun c hc => (ht c hc).2),
      callMode_alike hst.clients]

end Steady

section Clients

/-- What `RustClient::new` makes. -/
theorem new_settings {v : Option PyVal} {timeout : Option PyFloat} {noProxyAll : Bool}
    {w w' : World} {c : RustClient}
    (h : RustClient.new env v timeout noProxyAll w = .ok (c, w')) :
    VerifyMode.orSystem v = .ok c.verify ∧ c.defaultTimeout = timeout ∧
      c.defaultNoProxyAll = noProxyAll ∧ c.overrides = ⟨OrderedMap.empty, false⟩ ∧
      buildAgent env c.verify w = .ok (c.agent, w') := by
  obtain ⟨m, hm, h⟩ := bind_eq_ok.mp h
  obtain ⟨⟨a, u⟩, hbuild, h⟩ := bind_eq_ok.mp h
  obtain ⟨rfl, rfl⟩ := Prod.mk.inj (Except.ok.inj h)
  exact ⟨hm, rfl, rfl, rfl, hbuild⟩

theorem new_filed {v : Option PyVal} {timeout : Option PyFloat} {noProxyAll : Bool}
    {w w' : World} {c : RustClient}
    (h : RustClient.new env v timeout noProxyAll w = .ok (c, w')) :
    Filed env c ∧ c.overrides.poisoned = false := by
  obtain ⟨-, -, -, hempty, hbuild⟩ := new_settings h
  refine ⟨?_, by rw [hempty]⟩
  intro m a hm
  rw [RustClient.table, hempty, OrderedMap.get?_empty, Option.ite_none_right_eq_some] at hm
  obtain ⟨rfl, ha⟩ := hm
  rw [← Option.some.inj ha, ← buildAgent_agentConfig env c.verify w, hbuild]
  rfl

/-- Assigning one value to `verify` keeps sessions alike: what has been built before has no
influence on the construction. -/
theorem setVerify_alike {s t : Session b.lower} (h : Alike s t) (env : TlsEnv) (w w' : World)
    (v : PyVal) : Alike (s.setVerify env w v).session (t.setVerify env w' v).session := by
  have hattributes : { s.close with verify := v } = { t.close with verify := v } := by
    rw [h.attributes]
  rcases VerifySetter.new_cases env v w with ⟨hv, c, u, hnew, -⟩ | ⟨hv, e, hnew⟩
  · rcases VerifySetter.new_cases env v w' with ⟨-, d, u', hnew', -⟩ | ⟨hv', -⟩
    · simp only [Session.setVerify, hnew, hnew']
      obtain ⟨hc, hct, hcp, -⟩ := new_settings hnew
      obtain ⟨hd, hdt, hdp, -⟩ := new_settings hnew'
      have hcd : c.verify = d.verify := Except.ok.inj (hc.symm.trans hd)
      exact ⟨hattributes, Option.Rel.some ⟨hcd, hct.trans hdt.symm, hcp.trans hdp.symm⟩⟩
    · exact absurd hv hv'
  · rcases VerifySetter.new_cases env v w' with ⟨hv', -⟩ | ⟨-, e', hnew'⟩
    · exact absurd hv' hv
    · simp only [Session.setVerify, hnew, hnew']
      exact ⟨hattributes, h.clients⟩

/-- A selection keeps the settings of the client. -/
theorem selectAgent_settings (c : RustClient) (verify : Option PyVal) (w : World) :
    SameSettings (c.selectAgent env verify w).client c := by
  rcases RustClient.selectAgent_cases env verify c w with
    ⟨e, p, hr⟩ | ⟨m, a, -, -, hr⟩ | ⟨m, a, w', -, -, -, hr⟩ <;> rw [hr] <;> exact ⟨rfl, rfl, rfl⟩

theorem selectAgent_filed {c : RustClient} (h : Filed env c) (verify : Option PyVal) (w : World) :
    Filed env (c.selectAgent env verify w).client := by
  rcases RustClient.selectAgent_cases env verify c w with
    ⟨e, p, hr⟩ | ⟨m, a, -, -, hr⟩ | ⟨m, a, w', -, ht, hb, hr⟩ <;> rw [hr]
  · exact h
  · exact h
  · intro n a' hn
    rw [RustClient.table_insert ht] at hn
    split at hn
    next hnm =>
      obtain rfl := Option.some.inj hn
      rw [hnm, ← buildAgent_agentConfig env m w, hb]
      rfl
    next => exact h n a' hn

/-- Only a panic poisons the lock. -/
theorem selectAgent_poisons {c : RustClient} {verify : Option PyVal} {w : World}
    (hc : c.overrides.poisoned = false)
    (h : (c.selectAgent env verify w).client.overrides.poisoned = true) :
    ∃ msg, (c.selectAgent env verify w).result = .error ⟨.panicException, msg⟩ := by
  have hsame : (c.selectAgent env verify w).client ≠ c := by
    intro hsame
    rw [hsame, hc] at h
    cases h
  cases hmode : c.effectiveMode verify with
  | error e => exact absurd (by rw [RustClient.selectAgent_mistyped hmode]) hsame
  | ok m =>
    by_cases hm : m = c.verify
    · subst hm
      exact absurd (by rw [RustClient.selectAgent_own hmode]) hsame
    · have hselect := @RustClient.selectAgent_override env verify c w m hmode hm hc
      cases hget : c.overrides.data.get? m with
      | some a => exact absurd (by rw [hselect, hget]) hsame
      | none =>
        rw [hselect, hget] at h ⊢
        cases hb : buildAgent env m w with
        | ok r => simp [hb] at h
        | error e =>
          simp only [hb, decide_eq_true_eq] at h ⊢
          exact ⟨e.msg, by rw [← h]⟩

/-- A request that does not get to the choice of an agent leaves client and world as they were.
One that does leaves what the choice leaves, and raises what the choice raises. -/
theorem request_cases (s : Session b.lower) (w : World) (method url : Text) (kw : Kwargs b.lower) :
    let out := s.request b p env w method url kw
    let r := pick env s.client w (verifyOf (some s) kw)
    (out.client = s.client ∧ out.world = w) ∨
    (out.client = r.client ∧ out.world = r.world ∧
      ∀ e, r.agent = .error e → out.result = .error (exceptChain e)) := by
  have hleaves := @KeepAlive.send_leaves b p env (some s) w method url kw
  dsimp only at hleaves ⊢
  rw [request_result]
  cases hargs : sessionArgs b s method url kw with
  | error e =>
    rw [pathArgs, hargs] at hleaves
    exact Or.inl hleaves
  | ok args =>
    have hverify := @KeepAlive.pathArgs_verify b (some s) method url kw args hargs
    rw [pathArgs, hargs] at hleaves
    rw [← hverify]
    cases hgiven : extractArgs args with
    | error e =>
      have hstops := @KeepAlive.callRust_stops p env s.client w args e hgiven
      exact Or.inl ⟨hleaves.1.trans hstops.1, hleaves.2.trans hstops.2⟩
    | ok given =>
      have hchoice := @KeepAlive.callRust_leaves p env s.client w args given hgiven
      refine Or.inr ⟨hleaves.1.trans hchoice.1, hleaves.2.trans hchoice.2, ?_⟩
      intro e he
      have hfails : handover p env s.client w args = .error e := by
        simp only [handover, reach, hgiven, KeepAlive.pickAgent_eq, he, bind, Except.bind]
      rw [Except.bind, callRust_eq, hfails]
      rfl

end Clients

section Steps

/-- The client's agents were built for the modes they serve. -/
def Owned (s : State b.lower) : Prop := ∀ c, s.session.client = some c → c.Owns s.world

/-- The client's agents are what would be built now, and its lock works unless a request
panicked. -/
def Steady (env : TlsEnv) (s : State b.lower) : Prop :=
  ∀ c, s.session.client = some c → Filed env c ∧
    (c.overrides.poisoned = true → ∃ x ∈ s.log, Panicked x)

/-- Where a session has its client from after a step: it is the old one, a new one, or what a
selection leaves of the old one. An exception of the selection ends the request. -/
theorem step_client {s t : State b.lower} {a : Action b.lower} {c : RustClient}
    (hs : step s a = some t) (hc : t.session.client = some c) :
    (s.session.client = some c ∧ ∀ e ∈ s.world.builds, e ∈ t.world.builds) ∨
    (∃ env v, (∀ env', Meets env' a → env = env') ∧
      RustClient.new env (pyOption v) none false s.world = .ok (c, t.world)) ∨
    ∃ env v d, (∀ env', Meets env' a → env = env') ∧ s.session.client = some d ∧
      c = (d.selectAgent env v s.world).client ∧ t.world = (d.selectAgent env v s.world).world ∧
      ∀ e, (d.selectAgent env v s.world).result = .error e →
        ∃ x ∈ t.log, x.answer = .error (exceptChain e) := by
  cases a with
  | set a =>
    obtain rfl := Option.some.inj hs
    refine Or.inl ⟨?_, fun _ => id⟩
    cases a <;> exact hc
  | setVerify env v =>
    obtain rfl := Option.some.inj hs
    simp only [Session.setVerify] at hc ⊢
    cases hnew : RustClient.new env (pyOption v) none false s.world with
    | error e =>
      rw [hnew] at hc
      exact Or.inl ⟨hc, fun _ => id⟩
    | ok r =>
      rw [hnew] at hc
      obtain rfl := Option.some.inj hc
      exact Or.inr (Or.inl ⟨env, v, fun _ h => h, hnew⟩)
  | close =>
    obtain rfl := Option.some.inj hs
    cases hc
  | request p env method url kw =>
    obtain rfl := Option.some.inj hs
    rcases @request_cases b p env s.session s.world method url kw with
      ⟨hclient, hworld⟩ | ⟨hclient, hworld, hraises⟩
    · refine Or.inl ⟨hclient.symm.trans hc, ?_⟩
      simp only [hworld]
      exact fun _ => id
    · have hpick := hclient.symm.trans hc
      cases hown : s.session.client with
      | none =>
        rw [hown, pick] at hpick
        split at hpick <;> cases hpick
      | some d =>
        rw [hown] at hpick hworld hraises
        obtain rfl := Option.some.inj hpick
        exact Or.inr (Or.inr ⟨env, _, d, fun _ h => h, rfl, rfl, hworld,
          fun e he => ⟨_, List.mem_cons_self, hraises e he⟩⟩)
  | elsewhere env mode =>
    rw [step] at hs
    split at hs <;> obtain rfl := Option.some.inj hs
    next a w hbuild =>
      refine Or.inl ⟨hc, ?_⟩
      rw [(buildAgent_ok hbuild).1]
      exact fun _ he => List.mem_cons_of_mem _ he
    next => exact Or.inl ⟨hc, fun _ => id⟩

/-- No client of a session has defaults of its own. -/
def Unset (s : State b.lower) : Prop :=
  ∀ c, s.session.client = some c → c.defaultTimeout = none ∧ c.defaultNoProxyAll = false

theorem step_unset {s t : State b.lower} {a : Action b.lower} (h : Unset s)
    (hs : step s a = some t) : Unset t := by
  intro c hc
  rcases step_client hs hc with ⟨hold, -⟩ | ⟨env, v, -, hnew⟩ | ⟨env, v, d, -, hd, rfl, -⟩
  · exact h c hold
  · obtain ⟨-, htimeout, hproxy, -⟩ := new_settings hnew
    exact ⟨htimeout, hproxy⟩
  · have hkept := @selectAgent_settings env d v s.world
    exact ⟨hkept.timeout.trans (h d hd).1, hkept.noProxyAll.trans (h d hd).2⟩

theorem run_unset {env₀ : TlsEnv} {w₀ w : World} {c : RustClient}
    (hnew : RustClient.new env₀ (some (.bool true)) none false w₀ = .ok (c, w))
    {actions : List (Action b.lower)} {s : State b.lower}
    (hrun : run step (start b.lower c w) actions = some s) : Unset s := by
  refine run_invariant (fun _ _ _ => step_unset) ?_ hrun
  intro d hd
  obtain rfl := Option.some.inj hd
  obtain ⟨-, htimeout, hproxy, -⟩ := new_settings hnew
  exact ⟨htimeout, hproxy⟩

theorem step_log {s t : State b.lower} {a : Action b.lower} (hs : step s a = some t) :
    ∀ x ∈ s.log, x ∈ t.log := by
  cases a with
  | request p env method url kw =>
    obtain rfl := Option.some.inj hs
    exact fun _ hx => List.mem_cons_of_mem _ hx
  | elsewhere env mode =>
    obtain ⟨w, rfl⟩ := step_elsewhere hs
    exact fun _ => id
  | set | setVerify | close =>
    obtain rfl := Option.some.inj hs
    exact fun _ => id

theorem step_owned {s t : State b.lower} {a : Action b.lower} (h : Owned s)
    (hs : step s a = some t) : Owned t := by
  intro c hc
  rcases step_client hs hc with
    ⟨hold, hgrow⟩ | ⟨env, v, -, hnew⟩ | ⟨env, v, d, -, hd, rfl, hworld, -⟩
  · exact fun m a hm => hgrow _ (h c hold m a hm)
  · exact (RustClient.new_owns hnew).1
  · rw [hworld]
    exact (RustClient.selectAgent_spec (h d hd) env v).owns

theorem step_steady {s t : State b.lower} {a : Action b.lower} (h : Steady env s)
    (ha : Meets env a) (hs : step s a = some t) : Steady env t := by
  have hlog : (∃ x ∈ s.log, Panicked x) → ∃ x ∈ t.log, Panicked x :=
    fun ⟨x, hx, hp⟩ => ⟨x, step_log hs x hx, hp⟩
  intro c hc
  rcases step_client hs hc with
    ⟨hold, -⟩ | ⟨env', v, hmeets, hnew⟩ | ⟨env', v, d, hmeets, hd, rfl, -, hraises⟩
  · obtain ⟨hfiled, hlock⟩ := h c hold
    exact ⟨hfiled, fun hp => hlog (hlock hp)⟩
  · obtain rfl := hmeets env ha
    obtain ⟨hfiled, hlock⟩ := new_filed hnew
    exact ⟨hfiled, fun hp => by simp [hlock] at hp⟩
  · obtain rfl := hmeets env ha
    obtain ⟨hfiled, hlock⟩ := h d hd
    refine ⟨selectAgent_filed hfiled _ _, ?_⟩
    intro hp
    cases hpoisoned : d.overrides.poisoned with
    | true => exact hlog (hlock hpoisoned)
    | false =>
      obtain ⟨msg, hmsg⟩ := selectAgent_poisons hpoisoned hp
      obtain ⟨x, hx, hanswer⟩ := hraises _ hmsg
      exact ⟨x, hx, msg, hanswer⟩

/-- Both sessions take an assignment alike. -/
theorem step_assignment {s t s' : State b.lower} {a : Action b.lower}
    (h : Alike s.session t.session ∧ t.log = []) (ha : isAssignment a = true)
    (hs : step s a = some s') :
    ∃ t', step t a = some t' ∧ Alike s'.session t'.session ∧ t'.log = [] := by
  obtain ⟨hst, hlog⟩ := h
  cases a with
  | set a =>
    obtain rfl := Option.some.inj hs
    refine ⟨_, rfl, ?_, hlog⟩
    have hclose : ∀ s : Session b.lower, (a.assign s).close = a.assign s.close := by
      intro s
      cases a <;> rfl
    have hclient : ∀ s : Session b.lower, (a.assign s).client = s.client := by
      intro s
      cases a <;> rfl
    refine ⟨?_, ?_⟩
    · rw [hclose, hclose, hst.attributes]
    · rw [hclient, hclient]
      exact hst.clients
  | setVerify env v =>
    obtain rfl := Option.some.inj hs
    exact ⟨_, rfl, setVerify_alike hst env _ _ v, hlog⟩
  | close =>
    obtain rfl := Option.some.inj hs
    exact ⟨_, rfl, ⟨hst.attributes, Option.Rel.none⟩, hlog⟩
  | request | elsewhere => cases ha

/-- Without a request the session is like it is after the request. -/
theorem step_request {s t s' : State b.lower} {a : Action b.lower}
    (h : Alike s.session t.session ∧ t.log = []) (ha : isAssignment a = false)
    (hs : step s a = some s') : Alike s'.session t.session ∧ t.log = [] := by
  obtain ⟨hst, hlog⟩ := h
  refine ⟨?_, hlog⟩
  cases a with
  | set | setVerify | close => cases ha
  | elsewhere env mode =>
    obtain ⟨w, rfl⟩ := step_elsewhere hs
    exact hst
  | request p env method url kw =>
    obtain rfl := Option.some.inj hs
    refine ⟨hst.attributes, ?_⟩
    change Option.Rel SameSettings (s.session.request b p env s.world method url kw).client _
    rcases @request_cases b p env s.session s.world method url kw with
      ⟨hclient, -⟩ | ⟨hclient, -, -⟩ <;> rw [hclient]
    · exact hst.clients
    · have hclients := hst.clients
      generalize s.session.client = x at hclients ⊢
      generalize t.session.client = y at hclients ⊢
      cases hclients with
      | none =>
        rw [pick]
        split <;> exact Option.Rel.none
      | @some c d hcd =>
        have hkept := @selectAgent_settings env c (pyOption (verifyOf (some s.session) kw)) s.world
        exact Option.Rel.some ⟨hkept.verify.trans hcd.verify, hkept.timeout.trans hcd.timeout,
          hkept.noProxyAll.trans hcd.noProxyAll⟩

theorem start_steady {w₀ w : World} {c : RustClient}
    (hnew : RustClient.new env (some (.bool true)) none false w₀ = .ok (c, w)) :
    Steady env (start b.lower c w) := by
  intro d hd
  obtain rfl := Option.some.inj hd
  obtain ⟨hfiled, hlock⟩ := new_filed hnew
  exact ⟨hfiled, fun hp => by simp [hlock] at hp⟩

theorem run_steady {s t : State b.lower} {actions : List (Action b.lower)} (h : Steady env s)
    (hmeets : ∀ a ∈ actions, Meets env a) (hrun : run step s actions = some t) : Steady env t :=
  run_invariant_along (fun _ _ _ => step_steady) h (along_of_forall hmeets) hrun

/-- If nothing panicked, the lock works. -/
theorem Steady.unpoisoned {s : State b.lower} (h : Steady env s)
    (hquiet : ∀ x ∈ s.log, ¬Panicked x) (c : RustClient) (hc : s.session.client = some c) :
    Filed env c ∧ c.overrides.poisoned = false := by
  obtain ⟨hfiled, hlock⟩ := h c hc
  refine ⟨hfiled, ?_⟩
  cases hp : c.overrides.poisoned with
  | false => rfl
  | true =>
    obtain ⟨x, hx, hpanicked⟩ := hlock hp
    exact absurd hpanicked (hquiet x hx)

/-- What is left of a run of a new session without the requests. -/
theorem run_forgets {env₀ : TlsEnv} {w₀ w : World} {c : RustClient}
    (hnew : RustClient.new env₀ (some (.bool true)) none false w₀ = .ok (c, w))
    {actions : List (Action b.lower)} {s : State b.lower}
    (hrun : run step (start b.lower c w) actions = some s) :
    ∃ t, run step (start b.lower c w) (actions.filter isAssignment) = some t ∧
      Alike s.session t.session ∧ t.log = [] ∧ Owned s ∧ Owned t := by
  have hstart : Alike (start b.lower c w).session (start b.lower c w).session ∧
      (start b.lower c w).log = [] :=
    ⟨⟨rfl, Option.Rel.some ⟨rfl, rfl, rfl⟩⟩, rfl⟩
  have howned : Owned (start b.lower c w) := by
    intro d hd
    obtain rfl := Option.some.inj hd
    exact (RustClient.new_owns hnew).1
  obtain ⟨t, hrun', hst, hlog⟩ := run_filter (fun _ _ _ _ => step_assignment)
    (fun _ _ _ _ => step_request) hstart hrun
  exact ⟨t, hrun', hst, hlog, run_invariant (fun _ _ _ => step_owned) howned hrun,
    run_invariant (fun _ _ _ => step_owned) howned hrun'⟩

end Steps

/-- Without the requests, a run of a session ends in a session with the same attributes. A
further request through it, if it is made, is the same and verified alike. If the CA bundles stay
what they are and no request panicked, it is made through an agent of the same configuration,
or fails with the same exception. -/
theorem requests_forgotten {b : Builtins} {env₀ : TlsEnv} {w₀ w : World} {c : RustClient}
    (hnew : RustClient.new env₀ (some (.bool true)) none false w₀ = .ok (c, w))
    {actions : List (Action b.lower)} {s : State b.lower}
    (hrun : run step (start b.lower c w) actions = some s) :
    ∃ t, run step (start b.lower c w) (actions.filter isAssignment) = some t ∧
      s.session.close = t.session.close ∧
      (∀ p env method url kw h g, handed b p env (some s.session) s.world method url kw = .ok h →
        handed b p env (some t.session) t.world method url kw = .ok g → SameUse VerifyAlike h g) ∧
      ((∀ a ∈ actions, Meets env₀ a) → (∀ x ∈ s.log, ¬Panicked x) → ∀ p method url kw,
        ExceptRel Eq (SameUse ConfiguredAlike)
          (handed b p env₀ (some s.session) s.world method url kw)
          (handed b p env₀ (some t.session) t.world method url kw)) := by
  obtain ⟨t, hrun', hst, hlog, hs, ht⟩ := run_forgets hnew hrun
  refine ⟨t, hrun', hst.attributes, ?_, ?_⟩
  · intro p env method url kw h g hh hg
    exact handed_alike hst hs ht hh hg
  · intro hmeets hquiet p method url kw
    have hsteady : Steady env₀ (start b.lower c w) := start_steady hnew
    have hmeets' : ∀ a ∈ actions.filter isAssignment, Meets env₀ a :=
      fun a ha => hmeets a (List.mem_filter.mp ha).1
    exact handed_steady hst ((run_steady hsteady hmeets hrun).unpoisoned hquiet)
      ((run_steady hsteady hmeets' hrun').unpoisoned (by simp [hlog])) method url kw

/-- Credentials and a mode are assigned, between requests that override the mode. -/
def visited : List (Action Builtins.ascii.lower) :=
  let get (v : Bool) : Action Builtins.ascii.lower :=
    .request Platform.plain .noFiles "get".toList "http://h/".toList { verify := some (.bool v) }
  [get false, .set (.auth (.list [.str "u".toList, .str "p".toList])), get true,
    .setVerify .noFiles (.bool false), get true]

theorem visited_meets : ∀ a ∈ visited, Meets .noFiles a := by simp [visited, Meets]

theorem visited_quiet {c : RustClient} {w : World} {s : State Builtins.ascii.lower}
    (hnew : RustClient.new .noFiles (some (.bool true)) none false World.initial = .ok (c, w))
    (hrun : run step (start Builtins.ascii.lower c w) visited = some s) :
    ∀ x ∈ s.log, ¬Panicked x := by
  obtain ⟨rfl, rfl⟩ := Prod.mk.inj (Except.ok.inj hnew)
  obtain rfl := Option.some.inj hrun
  intro x hx
  obtain ⟨r, hr⟩ : ∃ r, x.answer = .ok r := by
    rcases List.mem_cons.mp hx with rfl | hx
    · exact ⟨_, rfl⟩
    · rcases List.mem_cons.mp hx with rfl | hx
      · exact ⟨_, rfl⟩
      · obtain rfl := List.mem_singleton.mp hx
        exact ⟨_, rfl⟩
  rintro ⟨msg, hmsg⟩
  rw [hr] at hmsg
  cases hmsg

theorem requests_forgotten_visited : ∃ c w s,
    RustClient.new .noFiles (some (.bool true)) none false World.initial = .ok (c, w) ∧
    run step (start Builtins.ascii.lower c w) visited = some s ∧ s.log.length = 3 ∧
    ∃ t, run step (start Builtins.ascii.lower c w) (visited.filter isAssignment) = some t ∧
      t.log = [] ∧ ∀ p method url kw, ExceptRel Eq (SameUse ConfiguredAlike)
        (handed Builtins.ascii p .noFiles (some s.session) s.world method url kw)
        (handed Builtins.ascii p .noFiles (some t.session) t.world method url kw) := by
  refine ⟨_, _, _, rfl, rfl, rfl, ?_⟩
  obtain ⟨t, ht, -, -, hsame⟩ := @requests_forgotten Builtins.ascii .noFiles World.initial _ _ rfl
    visited _ rfl
  refine ⟨t, ht, ?_, hsame visited_meets (visited_quiet rfl rfl)⟩
  obtain rfl := Option.some.inj ht
  rfl

end Pyureq.NoTrace
