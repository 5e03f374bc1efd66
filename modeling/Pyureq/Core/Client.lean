import Pyureq.Core.Verify

/-! `RustClient` of `lib.rs`: its construction, and the selection of the agent that
serves a request. -/

namespace Pyureq

/-- A lock is poisoned when a holder panics. -/
structure Mutex (α : Type*) where
  data : α
  poisoned : Bool

structure RustClient where
  /-- Agent for the client's default `verify` mode. -/
  agent : Agent
  /-- The mode `agent` was built with. -/
  verify : VerifyMode
  /-- Agents for per-request overrides, one pool per mode. -/
  overrides : Mutex (OrderedMap VerifyMode Agent)
  defaultTimeout : Option PyFloat
  defaultNoProxyAll : Bool

/-- A Python argument as Rust's `Option` receives it: `None` is absent. -/
def pyOption : PyVal → Option PyVal
  | .none => none
  | v => some v

/-- The agent that `http_request` builds for its one request. -/
def oneShotAgent (env : TlsEnv) (verify : Option PyVal) (w : World) :
    Except PyErr (Agent × World) := do
  let verifyMode ← VerifyMode.orSystem verify
  buildAgent env verifyMode w

namespace RustClient

/-- `RustClient::new`; `verify` is `none` when the argument is absent or `None`. -/
def new (env : TlsEnv) (verify : Option PyVal) (timeout : Option PyFloat) (noProxyAll : Bool)
    (w : World) : Except PyErr (RustClient × World) := do
  let verifyMode ← VerifyMode.orSystem verify
  let (agent, w) ← buildAgent env verifyMode w
  pure ({ agent := agent, verify := verifyMode, overrides := ⟨OrderedMap.empty, false⟩,
          defaultTimeout := timeout, defaultNoProxyAll := noProxyAll }, w)

/-- What `RustClient(verify=True)` is in a new process. -/
def plain : RustClient where
  agent := ⟨⟨{ rootCerts := .platformVerifier }, false⟩, 0⟩
  verify := .system
  overrides := ⟨OrderedMap.empty, false⟩
  defaultTimeout := none
  defaultNoProxyAll := false

structure Selection where
  result : Except PyErr Agent
  client : RustClient
  world : World

def poisonError : PyErr := ⟨.runtimeError, "poisoned lock: another task failed inside".toList⟩

/-- The `match verify` of `RustClient::request`. The lock is held from the lookup to the
insertion, so the whole selection is one step. -/
def selectAgent (env : TlsEnv) (verify : Option PyVal) (c : RustClient) (w : World) : Selection :=
  match verify with
  | none => ⟨.ok c.agent, c, w⟩
  | some v =>
    match VerifyMode.fromPyAny v with
    | .error e => ⟨.error e, c, w⟩
    | .ok m =>
      if m = c.verify then ⟨.ok c.agent, c, w⟩
      else if c.overrides.poisoned then ⟨.error poisonError, c, w⟩
      else
        match c.overrides.data.get? m with
        | some a => ⟨.ok a, c, w⟩
        | none =>
          match buildAgent env m w with
          | .error e =>
            -- an early return drops the guard; only a panic poisons the lock
            ⟨.error e, { c with overrides := ⟨c.overrides.data, e.cls = .panicException⟩ }, w⟩
          | .ok (a, w') => ⟨.ok a, { c with overrides := ⟨c.overrides.data.insert m a, false⟩ }, w'⟩

/-- The mode a request asks for: the client's own when `verify` is absent. -/
def effectiveMode (c : RustClient) : Option PyVal → Except PyErr VerifyMode
  | none => .ok c.verify
  | some v => VerifyMode.fromPyAny v

/-- The client's agents by mode: the default agent and the overrides. -/
def table (c : RustClient) (m : VerifyMode) : Option Agent :=
  if m = c.verify then some c.agent else c.overrides.data.get? m

/-- Every agent of the table was built for the mode it is filed under. -/
def Owns (c : RustClient) (w : World) : Prop := ∀ m a, c.table m = some a → (m, a) ∈ w.builds

theorem new_owns {env : TlsEnv} {verify : Option PyVal} {timeout : Option PyFloat}
    {noProxyAll : Bool} {w w' : World} {c : RustClient}
    (h : new env verify timeout noProxyAll w = .ok (c, w')) :
    c.Owns w' ∧ ∃ a, w'.builds = (c.verify, a) :: w.builds := by
  obtain ⟨m, -, h⟩ := bind_eq_ok.mp h
  obtain ⟨⟨a, w₁⟩, hbuild, h⟩ := bind_eq_ok.mp h
  obtain ⟨rfl, rfl⟩ := Prod.mk.inj (Except.ok.inj h)
  have hw := (buildAgent_ok hbuild).1
  refine ⟨?_, a, hw⟩
  intro n b hn
  simp only [table, OrderedMap.get?_empty, Option.ite_none_right_eq_some] at hn
  obtain ⟨rfl, hab⟩ := hn
  rw [hw, ← Option.some.inj hab]
  exact List.mem_cons_self

section Select
variable {env : TlsEnv} {verify : Option PyVal} {c : RustClient} {w : World} {m : VerifyMode}

theorem selectAgent_mistyped {e : PyErr} (h : c.effectiveMode verify = .error e) :
    c.selectAgent env verify w = ⟨.error e, c, w⟩ := by
  cases verify with
  | none => cases h
  | some v =>
    have hv : VerifyMode.fromPyAny v = .error e := h
    simp only [selectAgent, hv]

theorem selectAgent_own (h : c.effectiveMode verify = .ok c.verify) :
    c.selectAgent env verify w = ⟨.ok c.agent, c, w⟩ := by
  cases verify with
  | none => rfl
  | some v =>
    have hv : VerifyMode.fromPyAny v = .ok c.verify := h
    simp only [selectAgent, hv, if_true]

/-- Another mode than the client's own is looked up, and built if it is missing. -/
theorem selectAgent_override (h : c.effectiveMode verify = .ok m) (hne : m ≠ c.verify)
    (hlock : c.overrides.poisoned = false) : c.selectAgent env verify w =
      match c.overrides.data.get? m with
      | some a => ⟨.ok a, c, w⟩
      | none =>
        match buildAgent env m w with
        | .error e =>
          ⟨.error e, { c with overrides := ⟨c.overrides.data, e.cls = .panicException⟩ }, w⟩
        | .ok (a, w') =>
          ⟨.ok a, { c with overrides := ⟨c.overrides.data.insert m a, false⟩ }, w'⟩ := by
  cases verify with
  | none => exact absurd (Except.ok.inj h).symm hne
  | some v =>
    have hv : VerifyMode.fromPyAny v = .ok m := h
    simp only [selectAgent, hv, if_neg hne, hlock]
    rfl

theorem selectAgent_poisoned (h : c.effectiveMode verify = .ok m) (hne : m ≠ c.verify)
    (hlock : c.overrides.poisoned = true) :
    c.selectAgent env verify w = ⟨.error poisonError, c, w⟩ := by
  cases verify with
  | none => exact absurd (Except.ok.inj h).symm hne
  | some v =>
    have hv : VerifyMode.fromPyAny v = .ok m := h
    simp only [selectAgent, hv, if_neg hne, hlock, if_true]

end Select

/-- The ways a selection can end. -/
theorem selectAgent_cases (env : TlsEnv) (verify : Option PyVal) (c : RustClient) (w : World) :
    (∃ e p, c.selectAgent env verify w =
      ⟨.error e, { c with overrides := ⟨c.overrides.data, p⟩ }, w⟩) ∨
    (∃ m a, c.effectiveMode verify = .ok m ∧ c.table m = some a ∧
      c.selectAgent env verify w = ⟨.ok a, c, w⟩) ∨
    (∃ m a w', c.effectiveMode verify = .ok m ∧ c.table m = none ∧
      buildAgent env m w = .ok (a, w') ∧ c.selectAgent env verify w =
        ⟨.ok a, { c with overrides := ⟨c.overrides.data.insert m a, false⟩ }, w'⟩) := by
  cases verify with
  | none => exact Or.inr (Or.inl ⟨c.verify, c.agent, rfl, by simp [table], rfl⟩)
  | some v =>
    cases hv : VerifyMode.fromPyAny v with
    | error e => exact Or.inl ⟨e, c.overrides.poisoned, by simp [selectAgent, hv]⟩
    | ok m =>
      by_cases hm : m = c.verify
      · exact Or.inr (Or.inl ⟨m, c.agent, hv, by simp [table, hm], by simp [selectAgent, hv, hm]⟩)
      · cases hp : c.overrides.poisoned with
        | true => exact Or.inl ⟨poisonError, true, by simp [selectAgent, hv, hm, ← hp]⟩
        | false =>
          cases hg : c.overrides.data.get? m with
          | some a =>
            exact Or.inr (Or.inl ⟨m, a, hv, by simp [table, hm, hg],
              by simp [selectAgent, hv, hm, hp, hg]⟩)
          | none =>
            cases hb : buildAgent env m w with
            | error e => exact Or.inl ⟨e, _, by simp only [selectAgent, hv, hm, hp, hg, hb]; rfl⟩
            | ok r =>
              exact Or.inr (Or.inr ⟨m, r.1, r.2, hv, by simp [table, hm, hg], hb,
                by simp [selectAgent, hv, hm, hp, hg, hb]⟩)

/-- The client's own mode never changes. -/
theorem selectAgent_verify (env : TlsEnv) (verify : Option PyVal) (c : RustClient) (w : World) :
    (c.selectAgent env verify w).client.verify = c.verify := by
  rcases selectAgent_cases env verify c w with
    ⟨e, p, hr⟩ | ⟨m, a, -, -, hr⟩ | ⟨m, a, w', -, -, -, hr⟩ <;> rw [hr]

theorem table_insert {c : RustClient} {m : VerifyMode} (hm : c.table m = none) (a : Agent)
    (p : Bool) (n : VerifyMode) :
    ({ c with overrides := ⟨c.overrides.data.insert m a, p⟩ } : RustClient).table n =
      if n = m then some a else c.table n := by
  have hne : ¬m = c.verify := by
    rintro rfl
    simp [table] at hm
  simp only [table, OrderedMap.get?_insert]
  by_cases hn : n = c.verify
  · have hnm : ¬c.verify = m := fun h => hne h.symm
    simp [hn, hnm]
  · simp [hn]

/-- What one selection preserves and provides. -/
structure SelectSpec (verify : Option PyVal) (c : RustClient) (w : World) (r : Selection) :
    Prop where
  owns : r.client.Owns r.world
  builds : ∀ e ∈ w.builds, e ∈ r.world.builds
  verify_eq : r.client.verify = c.verify
  keeps : ∀ m a, c.table m = some a → r.client.table m = some a
  serves : ∀ a, r.result = .ok a → ∃ m, c.effectiveMode verify = .ok m ∧
    r.client.table m = some a
  fails : ∀ e, r.result = .error e → ∀ m, r.client.table m = c.table m

theorem selectAgent_spec {c : RustClient} {w : World} (h : c.Owns w) (env : TlsEnv)
    (verify : Option PyVal) : SelectSpec verify c w (c.selectAgent env verify w) := by
  rcases selectAgent_cases env verify c w with
    ⟨e, p, hr⟩ | ⟨m, a, he, ht, hr⟩ | ⟨m, a, w', he, ht, hb, hr⟩ <;> rw [hr]
  · exact ⟨h, fun _ => id, rfl, fun _ _ => id, by simp, fun _ _ _ => rfl⟩
  · refine ⟨h, fun _ => id, rfl, fun _ _ => id, ?_, fun _ _ _ => rfl⟩
    intro b hb
    obtain rfl := Except.ok.inj hb
    exact ⟨m, he, ht⟩
  · have hw := (buildAgent_ok hb).1
    refine ⟨?_, ?_, rfl, ?_, ?_, by simp⟩
    · intro n b hn
      rw [table_insert ht] at hn
      rw [hw]
      split at hn
      next hnm =>
        obtain rfl := Option.some.inj hn
        rw [hnm]
        exact List.mem_cons_self
      next => exact List.mem_cons_of_mem _ (h n b hn)
    · intro e he'
      rw [hw]
      exact List.mem_cons_of_mem _ he'
    · intro n b hn
      have hnm : ¬n = m := by
        rintro rfl
        rw [ht] at hn
        contradiction
      rw [table_insert ht, if_neg hnm]
      exact hn
    · intro b hb'
      obtain rfl := Except.ok.inj hb'
      exact ⟨m, he, by rw [table_insert ht, if_pos rfl]⟩

end RustClient
end Pyureq
