import Pyureq.Sessions.Lifetime

/-! Assigning `Session.verify`. The setter stores the value before it constructs the client,
so a value from which no client can be constructed stays behind. -/
namespace Pyureq.VerifySetter
open Runs Lifetime

variable {b : Builtins}

/-- The value is of a type that `verify` takes, a bundle can be read and holds certificates,
and ureq does not panic on the configuration. -/
def Constructible (env : TlsEnv) (v : PyVal) : Prop :=
  ∃ m tls, VerifyMode.orSystem (pyOption v) = .ok m ∧ buildTlsConfig env m = .ok tls ∧
    env.panics tls = false

/-- Session and client are both set to the value. -/
def Takes (v : PyVal) (r : Assigned b.lower) : Prop :=
  r.raised = none ∧ r.session.verify = v ∧
    ∃ c m, r.session.client = some c ∧ VerifyMode.orSystem (pyOption v) = .ok m ∧ c.verify = m

/-- The assignment raises, and nothing that is done later can tell that it happened. -/
def Leaves (s : State b.lower) (r : Assigned b.lower) : Prop :=
  (∃ e, r.raised = some e) ∧ r.session.verify = s.session.verify ∧
    r.session.client = s.session.client ∧
    ∀ later, (run step { s with session := r.session, world := r.world } later).map State.log =
      (run step s later).map State.log

def Atomic (s : State b.lower) (env : TlsEnv) (v : PyVal) : Prop :=
  Takes v (s.session.setVerify env s.world v) ∨ Leaves s (s.session.setVerify env s.world v)

/-- Assignments are of values from which a client can be constructed, or change nothing. -/
def Lands (s : State b.lower) (a : Action b.lower) : Prop :=
  ∀ env v, a = .setVerify env v → Constructible env v ∨ s.session.verify = v

/-- An open session has a client of the mode that its `verify` denotes. -/
def Coherent (s : State b.lower) : Prop :=
  ∀ c, s.session.client = some c →
    VerifyMode.orSystem (pyOption s.session.verify) = .ok c.verify

section Setter

theorem new_cases (env : TlsEnv) (v : PyVal) (w : World) :
    (Constructible env v ∧ ∃ c w', RustClient.new env (pyOption v) none false w = .ok (c, w') ∧
      VerifyMode.orSystem (pyOption v) = .ok c.verify) ∨
    (¬Constructible env v ∧ ∃ e, RustClient.new env (pyOption v) none false w = .error e) := by
  unfold RustClient.new Constructible
  cases hm : VerifyMode.orSystem (pyOption v) with
  | error e => exact Or.inr ⟨by simp, e, rfl⟩
  | ok m =>
    have hbuild := buildAgent_succeeds_iff env m w
    cases ha : buildAgent env m w with
    | error e =>
      refine Or.inr ⟨?_, e, by simp [bind, Except.bind, ha]⟩
      rintro ⟨m', tls, hm', ht, hp⟩
      obtain rfl := Except.ok.inj hm'
      obtain ⟨r, hr⟩ := hbuild.mpr ⟨tls, ht, hp⟩
      rw [ha] at hr
      cases hr
    | ok r =>
      obtain ⟨tls, ht, hp⟩ := hbuild.mp ⟨r, ha⟩
      refine Or.inl ⟨⟨m, tls, rfl, ht, hp⟩,
        ⟨r.1, m, ⟨OrderedMap.empty, false⟩, none, false⟩, r.2, ?_, rfl⟩
      simp only [bind, Except.bind, ha, pure, Except.pure]

/-- The two ends of an assignment. -/
theorem setVerify_cases (env : TlsEnv) (s : Session b.lower) (w : World) (v : PyVal) :
    (Constructible env v ∧ ∃ c w', VerifyMode.orSystem (pyOption v) = .ok c.verify ∧
      s.setVerify env w v = ⟨none, { s with verify := v, client := some c }, w'⟩) ∨
    (¬Constructible env v ∧ ∃ e, s.setVerify env w v = ⟨some e, { s with verify := v }, w⟩) := by
  unfold Session.setVerify
  rcases new_cases env v w with ⟨hv, c, w', hnew, hmode⟩ | ⟨hv, e, hnew⟩
  · exact Or.inl ⟨hv, c, w', hmode, by simp only [hnew]⟩
  · exact Or.inr ⟨hv, e, by simp only [hnew]⟩

theorem atomic_iff (s : State b.lower) (env : TlsEnv) (v : PyVal) :
    Atomic s env v ↔ Constructible env v ∨ s.session.verify = v := by
  unfold Atomic Takes Leaves
  rcases setVerify_cases env s.session s.world v with
    ⟨hv, c, w', hmode, hr⟩ | ⟨hv, e, hr⟩ <;> rw [hr]
  · exact iff_of_true (Or.inl ⟨rfl, rfl, c, c.verify, rfl, hmode, rfl⟩) (Or.inl hv)
  · constructor
    · rintro (⟨hraised, -⟩ | ⟨-, hverify, -⟩)
      · cases hraised
      · exact Or.inr hverify.symm
    · rintro (h | rfl)
      · exact absurd h hv
      · exact Or.inr ⟨⟨e, rfl⟩, rfl, rfl, fun _ => rfl⟩

end Setter

section Lifetimes

theorem start_coherent {env : TlsEnv} {c : RustClient} {w₀ w : World}
    (h : RustClient.new env (some (.bool true)) none false w₀ = .ok (c, w)) :
    Coherent (start b.lower c w) := by
  obtain ⟨m, hm, h⟩ := bind_eq_ok.mp h
  obtain ⟨r, -, h⟩ := bind_eq_ok.mp h
  obtain ⟨rfl, -⟩ := Prod.mk.inj (Except.ok.inj h)
  intro c hc
  obtain rfl := Option.some.inj hc
  exact hm

/-- A request leaves a client of the same mode, or none as before. -/
theorem request_client (p : Platform) (env : TlsEnv) (s : Session b.lower) (w : World)
    (method url : Text) (kw : Kwargs b.lower) :
    (s.request b p env w method url kw).client.map RustClient.verify =
      s.client.map RustClient.verify := by
  unfold Session.request
  cases s.merge b kw with
  | error e => rfl
  | ok merged =>
    simp only [dispatch]
    cases prepare b (b.upper method) url merged with
    | error e => rfl
    | ok args =>
      cases s.client with
      | none =>
        simp only [callRust, httpRequest]
        cases extractArgs args with
        | error e => rfl
        | ok given => cases oneShotAgent env (pyOption args.verify) w <;> rfl
      | some c =>
        simp only [callRust, RustClient.request]
        cases extractArgs args with
        | error e => rfl
        | ok given =>
          exact congrArg some (RustClient.selectAgent_verify env (pyOption args.verify) c w)

theorem step_coherent {s t : State b.lower} {a : Action b.lower} (h : Coherent s)
    (ha : Lands s a) (hs : step s a = some t) : Coherent t := by
  cases a with
  | set a =>
    obtain rfl := Option.some.inj hs
    cases a <;> exact h
  | setVerify env v =>
    obtain rfl := Option.some.inj hs
    rcases setVerify_cases env s.session s.world v with
      ⟨-, c, w', hmode, hr⟩ | ⟨hv, e, hr⟩ <;> rw [hr]
    · intro c' hc'
      obtain rfl := Option.some.inj hc'
      exact hmode
    · rcases ha env v rfl with hv' | rfl
      · exact absurd hv' hv
      · exact h
  | close =>
    obtain rfl := Option.some.inj hs
    intro c hc
    cases hc
  | request p env method url kw =>
    obtain rfl := Option.some.inj hs
    intro c (hc : (s.session.request b p env s.world method url kw).client = some c)
    have hclient := request_client p env s.session s.world method url kw
    rw [hc, Option.map_some] at hclient
    obtain ⟨c₀, hc₀, hmode⟩ := Option.map_eq_some_iff.mp hclient.symm
    rw [← hmode]
    exact h c₀ hc₀
  | elsewhere env mode =>
    obtain ⟨w, rfl⟩ := step_elsewhere hs
    exact h

end Lifetimes

/-- In every state that a session reaches, an assignment to `verify` is atomic exactly when a
client can be constructed from the value or the value is there already. As long as all are of
that kind, `verify` and the client agree. -/
theorem assignment_atomic_iff {b : Builtins} {env₀ : TlsEnv} {w₀ w : World} {c : RustClient}
    (hinit : RustClient.new env₀ (some (.bool true)) none false w₀ = .ok (c, w))
    {actions : List (Action b.lower)} {s : State b.lower}
    (hrun : run step (start b.lower c w) actions = some s) :
    (∀ env v, Atomic s env v ↔ Constructible env v ∨ s.session.verify = v) ∧
    (Along step Lands (start b.lower c w) actions → Coherent s) := by
  refine ⟨atomic_iff s, ?_⟩
  intro hlands
  exact run_invariant_along (fun _ _ _ => step_coherent) (start_coherent hinit) hlands hrun

/-- Verification is switched off, the session is used, closed and opened again. -/
def toggled : List (Action Builtins.ascii.lower) :=
  [.setVerify .noFiles (.bool false),
    .request Platform.plain .noFiles "get".toList "http://h/".toList {}, .close,
    .setVerify .noFiles (.bool true)]

theorem assignment_atomic_iff_toggled : ∃ c w s,
    RustClient.new .noFiles (some (.bool true)) none false World.initial = .ok (c, w) ∧
    run step (start Builtins.ascii.lower c w) toggled = some s ∧
    Atomic s .noFiles (.bool false) ∧ Coherent s := by
  refine ⟨_, _, _, rfl, rfl, ?_⟩
  have h := @assignment_atomic_iff Builtins.ascii .noFiles World.initial _ _ rfl toggled _ rfl
  have hbool : ∀ v, Constructible .noFiles (.bool v) := by
    intro v
    cases v <;> exact ⟨_, _, rfl, rfl, rfl⟩
  have hset : ∀ (s : State Builtins.ascii.lower) v, Lands s (.setVerify .noFiles (.bool v)) := by
    rintro s v env w ⟨⟩
    exact Or.inl (hbool v)
  have hother : ∀ (s : State Builtins.ascii.lower) (a : Action Builtins.ascii.lower),
      (∀ env v, a ≠ .setVerify env v) → Lands s a := fun s a ha env v he => absurd he (ha env v)
  refine ⟨(h.1 .noFiles (.bool false)).mpr (Or.inl (hbool false)), h.2 ?_⟩
  exact along_cons (hset _ false) rfl <| along_cons (hother _ _ (by simp)) rfl <|
    along_cons (hother _ _ (by simp)) rfl <| along_cons (hset _ true) rfl trivial

/-- An unreadable bundle raises, but stays in `verify`; the client is the old one, and the
request that would have been answered before raises afterwards. -/
theorem assignment_not_atomic : ∃ c w,
    RustClient.new .noFiles (some (.bool true)) none false World.initial = .ok (c, w) ∧
    let s := start Builtins.ascii.lower c w
    let r := s.session.setVerify .noFiles s.world (.str "/ca.pem".toList)
    (∃ e, r.raised = some e) ∧ r.session.verify = .str "/ca.pem".toList ∧
      s.session.verify = .bool true ∧ r.session.client = s.session.client ∧
      (∃ x, (s.session.request Builtins.ascii Platform.plain .noFiles s.world "get".toList
        "http://h/".toList {}).result = .ok x) ∧
      ∃ e, (r.session.request Builtins.ascii Platform.plain .noFiles r.world "get".toList
        "http://h/".toList {}).result = .error e :=
  ⟨_, _, rfl, ⟨_, rfl⟩, rfl, rfl, rfl, ⟨_, rfl⟩, _, rfl⟩

end Pyureq.VerifySetter
