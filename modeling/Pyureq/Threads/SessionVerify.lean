import Mathlib.Logic.Function.Basic
import Pyureq.Base.Runs
import Pyureq.Sessions

/-! Concurrent use of one `Session`. The attributes `_verify` and `_client` are read and
written in separate steps by the `verify` setter, by `close` and by requests; only the
agent selection inside a `RustClient` is atomic. -/
namespace Pyureq.SessionVerify
open Runs

/-- Where a thread stands. A client is named by its position in `State.clients`. -/
inductive Phase where
  | idle
  /-- `self._verify = value` is done. -/
  | assigned
  /-- `self._verify` has been read again, for the constructor call. -/
  | reread (verify : PyVal)
  /-- The new client exists, `self._client` still holds the old one. -/
  | constructed (client : ℕ)
  /-- `_merge` has returned with this `verify`. -/
  | merged (verify : PyVal)
  /-- `self._client` has been read as the argument of `_dispatch`. -/
  | dispatching (verify : PyVal) (client : Option ℕ)

structure State where
  verify : PyVal
  client : Option ℕ
  /-- Every `RustClient` the session has had. -/
  clients : List RustClient
  world : World
  phase : ℕ → Phase
  /-- Every call into Rust: the merged `verify` and the agent or the error. -/
  calls : List (PyVal × Except PyErr Agent)

/-- After `Session.__init__`. -/
def start (c : RustClient) (w : World) : State :=
  ⟨.bool true, some 0, [c], w, fun _ => .idle, []⟩

inductive Action where
  | assign (t : ℕ) (value : PyVal)
  | reread (t : ℕ)
  | construct (t : ℕ) (env : TlsEnv)
  | store (t : ℕ)
  | close (t : ℕ)
  /-- `_merge` with the caller's `verify` argument, if there is one. -/
  | merge (t : ℕ) (verify : Option PyVal)
  | readClient (t : ℕ)
  | dispatch (t : ℕ) (env : TlsEnv)
  /-- A conversion before the call into Rust raises. -/
  | abandon (t : ℕ)
  /-- Another session or one-shot call builds an agent. -/
  | elsewhere (env : TlsEnv) (mode : VerifyMode)

def State.move (s : State) (t : ℕ) (p : Phase) : State :=
  { s with phase := Function.update s.phase t p }

/-- `client.request(..., verify=verify)` up to the choice of the agent. -/
def State.callClient (s : State) (t : ℕ) (env : TlsEnv) (verify : PyVal) (i : ℕ)
    (c : RustClient) : State :=
  let r := c.selectAgent env (pyOption verify) s.world
  { s with
    clients := s.clients.set i r.client
    world := r.world
    phase := Function.update s.phase t .idle
    calls := (verify, r.result) :: s.calls }

/-- `_pyureq.http_request(..., verify=verify)` up to the choice of the agent. -/
def State.callOneShot (s : State) (t : ℕ) (env : TlsEnv) (verify : PyVal) : State :=
  match oneShotAgent env (pyOption verify) s.world with
  | .ok (a, w) =>
    { s with
      world := w
      phase := Function.update s.phase t .idle
      calls := (verify, .ok a) :: s.calls }
  | .error e =>
    { s with
      phase := Function.update s.phase t .idle
      calls := (verify, .error e) :: s.calls }

def step (s : State) : Action → Option State
  | .assign t value =>
    match s.phase t with
    | .idle => some { s.move t .assigned with verify := value }
    | _ => none
  | .reread t =>
    match s.phase t with
    | .assigned => some (s.move t (.reread s.verify))
    | _ => none
  | .construct t env =>
    match s.phase t with
    | .reread v =>
      match RustClient.new env (pyOption v) none false s.world with
      | .ok (c, w) =>
        some { s.move t (.constructed s.clients.length) with
          clients := s.clients ++ [c]
          world := w }
      | .error _ => some (s.move t .idle)
    | _ => none
  | .store t =>
    match s.phase t with
    | .constructed i => some { s.move t .idle with client := some i }
    | _ => none
  | .close t =>
    match s.phase t with
    | .idle => some { s with client := none }
    | _ => none
  | .merge t verify =>
    match s.phase t with
    | .idle => some (s.move t (.merged (verify.getD s.verify)))
    | _ => none
  | .readClient t =>
    match s.phase t with
    | .merged v => some (s.move t (.dispatching v s.client))
    | _ => none
  | .dispatch t env =>
    match s.phase t with
    | .dispatching v (some i) =>
      match s.clients[i]? with
      | some c => some (s.callClient t env v i c)
      | none => none
    | .dispatching v none => some (s.callOneShot t env v)
    | _ => none
  | .abandon t =>
    match s.phase t with
    | .merged _ | .dispatching _ _ => some (s.move t .idle)
    | _ => none
  | .elsewhere env mode =>
    match buildAgent env mode s.world with
    | .ok (_, w) => some { s with world := w }
    | .error _ => some s

/-- References to clients are valid. -/
def PhaseOk (n : ℕ) : Phase → Prop
  | .constructed i => i < n
  | .dispatching _ (some i) => i < n
  | _ => True

structure Inv (s : State) : Prop where
  owns : ∀ c ∈ s.clients, c.Owns s.world
  client : ∀ i, s.client = some i → i < s.clients.length
  phase : ∀ t, PhaseOk s.clients.length (s.phase t)
  calls : ∀ v a, (v, .ok a) ∈ s.calls → ∀ m, VerifyMode.fromPyAny v = .ok m →
    (m, a) ∈ s.world.builds

theorem PhaseOk.mono {n k : ℕ} (h : n ≤ k) {p : Phase} (hp : PhaseOk n p) : PhaseOk k p := by
  cases p with
  | constructed i => exact Nat.lt_of_lt_of_le hp h
  | dispatching v c =>
    cases c with
    | none => trivial
    | some i => exact Nat.lt_of_lt_of_le hp h
  | _ => trivial

theorem phase_update {s : State} (h : Inv s) {n : ℕ} (hn : s.clients.length ≤ n) (t : ℕ)
    {p : Phase} (hp : PhaseOk n p) : ∀ t', PhaseOk n (Function.update s.phase t p t') := by
  intro t'
  by_cases ht : t' = t
  · rw [ht, Function.update_self]
    exact hp
  · rw [Function.update_of_ne ht]
    exact (h.phase t').mono hn

/-- A step of one thread that touches its phase only. -/
theorem move_inv {s : State} (h : Inv s) (t : ℕ) {p : Phase} (hp : PhaseOk s.clients.length p) :
    Inv (s.move t p) :=
  ⟨h.owns, h.client, phase_update h le_rfl t hp, h.calls⟩

theorem owns_mono {c : RustClient} {w w' : World} (hw : ∀ e ∈ w.builds, e ∈ w'.builds)
    (h : c.Owns w) : c.Owns w' := fun m a hm => hw _ (h m a hm)

/-- A value that denotes a mode is passed to Rust as it is. -/
theorem pyOption_of_mode {v : PyVal} {m : VerifyMode} (h : VerifyMode.fromPyAny v = .ok m) :
    pyOption v = some v := by
  cases v <;> simp [VerifyMode.fromPyAny] at h <;> rfl

theorem callClient_inv {s : State} (h : Inv s) (t : ℕ) (env : TlsEnv) (v : PyVal) {i : ℕ}
    {c : RustClient} (hc : s.clients[i]? = some c) : Inv (s.callClient t env v i c) := by
  have hown := h.owns c (List.mem_of_getElem? hc)
  have spec := RustClient.selectAgent_spec hown env (pyOption v)
  refine ⟨?_, ?_, ?_, ?_⟩
  · intro d hd
    rcases List.mem_or_eq_of_mem_set hd with hd | rfl
    · exact owns_mono spec.builds (h.owns d hd)
    · exact spec.owns
  · intro j hj
    simp only [State.callClient, List.length_set]
    exact h.client j hj
  · simp only [State.callClient, List.length_set]
    exact phase_update h le_rfl t (p := .idle) trivial
  · intro u a hu m hm
    rcases List.mem_cons.mp hu with he | hu
    · obtain ⟨rfl, hr⟩ := Prod.mk.inj he
      obtain ⟨n, hn, ht⟩ := spec.serves a hr.symm
      rw [pyOption_of_mode hm] at hn
      obtain rfl := Except.ok.inj (hm.symm.trans hn)
      exact spec.owns m a ht
    · exact spec.builds _ (h.calls u a hu m hm)

theorem oneShotAgent_ok {env : TlsEnv} {v : Option PyVal} {w w' : World} {a : Agent}
    (h : oneShotAgent env v w = .ok (a, w')) :
    ∃ m, VerifyMode.orSystem v = .ok m ∧ w'.builds = (m, a) :: w.builds := by
  obtain ⟨m, hm, hb⟩ := bind_eq_ok.mp h
  exact ⟨m, hm, (buildAgent_ok hb).1⟩

theorem callOneShot_inv {s : State} (h : Inv s) (t : ℕ) (env : TlsEnv) (v : PyVal) :
    Inv (s.callOneShot t env v) := by
  unfold State.callOneShot
  split
  next a w hb =>
    obtain ⟨n, hn, hw⟩ := oneShotAgent_ok hb
    have hold : ∀ e ∈ s.world.builds, e ∈ w.builds := by
      rw [hw]
      exact fun e he => List.mem_cons_of_mem _ he
    refine ⟨fun c hc => owns_mono hold (h.owns c hc), h.client,
      phase_update h le_rfl t (p := .idle) trivial, ?_⟩
    intro u b hu m hm
    rcases List.mem_cons.mp hu with he | hu
    · obtain ⟨rfl, hab⟩ := Prod.mk.inj he
      rw [pyOption_of_mode hm] at hn
      obtain rfl := Except.ok.inj (hm.symm.trans hn)
      rw [Except.ok.inj hab, hw]
      exact List.mem_cons_self
    · exact hold _ (h.calls u b hu m hm)
  next e he =>
    refine ⟨h.owns, h.client, phase_update h le_rfl t (p := .idle) trivial, ?_⟩
    intro u b hu m hm
    rcases List.mem_cons.mp hu with he | hu
    · simp at he
    · exact h.calls u b hu m hm

theorem construct_inv {s : State} (h : Inv s) (t : ℕ) {env : TlsEnv} {v : Option PyVal}
    {c : RustClient} {w : World} (hc : RustClient.new env v none false s.world = .ok (c, w)) :
    Inv { s.move t (.constructed s.clients.length) with
      clients := s.clients ++ [c]
      world := w } := by
  obtain ⟨hown, a, hw⟩ := RustClient.new_owns hc
  have hold : ∀ e ∈ s.world.builds, e ∈ w.builds := by
    rw [hw]
    exact fun e he => List.mem_cons_of_mem _ he
  have hlen : (s.clients ++ [c]).length = s.clients.length + 1 := by simp
  refine ⟨?_, ?_, ?_, fun u b hu m hm => hold _ (h.calls u b hu m hm)⟩
  · intro d hd
    rcases List.mem_append.mp hd with hd | hd
    · exact owns_mono hold (h.owns d hd)
    · rw [List.mem_singleton.mp hd]
      exact hown
  · intro i hi
    rw [hlen]
    exact Nat.lt_succ_of_lt (h.client i hi)
  · rw [hlen]
    exact phase_update h (Nat.le_succ _) t (p := .constructed _) (Nat.lt_succ_self _)

theorem step_inv {s u : State} {act : Action} (h : Inv s) (hs : step s act = some u) : Inv u := by
  cases act with
  | assign t value =>
    simp only [step] at hs
    split at hs <;> cases hs
    have hm := move_inv h t (p := .assigned) trivial
    exact ⟨hm.owns, hm.client, hm.phase, hm.calls⟩
  | reread t =>
    simp only [step] at hs
    split at hs <;> cases hs
    exact move_inv h t trivial
  | construct t env =>
    simp only [step] at hs
    split at hs <;> try contradiction
    split at hs <;> cases hs
    next hc => exact construct_inv h t hc
    next => exact move_inv h t trivial
  | store t =>
    simp only [step] at hs
    split at hs <;> cases hs
    next i hp =>
      have hi : i < s.clients.length := by simpa only [hp, PhaseOk] using h.phase t
      have hm := move_inv h t (p := .idle) trivial
      refine ⟨hm.owns, ?_, hm.phase, hm.calls⟩
      intro j hj
      exact Option.some.inj hj ▸ hi
  | close t =>
    simp only [step] at hs
    split at hs <;> cases hs
    exact ⟨h.owns, by simp, h.phase, h.calls⟩
  | merge t verify =>
    simp only [step] at hs
    split at hs <;> cases hs
    exact move_inv h t trivial
  | readClient t =>
    simp only [step] at hs
    split at hs <;> cases hs
    refine move_inv h t ?_
    cases hc : s.client with
    | none => trivial
    | some i => exact h.client i hc
  | dispatch t env =>
    simp only [step] at hs
    split at hs <;> try contradiction
    · split at hs <;> cases hs
      next c hc => exact callClient_inv h t env _ hc
    · cases hs
      exact callOneShot_inv h t env _
  | abandon t =>
    simp only [step] at hs
    split at hs <;> cases hs <;> exact move_inv h t trivial
  | elsewhere env mode =>
    simp only [step] at hs
    split at hs <;> cases hs
    next a w hb =>
      have hold : ∀ e ∈ s.world.builds, e ∈ w.builds := by
        rw [(buildAgent_ok hb).1]
        exact fun e he => List.mem_cons_of_mem _ he
      exact ⟨fun c hc => owns_mono hold (h.owns c hc), h.client, h.phase,
        fun v a hv m hm => hold _ (h.calls v a hv m hm)⟩
    · exact h

theorem start_inv {c : RustClient} {w : World} (h : c.Owns w) : Inv (start c w) :=
  ⟨by simpa [start] using h, by simp [start], fun _ => trivial, by simp [start]⟩

/-- A thread that is about to call into Rust can always do so. -/
theorem dispatch_enabled {s : State} (h : Inv s) {t : ℕ} {v : PyVal} {c : Option ℕ}
    (hp : s.phase t = .dispatching v c) (env : TlsEnv) :
    ∃ u, step s (.dispatch t env) = some u := by
  cases c with
  | none => exact ⟨_, by simp only [step, hp]; rfl⟩
  | some i =>
    have hi : i < s.clients.length := by simpa only [hp, PhaseOk] using h.phase t
    exact ⟨s.callClient t env v i s.clients[i], by simp [step, hp, List.getElem?_eq_getElem hi]⟩

/-- Without other threads in between, the three steps of a request leave the client and the
world that `Session.request` leaves. -/
theorem request_steps {b : Builtins} {p : Platform} {env : TlsEnv} {session : Session b.lower}
    {method url : Text} {kw merged : Kwargs b.lower} {args : RustArgs} {call : CallArgs}
    (hmerge : session.merge b kw = .ok merged)
    (hprep : prepare b (b.upper method) url merged = .ok args)
    (hcall : extractArgs args = .ok call) {s : State} {t i : ℕ} {c : RustClient}
    (hidle : s.phase t = .idle) (hverify : session.verify = s.verify) (hclient : s.client = some i)
    (hi : s.clients[i]? = some c) (hc : session.client = some c) :
    ∃ u, run step s [.merge t kw.verify, .readClient t, .dispatch t env] = some u ∧
      u.clients[i]? = (session.request b p env s.world method url kw).client ∧
      u.world = (session.request b p env s.world method url kw).world := by
  have hlen : i < s.clients.length := (List.getElem?_eq_some_iff.mp hi).1
  have hargs : args.verify = kw.verify.getD s.verify := by
    rw [(prepare_spec hprep).verify, (merge_spec hmerge).verify, hverify, Option.getD_some]
  obtain ⟨hleft, hworld⟩ := RustClient.request_selects (p := p) (w := s.world) (c := c) hcall
  have hrequest : (session.request b p env s.world method url kw).client =
      (c.request p env s.world args).client ∧
      (session.request b p env s.world method url kw).world =
        (c.request p env s.world args).world := by
    unfold Session.request dispatch
    simp only [hmerge, hprep, hc, callRust, and_self]
  let v := kw.verify.getD s.verify
  let s₁ := s.move t (.merged v)
  let s₂ := s₁.move t (.dispatching v (some i))
  have h₁ : step s (.merge t kw.verify) = some s₁ := by simp only [step, hidle, s₁, v]
  have h₂ : step s₁ (.readClient t) = some s₂ := by
    simp only [step, s₁, s₂, State.move, Function.update_self, hclient]
  have h₃ : step s₂ (.dispatch t env) = some (s₂.callClient t env v i c) := by
    simp only [step, s₁, s₂, State.move, Function.update_self, hi]
  refine ⟨s₂.callClient t env v i c, ?_, ?_, ?_⟩
  · simp only [run, h₁, h₂, h₃, Option.bind_some]
  · rw [hrequest.1, hleft, hargs]
    exact List.getElem?_set_self hlen
  · rw [hrequest.2, hworld, hargs]
    rfl

/-- Without other threads in between, the steps of the setter leave what `Session.setVerify`
leaves, whether the constructor raises or not. -/
theorem setVerify_steps {lower : Text → Text} {env : TlsEnv} {session : Session lower}
    {value : PyVal} {s : State} {t : ℕ} (hidle : s.phase t = .idle) :
    let r := session.setVerify env s.world value
    (∃ e u, r.raised = some e ∧
      run step s [.assign t value, .reread t, .construct t env] = some u ∧
      u.verify = r.session.verify ∧ u.client = s.client ∧
      r.session.client = session.client ∧ u.world = r.world) ∨
    ∃ u i, r.raised = none ∧
      run step s [.assign t value, .reread t, .construct t env, .store t] = some u ∧
      u.verify = r.session.verify ∧ u.client = some i ∧
      u.clients[i]? = r.session.client ∧ u.world = r.world := by
  intro r
  let s₁ : State := { s.move t .assigned with verify := value }
  have h₁ : step s (.assign t value) = some s₁ := by simp only [step, hidle, s₁]
  let s₂ := s₁.move t (.reread value)
  have h₂ : step s₁ (.reread t) = some s₂ := by
    simp only [step, s₁, s₂, State.move, Function.update_self]
  have hphase : s₂.phase t = .reread value := Function.update_self ..
  have hworld : s₂.world = s.world := rfl
  cases hnew : RustClient.new env (pyOption value) none false s.world with
  | error e =>
    have hr : r = ⟨some e, { session with verify := value }, s.world⟩ := by
      simp only [r, Session.setVerify, hnew]
    have h₃ : step s₂ (.construct t env) = some (s₂.move t .idle) := by
      simp only [step, hphase, hworld, hnew]
    rw [hr]
    refine Or.inl ⟨e, s₂.move t .idle, rfl, ?_, rfl, rfl, rfl, rfl⟩
    simp only [run, h₁, h₂, h₃, Option.bind_some]
  | ok q =>
    obtain ⟨c, w⟩ := q
    have hr : r = ⟨none, { session with verify := value, client := some c }, w⟩ := by
      simp only [r, Session.setVerify, hnew]
    let s₃ : State := { s₂.move t (.constructed s₂.clients.length) with
      clients := s₂.clients ++ [c]
      world := w }
    have h₃ : step s₂ (.construct t env) = some s₃ := by
      simp only [step, hphase, hworld, hnew, s₃]
    let s₄ : State := { s₃.move t .idle with client := some s₂.clients.length }
    have h₄ : step s₃ (.store t) = some s₄ := by
      simp only [step, s₃, s₄, State.move, Function.update_self]
    rw [hr]
    refine Or.inr ⟨s₄, s₂.clients.length, rfl, ?_, rfl, rfl, ?_, rfl⟩
    · simp only [run, h₁, h₂, h₃, h₄, Option.bind_some]
    · exact List.getElem?_concat_length

/-- Whatever the setter, `close` and other requests do in between, a request whose merged
`verify` denotes a mode runs on an agent that was built for that mode or ends in an
error, and with `verify=True` never on an agent that skips verification. -/
theorem verify_is_honoured {env : TlsEnv} {w₀ w : World} {c : RustClient}
    (hinit : RustClient.new env (some (.bool true)) none false w₀ = .ok (c, w))
    {acts : List Action} {s : State} (hrun : run step (start c w) acts = some s) :
    (∀ v a, (v, .ok a) ∈ s.calls → ∀ m, VerifyMode.fromPyAny v = .ok m →
      (m, a) ∈ s.world.builds) ∧
    (∀ a, (.bool true, .ok a) ∈ s.calls → a.config.tlsConfig.disableVerification = false) ∧
    (∀ t v d env', s.phase t = .dispatching v d → ∃ u, step s (.dispatch t env') = some u) := by
  have hinv : Inv s :=
    run_invariant (fun _ _ _ => step_inv) (start_inv (RustClient.new_owns hinit).1) hrun
  refine ⟨hinv.calls, ?_, fun t v d env' hp => dispatch_enabled hinv hp env'⟩
  intro a ha
  have hb : (.system, a) ∈ s.world.builds := hinv.calls _ a ha .system rfl
  have hv := s.world.honest _ hb
  simpa using hv

/-- Thread 0 merges `verify=True` and reads the client; thread 1 then assigns an unreadable
bundle, which fails half way, and `False`; thread 2 closes the session. -/
def staleClient : List Action :=
  [.merge 0 none, .readClient 0, .assign 1 (.str []), .reread 1, .construct 1 .noFiles,
    .assign 1 (.bool false), .reread 1, .construct 1 .noFiles, .store 1, .merge 2 none, .close 3,
    .readClient 2, .dispatch 0 .noFiles, .dispatch 2 .noFiles]

theorem verify_is_honoured_stale :
    ∃ c w s, RustClient.new .noFiles (some (.bool true)) none false World.initial = .ok (c, w) ∧
      run step (start c w) staleClient = some s ∧ s.calls.length = 2 ∧
      ∀ a, (.bool true, .ok a) ∈ s.calls → a.config.tlsConfig.disableVerification = false := by
  refine ⟨_, _, _, rfl, rfl, rfl, ?_⟩
  exact (@verify_is_honoured .noFiles World.initial _ _ rfl staleClient _ rfl).2.1

end Pyureq.SessionVerify
