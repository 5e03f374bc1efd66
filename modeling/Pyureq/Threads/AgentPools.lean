import Mathlib.Logic.Function.Basic
import Pyureq.Base.Runs
import Pyureq.Core.Client

/-! Concurrent requests on one `RustClient`. Threads select agents, open connections under
their agent's TLS configuration, and take pooled connections of their agent's pool by a
key that leaves the TLS configuration out. Other clients build agents in between. -/
namespace Pyureq.AgentPools
open Runs

/-- What ureq files an idle connection under. -/
structure PoolKey where
  scheme : Text
  authority : Text
  proxy : Option Text
  deriving DecidableEq

/-- A connection, with the configuration it was opened under and the mode of the request
that opened it. -/
structure Conn where
  tls : TlsConfig
  openedFor : VerifyMode

/-- Where a thread stands in `RustClient.request`. -/
inductive Phase where
  | idle
  | selected (verify : Option PyVal) (agent : Agent)
  | connected (verify : Option PyVal) (agent : Agent) (key : PoolKey) (conn : Conn)

structure State where
  client : RustClient
  world : World
  phase : ℕ → Phase
  /-- Idle connections by pool. -/
  pooled : ℕ → List (PoolKey × Conn)
  /-- Every selection so far: the `verify` argument and the outcome. -/
  requests : List (Option PyVal × Except PyErr Agent)
  /-- Every use of a connection so far: the `verify` argument and the connection. -/
  served : List (Option PyVal × Conn)

def start (c : RustClient) (w : World) : State :=
  ⟨c, w, fun _ => .idle, fun _ => [], [], []⟩

inductive Action where
  | select (t : ℕ) (env : TlsEnv) (verify : Option PyVal)
  | connect (t : ℕ) (key : PoolKey)
  | reuse (t : ℕ) (key : PoolKey) (i : ℕ)
  /-- The connection goes back to the pool of the agent that used it. -/
  | release (t : ℕ)
  | close (t : ℕ)
  | finish (t : ℕ)
  /-- Some other client or one-shot call builds an agent. -/
  | elsewhere (env : TlsEnv) (mode : VerifyMode)

def afterSelect (verify : Option PyVal) : Except PyErr Agent → Phase
  | .ok a => .selected verify a
  | .error _ => .idle

def State.select (s : State) (t : ℕ) (env : TlsEnv) (verify : Option PyVal) : State :=
  let r := s.client.selectAgent env verify s.world
  { s with
    client := r.client
    world := r.world
    phase := Function.update s.phase t (afterSelect verify r.result)
    requests := (verify, r.result) :: s.requests }

/-- The thread starts to use a connection. -/
def State.use (s : State) (t : ℕ) (verify : Option PyVal) (a : Agent) (key : PoolKey)
    (conn : Conn) : State :=
  { s with
    phase := Function.update s.phase t (.connected verify a key conn)
    served := (verify, conn) :: s.served }

def step (s : State) : Action → Option State
  | .select t env verify =>
    match s.phase t with
    | .idle => some (s.select t env verify)
    | _ => none
  | .connect t key =>
    match s.phase t with
    | .selected verify a =>
      match s.client.effectiveMode verify with
      | .ok m => some (s.use t verify a key ⟨a.config.tlsConfig, m⟩)
      | .error _ => none
    | _ => none
  | .reuse t key i =>
    match s.phase t with
    | .selected verify a =>
      match (s.pooled a.pool)[i]? with
      | some (key', conn) =>
        if key' = key then
          some { s.use t verify a key conn with
            pooled := Function.update s.pooled a.pool ((s.pooled a.pool).eraseIdx i) }
        else none
      | none => none
    | _ => none
  | .release t =>
    match s.phase t with
    | .connected verify a key conn =>
      some { s with
        phase := Function.update s.phase t (.selected verify a)
        pooled := Function.update s.pooled a.pool ((key, conn) :: s.pooled a.pool) }
    | _ => none
  | .close t =>
    match s.phase t with
    | .connected verify a _ _ =>
      some { s with phase := Function.update s.phase t (.selected verify a) }
    | _ => none
  | .finish t =>
    match s.phase t with
    | .selected _ _ => some { s with phase := Function.update s.phase t .idle }
    | _ => none
  | .elsewhere env mode =>
    match buildAgent env mode s.world with
    | .ok (_, w) => some { s with world := w }
    | .error _ => some s

/-- The agent was built for the mode that the request asks of the client. -/
def Served (s : State) (verify : Option PyVal) (a : Agent) : Prop :=
  ∃ m, s.client.effectiveMode verify = .ok m ∧ s.client.table m = some a

/-- A connection of a pool was opened by the agent that owns the pool. -/
def Opened (w : World) (pool : ℕ) (conn : Conn) : Prop :=
  ∃ a, (conn.openedFor, a) ∈ w.builds ∧ a.pool = pool ∧ conn.tls = a.config.tlsConfig

def PhaseOk (s : State) : Phase → Prop
  | .idle => True
  | .selected verify a => Served s verify a
  | .connected verify a _ conn => Served s verify a ∧ Opened s.world a.pool conn

structure Inv (s : State) : Prop where
  owns : s.client.Owns s.world
  phase : ∀ t, PhaseOk s (s.phase t)
  pooled : ∀ p, ∀ e ∈ s.pooled p, Opened s.world p e.2
  requests : ∀ v a, (v, .ok a) ∈ s.requests → Served s v a
  served : ∀ v conn, (v, conn) ∈ s.served →
    ∃ a, Served s v a ∧ Opened s.world a.pool conn

/-- How the client and the world may change under an invariant state: entries of the
agent table and of the build record stay. -/
structure Grows (s u : State) : Prop where
  verify_eq : u.client.verify = s.client.verify
  table : ∀ m a, s.client.table m = some a → u.client.table m = some a
  builds : ∀ e ∈ s.world.builds, e ∈ u.world.builds

theorem Grows.of_eq {s u : State} (hc : u.client = s.client) (hw : u.world = s.world) :
    Grows s u := by
  constructor
  · rw [hc]
  · rw [hc]; exact fun _ _ => id
  · rw [hw]; exact fun _ => id

theorem effectiveMode_congr {c d : RustClient} (h : d.verify = c.verify) (v : Option PyVal) :
    d.effectiveMode v = c.effectiveMode v := by
  cases v <;> simp [RustClient.effectiveMode, h]

theorem Served.grow {s u : State} (g : Grows s u) {v : Option PyVal} {a : Agent}
    (h : Served s v a) : Served u v a := by
  obtain ⟨m, hm, ht⟩ := h
  exact ⟨m, (effectiveMode_congr g.verify_eq v).trans hm, g.table m a ht⟩

theorem Opened.grow {s u : State} (g : Grows s u) {p : ℕ} {conn : Conn}
    (h : Opened s.world p conn) : Opened u.world p conn := by
  obtain ⟨a, ha, hp⟩ := h
  exact ⟨a, g.builds _ ha, hp⟩

theorem PhaseOk.grow {s u : State} (g : Grows s u) {p : Phase} (h : PhaseOk s p) :
    PhaseOk u p := by
  cases p with
  | idle => trivial
  | selected v a => exact Served.grow g h
  | connected v a key conn => exact ⟨Served.grow g h.1, Opened.grow g h.2⟩

/-- One thread moves: its new phase is the only one to check. -/
theorem phase_update {s u : State} (h : Inv s) (g : Grows s u) {t : ℕ} {p : Phase}
    (hp : PhaseOk u p) (hu : u.phase = Function.update s.phase t p) :
    ∀ t', PhaseOk u (u.phase t') := by
  intro t'
  rw [hu]
  by_cases ht : t' = t
  · rw [ht, Function.update_self]
    exact hp
  · rw [Function.update_of_ne ht]
    exact (h.phase t').grow g

theorem pooled_update {s u : State} (h : Inv s) (g : Grows s u) {pool : ℕ}
    {l : List (PoolKey × Conn)} (hl : ∀ e ∈ l, Opened u.world pool e.2)
    (hu : u.pooled = Function.update s.pooled pool l) :
    ∀ p, ∀ e ∈ u.pooled p, Opened u.world p e.2 := by
  intro p e he
  rw [hu] at he
  by_cases hp : p = pool
  · subst hp
    rw [Function.update_self] at he
    exact hl e he
  · rw [Function.update_of_ne hp] at he
    exact (h.pooled p e he).grow g

theorem use_inv {s : State} (h : Inv s) {t : ℕ} {v : Option PyVal} {a : Agent} {key : PoolKey}
    {conn : Conn} (hs : Served s v a) (ho : Opened s.world a.pool conn) :
    Inv (s.use t v a key conn) where
  owns := h.owns
  phase := phase_update h (Grows.of_eq rfl rfl) (p := .connected v a key conn) ⟨hs, ho⟩ rfl
  pooled := h.pooled
  requests := h.requests
  served := by
    intro u c hc
    rcases List.mem_cons.mp hc with he | hc
    · obtain ⟨rfl, rfl⟩ := Prod.mk.inj he
      exact ⟨a, hs, ho⟩
    · exact h.served u c hc

theorem select_inv {s : State} (h : Inv s) (t : ℕ) (env : TlsEnv) (v : Option PyVal) :
    Inv (s.select t env v) := by
  have spec := RustClient.selectAgent_spec h.owns env v
  have g : Grows s (s.select t env v) := ⟨spec.verify_eq, spec.keeps, spec.builds⟩
  have hserved : ∀ a, (s.client.selectAgent env v s.world).result = .ok a →
      Served (s.select t env v) v a := by
    intro a ha
    obtain ⟨m, hm, ht⟩ := spec.serves a ha
    exact ⟨m, (effectiveMode_congr spec.verify_eq v).trans hm, ht⟩
  refine ⟨spec.owns, ?_, fun p e he => (h.pooled p e he).grow g, ?_, ?_⟩
  · refine phase_update h g (p := afterSelect v (s.client.selectAgent env v s.world).result) ?_ rfl
    cases hr : (s.client.selectAgent env v s.world).result with
    | ok a => exact hserved a hr
    | error e => trivial
  · intro u a hu
    rcases List.mem_cons.mp hu with he | hu
    · obtain ⟨rfl, hr⟩ := Prod.mk.inj he
      exact hserved a hr.symm
    · exact (h.requests u a hu).grow g
  · intro u conn hu
    obtain ⟨a, ha, ho⟩ := h.served u conn hu
    exact ⟨a, ha.grow g, ho.grow g⟩

theorem step_inv {s u : State} {act : Action} (h : Inv s) (hs : step s act = some u) : Inv u := by
  cases act with
  | select t env v =>
    simp only [step] at hs
    split at hs <;> cases hs
    exact select_inv h t env v
  | connect t key =>
    simp only [step] at hs
    split at hs <;> try contradiction
    next v a hp =>
      split at hs <;> cases hs
      next m hm =>
        have hv : Served s v a := by simpa only [hp, PhaseOk] using h.phase t
        obtain ⟨n, hn, ht⟩ := hv
        obtain rfl := Except.ok.inj (hm.symm.trans hn)
        exact use_inv h ⟨m, hm, ht⟩ ⟨a, h.owns m a ht, rfl, rfl⟩
  | reuse t key i =>
    simp only [step] at hs
    split at hs <;> try contradiction
    next v a hp =>
      split at hs <;> try contradiction
      next key' conn hi =>
        split at hs <;> cases hs
        have hv : Served s v a := by simpa only [hp, PhaseOk] using h.phase t
        have ho := h.pooled a.pool _ (List.mem_of_getElem? hi)
        have hu : Inv (s.use t v a key conn) := use_inv h hv ho
        refine ⟨hu.owns, hu.phase, ?_, hu.requests, hu.served⟩
        exact pooled_update h (Grows.of_eq rfl rfl)
          (fun e he => h.pooled a.pool e (List.mem_of_mem_eraseIdx he)) rfl
  | release t =>
    simp only [step] at hs
    split at hs <;> cases hs
    next v a key conn hp =>
      have hc : Served s v a ∧ Opened s.world a.pool conn := by
        simpa only [hp, PhaseOk] using h.phase t
      refine ⟨h.owns, phase_update h (Grows.of_eq rfl rfl) (p := .selected v a) hc.1 rfl, ?_,
        h.requests, h.served⟩
      refine pooled_update h (Grows.of_eq rfl rfl) ?_ rfl
      intro e he
      rcases List.mem_cons.mp he with rfl | he
      · exact hc.2
      · exact h.pooled a.pool e he
  | close t =>
    simp only [step] at hs
    split at hs <;> cases hs
    next v a key conn hp =>
      have hc : Served s v a ∧ Opened s.world a.pool conn := by
        simpa only [hp, PhaseOk] using h.phase t
      exact ⟨h.owns, phase_update h (Grows.of_eq rfl rfl) (p := .selected v a) hc.1 rfl, h.pooled,
        h.requests, h.served⟩
  | finish t =>
    simp only [step] at hs
    split at hs <;> cases hs
    exact ⟨h.owns, phase_update h (Grows.of_eq rfl rfl) (p := .idle) trivial rfl, h.pooled, h.requests,
      h.served⟩
  | elsewhere env mode =>
    simp only [step] at hs
    split at hs <;> cases hs
    next a w hb =>
      have hw : ∀ e ∈ s.world.builds, e ∈ w.builds := by
        rw [(buildAgent_ok hb).1]
        exact fun e he => List.mem_cons_of_mem _ he
      have g : Grows s { s with world := w } := ⟨rfl, fun _ _ => id, hw⟩
      refine ⟨fun m b hm => hw _ (h.owns m b hm), fun t => (h.phase t).grow g,
        fun p e he => (h.pooled p e he).grow g, fun v b hv => (h.requests v b hv).grow g, ?_⟩
      intro v conn hv
      obtain ⟨b, hb, ho⟩ := h.served v conn hv
      exact ⟨b, hb.grow g, ho.grow g⟩
    · exact h

theorem start_inv {c : RustClient} {w : World} (h : c.Owns w) : Inv (start c w) :=
  ⟨h, fun _ => trivial, by simp [start], by simp [start], by simp [start]⟩

theorem run_inv {c : RustClient} {w : World} (h : c.Owns w) {acts : List Action} {s : State}
    (hrun : run step (start c w) acts = some s) : Inv s :=
  run_invariant (fun _ _ _ => step_inv) (start_inv h) hrun

theorem step_verify {s u : State} {act : Action} (hs : step s act = some u) :
    u.client.verify = s.client.verify := by
  cases act <;> simp only [step] at hs
  case select t env v =>
    split at hs <;> cases hs
    rcases RustClient.selectAgent_cases env v s.client s.world with
      ⟨e, p, hr⟩ | ⟨m, a, -, -, hr⟩ | ⟨m, a, w, -, -, -, hr⟩ <;> simp [State.select, hr]
  all_goals repeat' split at hs
  all_goals first | contradiction | (cases hs; rfl)

theorem run_verify {s u : State} {acts : List Action} (h : run step s acts = some u) :
    u.client.verify = s.client.verify := by
  have htrans : ∀ s t u : State, t.client.verify = s.client.verify →
      u.client.verify = t.client.verify → u.client.verify = s.client.verify :=
    fun _ _ _ hst htu => htu.trans hst
  exact run_relates (R := fun s u => u.client.verify = s.client.verify) (fun _ => rfl) htrans
    (fun _ _ _ => step_verify) h

/-- Agents of the table are equal, and share a pool, exactly for equal modes. -/
theorem table_injective {c : RustClient} {w : World} (h : c.Owns w) {m n : VerifyMode}
    {a b : Agent} (ha : c.table m = some a) (hb : c.table n = some b) :
    (a = b ↔ m = n) ∧ (a.pool = b.pool ↔ m = n) := by
  have hpool : a.pool = b.pool → m = n := fun hp =>
    (World.pool_injective (h m a ha) (h n b hb) hp).1
  have heq : m = n → a = b := by
    rintro rfl
    exact Option.some.inj (ha.symm.trans hb)
  exact ⟨⟨fun hab => hpool (congrArg Agent.pool hab), heq⟩,
    ⟨hpool, fun hmn => congrArg Agent.pool (heq hmn)⟩⟩

/-- Over every schedule of requests on one client: a request is served by an agent built
for exactly its effective mode, two requests share an agent and a pool exactly when their
modes are equal, a failed selection leaves the agent table alone, and a connection only
ever serves the mode it was opened for, unverified exactly under `verify=False`. -/
theorem agents_follow_modes {env : TlsEnv} {verify : Option PyVal} {timeout : Option PyFloat}
    {noProxyAll : Bool} {w₀ w : World} {c : RustClient}
    (hnew : RustClient.new env verify timeout noProxyAll w₀ = .ok (c, w))
    {acts : List Action} {s : State} (hrun : run step (start c w) acts = some s) :
    (∀ v a, (v, .ok a) ∈ s.requests →
      ∃ m, c.effectiveMode v = .ok m ∧ (m, a) ∈ s.world.builds) ∧
    (∀ v a u b, (v, .ok a) ∈ s.requests → (u, .ok b) ∈ s.requests →
      (a = b ↔ c.effectiveMode v = c.effectiveMode u) ∧
      (a.pool = b.pool ↔ c.effectiveMode v = c.effectiveMode u)) ∧
    (∀ t env v u e, step s (.select t env v) = some u →
      (s.client.selectAgent env v s.world).result = .error e →
      ∀ m, u.client.table m = s.client.table m) ∧
    (∀ v conn, (v, conn) ∈ s.served → c.effectiveMode v = .ok conn.openedFor ∧
      (conn.tls.disableVerification = true ↔ conn.openedFor = .none)) := by
  have hinv := run_inv (RustClient.new_owns hnew).1 hrun
  have hmode : ∀ v, s.client.effectiveMode v = c.effectiveMode v :=
    effectiveMode_congr (run_verify hrun)
  refine ⟨?_, ?_, ?_, ?_⟩
  · intro v a hv
    obtain ⟨m, hm, ht⟩ := hinv.requests v a hv
    exact ⟨m, (hmode v).symm.trans hm, hinv.owns m a ht⟩
  · intro v a u b hv hu
    obtain ⟨m, hm, ha⟩ := hinv.requests v a hv
    obtain ⟨n, hn, hb⟩ := hinv.requests u b hu
    have h := table_injective hinv.owns ha hb
    rw [(hmode v).symm.trans hm, (hmode u).symm.trans hn, Except.ok.injEq]
    exact h
  · intro t env v u e hu he m
    simp only [step] at hu
    split at hu <;> cases hu
    exact (RustClient.selectAgent_spec hinv.owns env v).fails e he m
  · intro v conn hv
    obtain ⟨a, ⟨m, hm, ht⟩, ⟨b, hb, hpool, htls⟩⟩ := hinv.served v conn hv
    have hab := World.pool_injective (hinv.owns m a ht) hb hpool.symm
    refine ⟨?_, ?_⟩
    · rw [← hab.1]
      exact (hmode v).symm.trans hm
    · rw [htls]
      exact s.world.honest _ hb

/-- An unverified request of thread 0 pools its connection while thread 1 selects the
default agent and connects; thread 2 asks for an unreadable CA bundle. -/
def unverifiedThenVerified : List Action :=
  [.select 0 .noFiles (some (.bool false)), .connect 0 ⟨[], [], none⟩, .select 1 .noFiles none,
    .release 0, .connect 1 ⟨[], [], none⟩, .select 2 .noFiles (some (.str []))]

theorem agents_follow_modes_interleaved :
    ∃ c w s, RustClient.new .noFiles (some (.bool true)) none false World.initial = .ok (c, w) ∧
      run step (start c w) unverifiedThenVerified = some s ∧
      s.requests.length = 3 ∧ s.served.length = 2 ∧
      ∀ v conn, (v, conn) ∈ s.served → c.effectiveMode v = .ok conn.openedFor ∧
        (conn.tls.disableVerification = true ↔ conn.openedFor = .none) := by
  refine ⟨_, _, _, rfl, rfl, rfl, rfl, ?_⟩
  exact (@agents_follow_modes .noFiles (some (.bool true)) none false World.initial _ _ rfl
    unverifiedThenVerified _ rfl).2.2.2

end Pyureq.AgentPools
