import Pyureq.Threads.AgentPools

/-! The selection of an agent, lock step by lock step. `AgentPools` takes it as one step; here
the lock on `overrides` is taken, the table looked up, an agent built, inserted and the lock
dropped in steps of their own, with steps of all other threads between them. Every schedule of
these steps is matched by one of `AgentPools`. -/
namespace Pyureq.OverridesLock
open Runs RustClient

/-- Where a thread stands in the `match verify` of `RustClient::request`. -/
inductive Section where
  | out
  /-- In `self.overrides.lock()`. -/
  | waiting (verify : Option PyVal) (mode : VerifyMode)
  /-- It has the lock. -/
  | holding (verify : Option PyVal) (mode : VerifyMode)
  /-- `cache.get` found nothing. -/
  | missed (verify : Option PyVal) (mode : VerifyMode)
  | built (verify : Option PyVal) (mode : VerifyMode) (agent : Agent)
  /-- The outcome is settled and the guard not dropped yet. -/
  | leaving (verify : Option PyVal) (result : Except PyErr Agent)

def Section.inside : Section → Bool
  | .out | .waiting _ _ => false
  | _ => true

structure State where
  base : AgentPools.State
  place : ℕ → Section
  holder : Option ℕ

def start (c : RustClient) (w : World) : State :=
  ⟨AgentPools.start c w, fun _ => .out, none⟩

inductive Action where
  | enter (t : ℕ) (verify : Option PyVal)
  | acquire (t : ℕ)
  | lookup (t : ℕ)
  | build (t : ℕ) (env : TlsEnv)
  | insert (t : ℕ)
  | leave (t : ℕ)
  /-- Anything that threads do outside the selection. -/
  | outside (act : AgentPools.Action)

/-- A panic unwinds through the guard. -/
def panicked : Except PyErr Agent → Bool
  | .error e => e.cls = .panicException
  | .ok _ => false

def State.move (s : State) (t : ℕ) (p : Section) : State :=
  { s with place := Function.update s.place t p }

/-- The selection is over for the thread. -/
def State.answer (s : State) (t : ℕ) (verify : Option PyVal) (r : Except PyErr Agent) : State :=
  { s with
    base := { s.base with
      phase := Function.update s.base.phase t (AgentPools.afterSelect verify r)
      requests := (verify, r) :: s.base.requests }
    place := Function.update s.place t .out }

def State.setOverrides (s : State) (o : Mutex (OrderedMap VerifyMode Agent)) : State :=
  { s with base := { s.base with client := { s.base.client with overrides := o } } }

def step (s : State) : Action → Option State
  | .enter t verify =>
    match s.place t, s.base.phase t with
    | .out, .idle =>
      match verify with
      | none => some (s.answer t none (.ok s.base.client.agent))
      | some v =>
        match VerifyMode.fromPyAny v with
        | .error e => some (s.answer t (some v) (.error e))
        | .ok m =>
          if m = s.base.client.verify then some (s.answer t (some v) (.ok s.base.client.agent))
          else some (s.move t (.waiting (some v) m))
    | _, _ => none
  | .acquire t =>
    match s.place t, s.holder with
    | .waiting v m, none =>
      -- the error of a poisoned lock holds the guard until it is dropped
      if s.base.client.overrides.poisoned then
        some { s.move t (.leaving v (.error poisonError)) with holder := some t }
      else some { s.move t (.holding v m) with holder := some t }
    | _, _ => none
  | .lookup t =>
    match s.place t with
    | .holding v m =>
      match s.base.client.overrides.data.get? m with
      | some a => some (s.move t (.leaving v (.ok a)))
      | none => some (s.move t (.missed v m))
    | _ => none
  | .build t env =>
    match s.place t with
    | .missed v m =>
      match buildAgent env m s.base.world with
      | .error e => some (s.move t (.leaving v (.error e)))
      | .ok (a, w) => some { s.move t (.built v m a) with base := { s.base with world := w } }
    | _ => none
  | .insert t =>
    match s.place t with
    | .built v m a =>
      let o := s.base.client.overrides
      some ((s.move t (.leaving v (.ok a))).setOverrides ⟨o.data.insert m a, o.poisoned⟩)
    | _ => none
  | .leave t =>
    match s.place t with
    | .leaving v r =>
      let o := s.base.client.overrides
      some { (s.setOverrides ⟨o.data, o.poisoned || panicked r⟩).answer t v r with holder := none }
    | _ => none
  | .outside act =>
    match act with
    | .select _ _ _ => none
    | act => (AgentPools.step s.base act).map fun base => { s with base }

/-- The mode calls for the override table. -/
def Overrides (c : RustClient) (v : Option PyVal) (m : VerifyMode) : Prop :=
  ∃ x, v = some x ∧ VerifyMode.fromPyAny x = .ok m ∧ m ≠ c.verify

/-- The lock is held by the one thread that is inside, and it is sound and without an entry of
the mode until an agent is inserted. -/
def PlaceOk (s : State) (t : ℕ) : Section → Prop
  | .out => s.holder ≠ some t
  | .waiting v m =>
    s.holder ≠ some t ∧ s.base.phase t = .idle ∧ Overrides s.base.client v m
  | .holding v m => s.holder = some t ∧ s.base.phase t = .idle ∧ Overrides s.base.client v m ∧
    s.base.client.overrides.poisoned = false
  | .missed v m | .built v m _ =>
    s.holder = some t ∧ s.base.phase t = .idle ∧ Overrides s.base.client v m ∧
      s.base.client.overrides.poisoned = false ∧ s.base.client.overrides.data.get? m = none
  | .leaving _ _ => s.holder = some t ∧ s.base.phase t = .idle

def Inv (s : State) : Prop := ∀ t, PlaceOk s t (s.place t)

/-- The client as the selection leaves it, once its outcome is settled. -/
def State.client (s : State) : RustClient :=
  let o := s.base.client.overrides
  match s.holder.map s.place with
  | some (.built _ m a) => { s.base.client with overrides := ⟨o.data.insert m a, o.poisoned⟩ }
  | some (.leaving _ r) => { s.base.client with overrides := ⟨o.data, o.poisoned || panicked r⟩ }
  | _ => s.base.client

/-- The thread's phase, once the outcome of its selection is settled. -/
def State.phase (s : State) (t : ℕ) : AgentPools.Phase :=
  match s.place t with
  | .built v _ a => .selected v a
  | .leaving v r => AgentPools.afterSelect v r
  | _ => s.base.phase t

/-- The settled selection that is not over yet. -/
def State.settled (s : State) : List (Option PyVal × Except PyErr Agent) :=
  match s.holder.map s.place with
  | some (.built v _ a) => [(v, .ok a)]
  | some (.leaving v r) => [(v, r)]
  | _ => []

/-- What the lock steps have settled is what the one-step selections have done. -/
structure Abs (s : State) (u : AgentPools.State) : Prop where
  client : u.client = s.client
  world : u.world = s.base.world
  phase : u.phase = s.phase
  pooled : u.pooled = s.base.pooled
  served : u.served = s.base.served
  requests : u.requests.Perm (s.settled ++ s.base.requests)

section Selection
variable {c : RustClient} {v : Option PyVal} {m : VerifyMode}

theorem Overrides.effective (h : Overrides c v m) : c.effectiveMode v = .ok m := by
  obtain ⟨x, rfl, hm, -⟩ := h
  exact hm

theorem Overrides.differs (h : Overrides c v m) : m ≠ c.verify := by
  obtain ⟨x, -, -, hne⟩ := h
  exact hne

end Selection

section Invariant
variable {s u : State} {t : ℕ}

/-- What other threads do matters little to a thread outside the lock, and nothing changes the
overrides while a thread is inside. -/
theorem PlaceOk.mono {p : Section} (h : PlaceOk s t p)
    (hholder : u.holder = some t ↔ s.holder = some t)
    (hphase : u.base.phase t = s.base.phase t)
    (hverify : u.base.client.verify = s.base.client.verify)
    (hoverrides : s.holder = some t → u.base.client.overrides = s.base.client.overrides) :
    PlaceOk u t p := by
  have hmode : ∀ v m, Overrides s.base.client v m → Overrides u.base.client v m := by
    rintro v m ⟨x, hv, hm, hne⟩
    exact ⟨x, hv, hm, hverify ▸ hne⟩
  cases p with
  | out => exact fun hu => h (hholder.mp hu)
  | waiting v m =>
    obtain ⟨hout, hidle, hm⟩ := h
    exact ⟨fun hu => hout (hholder.mp hu), hphase ▸ hidle, hmode v m hm⟩
  | holding v m =>
    obtain ⟨hin, hidle, hm, hp⟩ := h
    exact ⟨hholder.mpr hin, hphase ▸ hidle, hmode v m hm, hoverrides hin ▸ hp⟩
  | missed v m =>
    obtain ⟨hin, hidle, hm, hp, hg⟩ := h
    exact ⟨hholder.mpr hin, hphase ▸ hidle, hmode v m hm, hoverrides hin ▸ hp, hoverrides hin ▸ hg⟩
  | built v m a =>
    obtain ⟨hin, hidle, hm, hp, hg⟩ := h
    exact ⟨hholder.mpr hin, hphase ▸ hidle, hmode v m hm, hoverrides hin ▸ hp, hoverrides hin ▸ hg⟩
  | leaving v r => exact ⟨hholder.mpr h.1, hphase ▸ h.2⟩

theorem inside_holder {p : Section} (h : PlaceOk s t p) (hp : p.inside = true) :
    s.holder = some t := by
  cases p <;> first | contradiction | exact h.1

theorem holder_inside (h : Inv s) (ht : s.holder = some t) : (s.place t).inside = true := by
  have hok := h t
  revert hok
  cases s.place t with
  | out => exact fun hout => absurd ht hout
  | waiting v m => exact fun hout => absurd ht hout.1
  | _ => exact fun _ => rfl

/-- Steps of one thread that change the lock, the phases and the overrides for it alone. -/
theorem inv_move {p : Section} (h : Inv s) (hplace : u.place = Function.update s.place t p)
    (hp : PlaceOk u t p) (hholder : ∀ t', t' ≠ t → (u.holder = some t' ↔ s.holder = some t'))
    (hphase : ∀ t', t' ≠ t → u.base.phase t' = s.base.phase t')
    (hverify : u.base.client.verify = s.base.client.verify)
    (hoverrides : ∀ t', t' ≠ t → s.holder = some t' →
      u.base.client.overrides = s.base.client.overrides) : Inv u := by
  intro t'
  rw [hplace]
  by_cases ht : t' = t
  · subst ht
    rw [Function.update_self]
    exact hp
  · rw [Function.update_of_ne ht]
    exact (h t').mono (hholder t' ht) (hphase t' ht) hverify (hoverrides t' ht)

/-- A thread in the selection is idle as far as the rest is concerned. -/
theorem phase_idle {p : Section} (h : PlaceOk s t p) (hp : p ≠ .out) :
    s.base.phase t = .idle := by
  cases p with
  | out => exact absurd rfl hp
  | leaving v r => exact h.2
  | _ => exact h.2.1

end Invariant

/-- Whatever one-step selections have done, some more of them do what the step has settled. -/
def Matched (s u : State) : Prop :=
  ∀ x, Abs s x → ∃ as x', run AgentPools.step x as = some x' ∧ Abs u x'

section Matching
variable {s u : State} {t : ℕ}

/-- A step that settles nothing. -/
theorem matched_silent (hclient : u.client = s.client) (hphase : u.phase = s.phase)
    (hworld : u.base.world = s.base.world) (hpooled : u.base.pooled = s.base.pooled)
    (hserved : u.base.served = s.base.served)
    (hrequests : u.settled ++ u.base.requests = s.settled ++ s.base.requests) : Matched s u := by
  intro x h
  refine ⟨[], x, rfl, ?_⟩
  exact ⟨h.client.trans hclient.symm, h.world.trans hworld.symm, h.phase.trans hphase.symm,
    h.pooled.trans hpooled.symm, h.served.trans hserved.symm, hrequests ▸ h.requests⟩

/-- A step that settles a selection. -/
theorem matched_select (env : TlsEnv) {v : Option PyVal} {r : Except PyErr Agent}
    (hidle : s.phase t = .idle)
    (hselect : s.client.selectAgent env v s.base.world = ⟨r, u.client, u.base.world⟩)
    (hphase : u.phase = Function.update s.phase t (AgentPools.afterSelect v r))
    (hpooled : u.base.pooled = s.base.pooled) (hserved : u.base.served = s.base.served)
    (hrequests : (u.settled ++ u.base.requests).Perm
      ((v, r) :: (s.settled ++ s.base.requests))) : Matched s u := by
  intro x h
  rw [← h.client, ← h.world] at hselect
  refine ⟨[.select t env v], x.select t env v, ?_, ?_⟩
  · rw [run, AgentPools.step, h.phase, hidle]
    rfl
  · constructor
    · rw [AgentPools.State.select, hselect]
    · rw [AgentPools.State.select, hselect]
    · rw [AgentPools.State.select, hselect, h.phase, hphase]
    · exact h.pooled.trans hpooled.symm
    · exact h.served.trans hserved.symm
    · rw [AgentPools.State.select, hselect]
      exact (h.requests.cons _).trans hrequests.symm

theorem holder_place (h : s.holder ≠ some t) (p : Section) :
    s.holder.map (Function.update s.place t p) = s.holder.map s.place := by
  cases hh : s.holder with
  | none => rfl
  | some t' =>
    have ht : t' ≠ t := by
      rintro rfl
      exact h hh
    rw [Option.map_some, Option.map_some, Function.update_of_ne ht]

theorem client_agent (s : State) :
    s.client.agent = s.base.client.agent ∧ s.client.verify = s.base.client.verify := by
  unfold State.client
  split <;> exact ⟨rfl, rfl⟩

theorem phase_silent {p : Section} (hplace : u.place = Function.update s.place t p)
    (hbase : u.base.phase = s.base.phase) (hp : u.phase t = s.phase t) : u.phase = s.phase := by
  funext t'
  by_cases ht : t' = t
  · rw [ht, hp]
  · rw [State.phase, State.phase, hplace, Function.update_of_ne ht, hbase]

theorem phase_select {p : Section} {v : Option PyVal} {r : Except PyErr Agent}
    (hplace : u.place = Function.update s.place t p) (hbase : u.base.phase = s.base.phase)
    (hp : u.phase t = AgentPools.afterSelect v r) :
    u.phase = Function.update s.phase t (AgentPools.afterSelect v r) := by
  funext t'
  by_cases ht : t' = t
  · subst ht
    rw [hp, Function.update_self]
  · rw [Function.update_of_ne ht, State.phase, State.phase, hplace, Function.update_of_ne ht, hbase]

end Matching

section Steps
variable {s u : State} {t : ℕ}

/-- A selection that does not need the lock. -/
theorem answer_step (h : Inv s) {v : Option PyVal} {r : Except PyErr Agent}
    (hplace : s.place t = .out) (hidle : s.base.phase t = .idle)
    (hselect : s.client.selectAgent .noFiles v s.base.world = ⟨r, s.client, s.base.world⟩) :
    Inv (s.answer t v r) ∧ Matched s (s.answer t v r) := by
  have hout : s.holder ≠ some t := by
    have hok := h t
    rwa [hplace] at hok
  have hmap : (s.answer t v r).holder.map (s.answer t v r).place = s.holder.map s.place :=
    holder_place hout .out
  have hclient : (s.answer t v r).client = s.client := by
    unfold State.client
    rw [hmap]
    rfl
  have hsettled : (s.answer t v r).settled = s.settled := by
    unfold State.settled
    rw [hmap]
  constructor
  · refine inv_move h (p := .out) rfl hout (fun _ _ => Iff.rfl) ?_ rfl (fun _ _ _ => rfl)
    exact fun t' ht => Function.update_of_ne ht _ _
  · refine matched_select _ (t := t) ?_ (hselect.trans (by rw [hclient]; rfl)) ?_ rfl rfl ?_
    · rw [State.phase, hplace]
      exact hidle
    · funext t'
      by_cases ht : t' = t
      · subst ht
        simp only [State.phase, State.answer, Function.update_self]
      · simp only [State.phase, State.answer, Function.update_of_ne ht]
    · rw [hsettled]
      exact List.perm_middle

theorem enter_step (h : Inv s) {v : Option PyVal} (hs : step s (.enter t v) = some u) :
    Inv u ∧ Matched s u := by
  obtain ⟨hagent, hverify⟩ := client_agent s
  simp only [step] at hs
  split at hs <;> try contradiction
  next hplace hidle =>
  have hout : s.holder ≠ some t := by
    have hok := h t
    rwa [hplace] at hok
  split at hs
  · obtain rfl := Option.some.inj hs
    exact answer_step h hplace hidle (by rw [selectAgent, hagent])
  next v =>
  split at hs
  next e hmode =>
    obtain rfl := Option.some.inj hs
    exact answer_step h hplace hidle (by rw [selectAgent, hmode])
  next m hmode =>
  split at hs <;> obtain rfl := Option.some.inj hs
  next hm =>
    refine answer_step h hplace hidle ?_
    rw [selectAgent, hmode, hverify, hagent]
    exact if_pos hm
  next hm =>
    constructor
    · refine inv_move h (p := .waiting (some v) m) rfl ?_ (fun _ _ => Iff.rfl) (fun _ _ => rfl) rfl
        (fun _ _ _ => rfl)
      exact ⟨hout, hidle, v, rfl, hmode, hm⟩
    · have hmap : (s.move t (.waiting (some v) m)).holder.map
          (s.move t (.waiting (some v) m)).place = s.holder.map s.place := holder_place hout _
      refine matched_silent ?_ ?_ rfl rfl rfl ?_
      · unfold State.client
        rw [hmap]
        rfl
      · refine phase_silent rfl rfl ?_
        simp only [State.phase, State.move, Function.update_self, hplace]
      · unfold State.settled
        rw [hmap]
        rfl

theorem acquire_step (h : Inv s) (hs : step s (.acquire t) = some u) : Inv u ∧ Matched s u := by
  simp only [step] at hs
  split at hs <;> try contradiction
  next v m hplace hfree =>
  obtain ⟨-, hidle, hmode⟩ : PlaceOk s t (.waiting v m) := hplace ▸ h t
  have hclient : s.client = s.base.client := by simp only [State.client, hfree, Option.map_none]
  have hsettled : s.settled = [] := by simp only [State.settled, hfree, Option.map_none]
  have hholder : ∀ t', t' ≠ t → (some t = some t' ↔ s.holder = some t') := by
    intro t' ht
    rw [hfree]
    simp [Ne.symm ht]
  have hothers : ∀ t', s.holder ≠ some t' := by simp [hfree]
  split at hs <;> obtain rfl := Option.some.inj hs
  next hp =>
    constructor
    · exact inv_move h (p := .leaving v (.error poisonError)) rfl ⟨rfl, hidle⟩ hholder
        (fun _ _ => rfl) rfl (fun t' _ ht => absurd ht (hothers t'))
    · refine matched_select .noFiles (t := t) (v := v) (r := .error poisonError)
        ?_ ?_ ?_ rfl rfl ?_
      · rw [State.phase, hplace]
        exact hidle
      · rw [hclient, selectAgent_poisoned hmode.effective hmode.differs hp]
        simp only [State.client, State.move, Option.map_some, Function.update_self, hp,
          Bool.true_or]
        rw [← hp]
      · refine phase_select rfl rfl ?_
        simp only [State.phase, State.move, Function.update_self]
      · rw [hsettled]
        simp only [State.settled, State.move, Option.map_some, Function.update_self]
        exact List.Perm.refl _
  next hp =>
    have hp' : s.base.client.overrides.poisoned = false := by simpa using hp
    constructor
    · exact inv_move h (p := .holding v m) rfl ⟨rfl, hidle, hmode, hp'⟩ hholder
        (fun _ _ => rfl) rfl (fun t' _ ht => absurd ht (hothers t'))
    · refine matched_silent ?_ ?_ rfl rfl rfl ?_
      · rw [hclient]
        simp only [State.client, State.move, Option.map_some, Function.update_self]
      · refine phase_silent rfl rfl ?_
        simp only [State.phase, State.move, Function.update_self, hplace]
      · rw [hsettled]
        simp only [State.settled, State.move, Option.map_some, Function.update_self]

/-- The holder moves on inside the lock. -/
theorem inv_inside (h : Inv s) {p : Section} (ht : s.holder = some t)
    (hplace : u.place = Function.update s.place t p) (hp : PlaceOk u t p)
    (hholder : u.holder = s.holder) (hphase : u.base.phase = s.base.phase)
    (hverify : u.base.client.verify = s.base.client.verify) : Inv u := by
  refine inv_move h hplace hp (fun _ _ => by rw [hholder]) (fun _ _ => by rw [hphase]) hverify ?_
  intro t' hne ht'
  exact absurd (Option.some.inj (ht'.symm.trans ht)) hne

theorem lookup_step (h : Inv s) (hs : step s (.lookup t) = some u) : Inv u ∧ Matched s u := by
  simp only [step] at hs
  split at hs <;> try contradiction
  next v m hplace =>
  obtain ⟨ht, hidle, hmode, hp⟩ : PlaceOk s t (.holding v m) := hplace ▸ h t
  have hclient : s.client = s.base.client := by
    simp only [State.client, ht, Option.map_some, hplace]
  have hsettled : s.settled = [] := by simp only [State.settled, ht, Option.map_some, hplace]
  split at hs <;> obtain rfl := Option.some.inj hs
  next a ha =>
    constructor
    · exact inv_inside h (p := .leaving v (.ok a)) ht rfl ⟨ht, hidle⟩ rfl rfl rfl
    · refine matched_select .noFiles (t := t) (v := v) (r := .ok a) ?_ ?_ ?_ rfl rfl ?_
      · rw [State.phase, hplace]
        exact hidle
      · rw [hclient, selectAgent_override hmode.effective hmode.differs hp, ha]
        simp only [State.client, State.move, ht, Option.map_some, Function.update_self, panicked,
          Bool.or_false]
      · refine phase_select rfl rfl ?_
        simp only [State.phase, State.move, Function.update_self]
      · rw [hsettled]
        simp only [State.settled, State.move, ht, Option.map_some, Function.update_self]
        exact List.Perm.refl _
  next hnone =>
    constructor
    · exact inv_inside h (p := .missed v m) ht rfl ⟨ht, hidle, hmode, hp, hnone⟩ rfl rfl rfl
    · refine matched_silent ?_ ?_ rfl rfl rfl ?_
      · rw [hclient]
        simp only [State.client, State.move, ht, Option.map_some, Function.update_self]
      · refine phase_silent rfl rfl ?_
        simp only [State.phase, State.move, Function.update_self, hplace]
      · rw [hsettled]
        simp only [State.settled, State.move, ht, Option.map_some, Function.update_self]

theorem build_step (h : Inv s) {env : TlsEnv} (hs : step s (.build t env) = some u) :
    Inv u ∧ Matched s u := by
  simp only [step] at hs
  split at hs <;> try contradiction
  next v m hplace =>
  obtain ⟨ht, hidle, hmode, hp, hnone⟩ : PlaceOk s t (.missed v m) := hplace ▸ h t
  have hclient : s.client = s.base.client := by
    simp only [State.client, ht, Option.map_some, hplace]
  have hsettled : s.settled = [] := by simp only [State.settled, ht, Option.map_some, hplace]
  have hphase : s.phase t = .idle := by
    rw [State.phase, hplace]
    exact hidle
  split at hs <;> obtain rfl := Option.some.inj hs
  next e hbuild =>
    constructor
    · exact inv_inside h (p := .leaving v (.error e)) ht rfl ⟨ht, hidle⟩ rfl rfl rfl
    · refine matched_select env (v := v) (r := .error e) hphase ?_ ?_ rfl rfl ?_
      · rw [hclient, selectAgent_override hmode.effective hmode.differs hp, hnone]
        simp only [hbuild, State.client, State.move, ht, Option.map_some, Function.update_self,
          panicked, hp, Bool.false_or]
      · refine phase_select rfl rfl ?_
        simp only [State.phase, State.move, Function.update_self]
      · rw [hsettled]
        simp only [State.settled, State.move, ht, Option.map_some, Function.update_self]
        exact List.Perm.refl _
  next a w hbuild =>
    constructor
    · exact inv_inside h (p := .built v m a) ht rfl ⟨ht, hidle, hmode, hp, hnone⟩ rfl rfl rfl
    · refine matched_select env (v := v) (r := .ok a) hphase ?_ ?_ rfl rfl ?_
      · rw [hclient, selectAgent_override hmode.effective hmode.differs hp, hnone]
        simp only [hbuild, State.client, State.move, ht, Option.map_some, Function.update_self, hp]
      · refine phase_select rfl rfl ?_
        simp only [State.phase, State.move, Function.update_self, AgentPools.afterSelect]
      · rw [hsettled]
        simp only [State.settled, State.move, ht, Option.map_some, Function.update_self]
        exact List.Perm.refl _

theorem insert_step (h : Inv s) (hs : step s (.insert t) = some u) : Inv u ∧ Matched s u := by
  simp only [step] at hs
  split at hs <;> try contradiction
  next v m a hplace =>
  obtain ⟨ht, hidle, -⟩ : PlaceOk s t (.built v m a) := hplace ▸ h t
  obtain rfl := Option.some.inj hs
  constructor
  · exact inv_inside h (p := .leaving v (.ok a)) ht rfl ⟨ht, hidle⟩ rfl rfl rfl
  · refine matched_silent ?_ ?_ rfl rfl rfl ?_
    · simp only [State.client, State.move, State.setOverrides, ht, Option.map_some,
        Function.update_self, hplace, panicked, Bool.or_false]
    · refine phase_silent rfl rfl ?_
      simp only [State.phase, State.move, State.setOverrides, Function.update_self, hplace,
        AgentPools.afterSelect]
    · simp only [State.settled, State.move, State.setOverrides, ht, Option.map_some,
        Function.update_self, hplace]

theorem leave_step (h : Inv s) (hs : step s (.leave t) = some u) : Inv u ∧ Matched s u := by
  simp only [step] at hs
  split at hs <;> try contradiction
  next v r hplace =>
  obtain ⟨ht, hidle⟩ : PlaceOk s t (.leaving v r) := hplace ▸ h t
  obtain rfl := Option.some.inj hs
  constructor
  · refine inv_move h (p := .out) rfl ?_ ?_ ?_ rfl ?_
    · exact fun hnone => nomatch hnone
    · intro t' hne
      rw [ht]
      simp [Ne.symm hne]
    · exact fun t' hne => Function.update_of_ne hne _ _
    · intro t' hne ht'
      exact absurd (Option.some.inj (ht'.symm.trans ht)) hne
  · refine matched_silent ?_ ?_ rfl rfl rfl ?_
    · simp only [State.client, State.answer, State.setOverrides, ht, Option.map_some,
        Option.map_none, hplace]
    · funext t'
      by_cases hne : t' = t
      · subst hne
        simp only [State.phase, State.answer, State.setOverrides, Function.update_self, hplace]
      · simp only [State.phase, State.answer, State.setOverrides, Function.update_of_ne hne]
    · simp only [State.settled, State.answer, State.setOverrides, ht, Option.map_some,
        Option.map_none, hplace]
      rfl

/-- Outside the selection no step touches the client, the log of selections or an idle thread. -/
theorem step_frame {x y : AgentPools.State} {act : AgentPools.Action}
    (hact : ∀ t env v, act ≠ .select t env v) (hs : AgentPools.step x act = some y) :
    y.client = x.client ∧ y.requests = x.requests ∧
      ∀ t, x.phase t = .idle → y.phase t = .idle := by
  have hupdate : ∀ {t : ℕ} {p : AgentPools.Phase}, x.phase t ≠ .idle → ∀ t', x.phase t' = .idle →
      Function.update x.phase t p t' = .idle := by
    intro t p hp t' ht'
    rw [Function.update_of_ne, ht']
    rintro rfl
    exact hp ht'
  cases act with
  | select t env v => exact absurd rfl (hact t env v)
  | elsewhere env mode =>
    simp only [AgentPools.step] at hs
    split at hs <;> cases hs <;> exact ⟨rfl, rfl, fun _ => id⟩
  | _ =>
    simp only [AgentPools.step] at hs
    repeat' split at hs
    all_goals first
      | contradiction
      | (cases hs; refine ⟨rfl, rfl, hupdate ?_⟩; simp [*])

theorem outside_inv (h : Inv s) {act : AgentPools.Action} (hact : ∀ t env v, act ≠ .select t env v)
    {base : AgentPools.State} (hs : AgentPools.step s.base act = some base) :
    Inv { s with base := base } := by
  obtain ⟨hclient, -, hidle⟩ := step_frame hact hs
  intro t
  have hok : PlaceOk s t (s.place t) := h t
  show PlaceOk { s with base := base } t (s.place t)
  by_cases hp : s.place t = .out
  · rw [hp] at hok ⊢
    exact hok
  · have hphase := phase_idle hok hp
    exact hok.mono Iff.rfl ((hidle t hphase).trans hphase.symm) (by rw [hclient])
      fun _ => by rw [hclient]

/-- What a thread does outside the selection does not depend on how the selections of the other
threads are cut into steps. -/
theorem outside_matched (h : Inv s) {act : AgentPools.Action}
    (hact : ∀ t env v, act ≠ .select t env v) {base : AgentPools.State}
    (hs : AgentPools.step s.base act = some base) : Matched s { s with base := base } := by
  obtain ⟨hclient, hrequests, -⟩ := step_frame hact hs
  have hsettled : ({ s with base := base } : State).settled = s.settled := rfl
  have hpending : ({ s with base := base } : State).client = s.client := by
    simp only [State.client, hclient]
  have hout : ∀ {t}, s.base.phase t ≠ .idle → s.phase t = s.base.phase t ∧
      ∀ p, base.phase = Function.update s.base.phase t p →
        ({ s with base := base } : State).phase = Function.update s.phase t p := by
    intro t hp
    have hplace : s.place t = .out := by
      by_contra hne
      exact hp (phase_idle (h t) hne)
    refine ⟨by simp only [State.phase, hplace], ?_⟩
    intro p hbase
    funext t'
    by_cases ht : t' = t
    · subst ht
      simp only [State.phase, hplace, hbase, Function.update_self]
    · simp only [State.phase, hbase, Function.update_of_ne ht]
  intro x hx
  have hmode : ∀ v, x.client.effectiveMode v = s.base.client.effectiveMode v := fun v =>
    AgentPools.effectiveMode_congr (by rw [hx.client, (client_agent s).2]) v
  have hperm : x.requests.Perm
      (({ s with base := base } : State).settled ++ base.requests) := by
    rw [hsettled, hrequests]
    exact hx.requests
  cases act with
  | select t env v => exact absurd rfl (hact t env v)
  | connect t key =>
    simp only [AgentPools.step] at hs
    split at hs <;> try contradiction
    next v a hp =>
      split at hs <;> cases hs
      next m hm =>
        obtain ⟨hseen, hupdate⟩ := hout (t := t) (by simp [hp])
        refine ⟨[.connect t key], x.use t v a key ⟨a.config.tlsConfig, m⟩, ?_, ?_⟩
        · simp only [run, AgentPools.step, hx.phase, hseen, hp, hmode, hm]
          rfl
        · refine ⟨hx.client.trans hpending.symm, hx.world, ?_, hx.pooled, ?_, hperm⟩
          · rw [hupdate _ rfl, ← hx.phase]
            rfl
          · simp only [AgentPools.State.use, hx.served]
  | reuse t key i =>
    simp only [AgentPools.step] at hs
    split at hs <;> try contradiction
    next v a hp =>
      split at hs <;> try contradiction
      next key' conn hi =>
        split at hs <;> cases hs
        next hkey =>
          obtain ⟨hseen, hupdate⟩ := hout (t := t) (by simp [hp])
          refine ⟨[.reuse t key i], { x.use t v a key conn with
            pooled := Function.update x.pooled a.pool ((x.pooled a.pool).eraseIdx i) }, ?_, ?_⟩
          · simp only [run, AgentPools.step, hx.phase, hseen, hp, hx.pooled, hi, hkey, if_true]
            rfl
          · refine ⟨hx.client.trans hpending.symm, hx.world, ?_, ?_, ?_, hperm⟩
            · rw [hupdate _ rfl, ← hx.phase]
              rfl
            · simp only [hx.pooled]
            · simp only [AgentPools.State.use, hx.served]
  | release t =>
    simp only [AgentPools.step] at hs
    split at hs <;> cases hs
    next v a key conn hp =>
      obtain ⟨hseen, hupdate⟩ := hout (t := t) (by simp [hp])
      refine ⟨[.release t], { x with
        phase := Function.update x.phase t (.selected v a)
        pooled := Function.update x.pooled a.pool ((key, conn) :: x.pooled a.pool) }, ?_, ?_⟩
      · simp only [run, AgentPools.step, hx.phase, hseen, hp]
        rfl
      · refine ⟨hx.client.trans hpending.symm, hx.world, ?_, ?_, hx.served, hperm⟩
        · rw [hupdate _ rfl, hx.phase]
        · simp only [hx.pooled]
  | close t =>
    simp only [AgentPools.step] at hs
    split at hs <;> cases hs
    next v a key conn hp =>
      obtain ⟨hseen, hupdate⟩ := hout (t := t) (by simp [hp])
      refine ⟨[.close t], { x with phase := Function.update x.phase t (.selected v a) }, ?_, ?_⟩
      · simp only [run, AgentPools.step, hx.phase, hseen, hp]
        rfl
      · refine ⟨hx.client.trans hpending.symm, hx.world, ?_, hx.pooled, hx.served, hperm⟩
        rw [hupdate _ rfl, hx.phase]
  | finish t =>
    simp only [AgentPools.step] at hs
    split at hs <;> cases hs
    next v a hp =>
      obtain ⟨hseen, hupdate⟩ := hout (t := t) (by simp [hp])
      refine ⟨[.finish t], { x with phase := Function.update x.phase t .idle }, ?_, ?_⟩
      · simp only [run, AgentPools.step, hx.phase, hseen, hp]
        rfl
      · refine ⟨hx.client.trans hpending.symm, hx.world, ?_, hx.pooled, hx.served, hperm⟩
        rw [hupdate _ rfl, hx.phase]
  | elsewhere env mode =>
    simp only [AgentPools.step] at hs
    split at hs <;> cases hs
    next a w hbuild =>
      refine ⟨[.elsewhere env mode], { x with world := w }, ?_, ?_⟩
      · simp only [run, AgentPools.step, hx.world, hbuild]
        rfl
      · exact ⟨hx.client.trans hpending.symm, rfl, hx.phase, hx.pooled, hx.served, hperm⟩
    next e hbuild =>
      refine ⟨[.elsewhere env mode], x, ?_, hx⟩
      simp only [run, AgentPools.step, hx.world, hbuild]
      rfl

theorem step_matched (h : Inv s) {act : Action} (hs : step s act = some u) :
    Inv u ∧ Matched s u := by
  cases act with
  | enter t v => exact enter_step h hs
  | acquire t => exact acquire_step h hs
  | lookup t => exact lookup_step h hs
  | build t env => exact build_step h hs
  | insert t => exact insert_step h hs
  | leave t => exact leave_step h hs
  | outside act =>
    have hact : ∀ t env v, act ≠ .select t env v := by
      rintro t env v rfl
      cases hs
    obtain ⟨base, hbase, rfl⟩ : ∃ base, AgentPools.step s.base act = some base ∧
        { s with base := base } = u := by
      cases act with
      | select t env v => exact absurd rfl (hact t env v)
      | _ => exact Option.map_eq_some_iff.mp hs
    exact ⟨outside_inv h hact hbase, outside_matched h hact hbase⟩

end Steps

section Progress
variable {s u : State} {t : ℕ}

/-- The thread can get out and leave the lock free, whatever agents it builds on its way. -/
def Leaves (env : TlsEnv) (s : State) (t : ℕ) : Prop :=
  ∃ acts u, run step s acts = some u ∧ u.holder = none ∧ u.place t = .out ∧
    (∀ t', t' ≠ t → u.place t' = s.place t') ∧ ∀ t' env', .build t' env' ∈ acts → env' = env

theorem Leaves.after {env : TlsEnv} {act : Action} (h : Leaves env u t) (hs : step s act = some u)
    (hplace : ∀ t', t' ≠ t → u.place t' = s.place t')
    (hact : ∀ t' env', act = .build t' env' → env' = env) : Leaves env s t := by
  obtain ⟨acts, v, hrun, hholder, hout, hothers, henv⟩ := h
  refine ⟨act :: acts, v, ?_, hholder, hout, ?_, ?_⟩
  · rw [run, hs]
    exact hrun
  · exact fun t' ht => (hothers t' ht).trans (hplace t' ht)
  · intro t' env' hmem
    rcases List.mem_cons.mp hmem with he | hmem
    · exact hact t' env' he.symm
    · exact henv t' env' hmem

theorem leaves_leaving (env : TlsEnv) {v : Option PyVal} {r : Except PyErr Agent}
    (hp : s.place t = .leaving v r) : Leaves env s t := by
  have hs : step s (.leave t) = some { (s.setOverrides ⟨s.base.client.overrides.data,
      s.base.client.overrides.poisoned || panicked r⟩).answer t v r with holder := none } := by
    simp only [step, hp]
  refine ⟨[.leave t], _, by rw [run, hs]; rfl, rfl, ?_, ?_, by simp⟩
  · exact Function.update_self ..
  · exact fun t' ht => Function.update_of_ne ht _ _

theorem leaves_built (env : TlsEnv) {v : Option PyVal} {m : VerifyMode} {a : Agent}
    (hp : s.place t = .built v m a) : Leaves env s t := by
  have hs : step s (.insert t) = some ((s.move t (.leaving v (.ok a))).setOverrides
      ⟨s.base.client.overrides.data.insert m a, s.base.client.overrides.poisoned⟩) := by
    simp only [step, hp]
  refine (leaves_leaving env (v := v) (r := .ok a) ?_).after hs ?_ (by simp)
  · exact Function.update_self ..
  · exact fun t' ht => Function.update_of_ne ht _ _

theorem leaves_missed (env : TlsEnv) {v : Option PyVal} {m : VerifyMode}
    (hp : s.place t = .missed v m) : Leaves env s t := by
  have hact : ∀ t' env', Action.build t env = .build t' env' → env' = env := by
    rintro t' env' he
    cases he
    rfl
  cases hb : buildAgent env m s.base.world with
  | error e =>
    have hs : step s (.build t env) = some (s.move t (.leaving v (.error e))) := by
      simp only [step, hp, hb]
    exact (leaves_leaving env (Function.update_self ..)).after hs
      (fun t' ht => Function.update_of_ne ht _ _) hact
  | ok r =>
    have hs : step s (.build t env) =
        some { s.move t (.built v m r.1) with base := { s.base with world := r.2 } } := by
      simp only [step, hp, hb]
    exact (leaves_built env (Function.update_self ..)).after hs
      (fun t' ht => Function.update_of_ne ht _ _) hact

theorem leaves_holding (env : TlsEnv) {v : Option PyVal} {m : VerifyMode}
    (hp : s.place t = .holding v m) : Leaves env s t := by
  cases hg : s.base.client.overrides.data.get? m with
  | some a =>
    have hs : step s (.lookup t) = some (s.move t (.leaving v (.ok a))) := by
      simp only [step, hp, hg]
    exact (leaves_leaving env (Function.update_self ..)).after hs
      (fun t' ht => Function.update_of_ne ht _ _) (by simp)
  | none =>
    have hs : step s (.lookup t) = some (s.move t (.missed v m)) := by simp only [step, hp, hg]
    exact (leaves_missed env (Function.update_self ..)).after hs
      (fun t' ht => Function.update_of_ne ht _ _) (by simp)

theorem leaves_inside (env : TlsEnv) (hp : (s.place t).inside = true) : Leaves env s t := by
  cases hplace : s.place t with
  | holding v m => exact leaves_holding env hplace
  | missed v m => exact leaves_missed env hplace
  | built v m a => exact leaves_built env hplace
  | leaving v r => exact leaves_leaving env hplace
  | _ =>
    rw [hplace] at hp
    contradiction

theorem leaves_waiting (env : TlsEnv) {v : Option PyVal} {m : VerifyMode}
    (hp : s.place t = .waiting v m) (hfree : s.holder = none) : Leaves env s t := by
  cases hpoisoned : s.base.client.overrides.poisoned with
  | true =>
    have hs : step s (.acquire t) =
        some { s.move t (.leaving v (.error poisonError)) with holder := some t } := by
      simp only [step, hp, hfree, hpoisoned, if_true]
    exact (leaves_leaving env (Function.update_self ..)).after hs
      (fun t' ht => Function.update_of_ne ht _ _) (by simp)
  | false =>
    have hs : step s (.acquire t) = some { s.move t (.holding v m) with holder := some t } := by
      simp only [step, hp, hfree, hpoisoned, Bool.false_eq_true, if_false]
    exact (leaves_holding env (Function.update_self ..)).after hs
      (fun t' ht => Function.update_of_ne ht _ _) (by simp)

end Progress

section Schedules
variable {c : RustClient} {w : World} {actions : List Action} {s : State}

theorem run_matched (hrun : run step (start c w) actions = some s) :
    Inv s ∧ ∃ as x, run AgentPools.step (AgentPools.start c w) as = some x ∧ Abs s x := by
  have hstart : Inv (start c w) ∧ Abs (start c w) (AgentPools.start c w) :=
    ⟨fun t => Option.some_ne_none t ∘ Eq.symm, rfl, rfl, rfl, rfl, rfl, List.Perm.refl _⟩
  have hstep : ∀ s x a s', Inv s ∧ Abs s x → step s a = some s' →
      ∃ as x', run AgentPools.step x as = some x' ∧ Inv s' ∧ Abs s' x' := by
    rintro s x a s' ⟨hinv, habs⟩ hs
    obtain ⟨hinv', hmatched⟩ := step_matched hinv hs
    obtain ⟨as, x', hx, habs'⟩ := hmatched x habs
    exact ⟨as, x', hx, hinv', habs'⟩
  obtain ⟨as, x, hx, hinv, habs⟩ := run_simulates hstep hstart hrun
  exact ⟨hinv, as, x, hx, habs⟩

/-- With the lock free nothing is settled that is not over. -/
theorem Abs.free {x : AgentPools.State} (h : Abs s x) (hinv : Inv s) (hfree : s.holder = none) :
    x.client = s.base.client ∧ x.phase = s.base.phase ∧ x.requests.Perm s.base.requests := by
  have hclient : s.client = s.base.client := by simp only [State.client, hfree, Option.map_none]
  have hsettled : s.settled = [] := by simp only [State.settled, hfree, Option.map_none]
  refine ⟨h.client.trans hclient, h.phase.trans ?_, ?_⟩
  · funext t
    have hout : (s.place t).inside ≠ true := by
      intro hin
      have hholder := inside_holder (hinv t) hin
      rw [hfree] at hholder
      cases hholder
    unfold State.phase
    cases hp : s.place t with
    | built v m a => exact absurd (by rw [hp]; rfl) hout
    | leaving v r => exact absurd (by rw [hp]; rfl) hout
    | _ => rfl
  · have hrequests := h.requests
    rwa [hsettled, List.nil_append] at hrequests

end Schedules

/-- Every schedule of lock steps is one of one-step selections: it leaves the same connections and
worlds behind, and as soon as the lock is free the same client, phases and outcomes, the outcomes
up to the order in which they are reported. -/
theorem selection_atomic {c : RustClient} {w : World} {actions : List Action} {s : State}
    (hrun : run step (start c w) actions = some s) :
    ∃ as x, run AgentPools.step (AgentPools.start c w) as = some x ∧
      x.world = s.base.world ∧ x.pooled = s.base.pooled ∧ x.served = s.base.served ∧
      (s.holder = none → x.client = s.base.client ∧ x.phase = s.base.phase ∧
        x.requests.Perm s.base.requests) := by
  obtain ⟨hinv, as, x, hx, habs⟩ := run_matched hrun
  exact ⟨as, x, hx, habs.world, habs.pooled, habs.served, habs.free hinv⟩

/-- Two threads ask for unverified connections; the second comes while the first builds. -/
def contended : List Action :=
  [.enter 0 (some (.bool false)), .enter 1 (some (.bool false)), .acquire 0, .lookup 0,
    .build 0 .noFiles, .insert 0, .leave 0, .acquire 1, .lookup 1, .leave 1]

theorem selection_atomic_contended : ∃ c w s,
    RustClient.new .noFiles (some (.bool true)) none false World.initial = .ok (c, w) ∧
      run step (start c w) contended = some s ∧ s.base.requests.length = 2 ∧
      ∃ as x, run AgentPools.step (AgentPools.start c w) as = some x ∧
        x.requests.Perm s.base.requests := by
  have h : ∀ c w s, run step (start c w) contended = some s → s.holder = none →
      ∃ as x, run AgentPools.step (AgentPools.start c w) as = some x ∧
        x.requests.Perm s.base.requests := by
    intro c w s hrun hholder
    obtain ⟨as, x, hx, -, -, -, hfree⟩ := selection_atomic hrun
    exact ⟨as, x, hx, (hfree hholder).2.2⟩
  exact ⟨_, _, _, rfl, rfl, rfl, h _ _ _ rfl rfl⟩

/-- At the level of the lock steps, too, a request gets an agent that was built for its mode, and
two requests share a pool exactly when they ask for the same mode. At most one thread is behind
the lock, and whatever the surroundings look like, every thread can get out of the selection. -/
theorem selection_sound {env : TlsEnv} {verify : Option PyVal} {timeout : Option PyFloat}
    {noProxyAll : Bool} {w₀ w : World} {c : RustClient}
    (hnew : RustClient.new env verify timeout noProxyAll w₀ = .ok (c, w))
    {actions : List Action} {s : State} (hrun : run step (start c w) actions = some s) :
    (∀ v a, (v, .ok a) ∈ s.base.requests →
      ∃ m, c.effectiveMode v = .ok m ∧ (m, a) ∈ s.base.world.builds) ∧
    (∀ v a u b, (v, .ok a) ∈ s.base.requests → (u, .ok b) ∈ s.base.requests →
      (a.pool = b.pool ↔ c.effectiveMode v = c.effectiveMode u)) ∧
    (∀ t t', (s.place t).inside = true → (s.place t').inside = true → t = t') ∧
    ∀ t env', ∃ later u, run step s later = some u ∧ u.place t = .out ∧
      ∀ t' e, .build t' e ∈ later → e = env' := by
  obtain ⟨hinv, as, x, hx, habs⟩ := run_matched hrun
  have hpools := AgentPools.run_inv (RustClient.new_owns hnew).1 hx
  have hmode : ∀ v, x.client.effectiveMode v = c.effectiveMode v :=
    AgentPools.effectiveMode_congr (AgentPools.run_verify hx)
  have hserved : ∀ v a, (v, .ok a) ∈ s.base.requests →
      ∃ m, c.effectiveMode v = .ok m ∧ x.client.table m = some a := by
    intro v a hv
    obtain ⟨m, hm, ht⟩ :=
      hpools.requests v a (habs.requests.mem_iff.mpr (List.mem_append_right _ hv))
    exact ⟨m, (hmode v).symm.trans hm, ht⟩
  refine ⟨?_, ?_, ?_, ?_⟩
  · intro v a hv
    obtain ⟨m, hm, ht⟩ := hserved v a hv
    exact ⟨m, hm, habs.world ▸ hpools.owns m a ht⟩
  · intro v a u b hv hu
    obtain ⟨m, hm, ha⟩ := hserved v a hv
    obtain ⟨n, hn, hb⟩ := hserved u b hu
    rw [hm, hn, Except.ok.injEq]
    exact (AgentPools.table_injective hpools.owns ha hb).2
  · intro t t' ht ht'
    exact Option.some.inj ((inside_holder (hinv t) ht).symm.trans (inside_holder (hinv t') ht'))
  · intro t env'
    cases hp : s.place t with
    | out => exact ⟨[], s, rfl, hp, by simp⟩
    | waiting v m =>
      cases hholder : s.holder with
      | none =>
        obtain ⟨later, u, hu, -, hout, -, henv⟩ := leaves_waiting env' hp hholder
        exact ⟨later, u, hu, hout, henv⟩
      | some t' =>
        -- first the holder leaves
        obtain ⟨first, u, hu, hfree, hout, hothers, henv⟩ :=
          leaves_inside env' (holder_inside hinv hholder)
        have hne : t ≠ t' := by
          rintro rfl
          have hin := holder_inside hinv hholder
          rw [hp] at hin
          contradiction
        obtain ⟨later, u', hu', -, hout', -, henv'⟩ :=
          leaves_waiting env' ((hothers t hne).trans hp) hfree
        refine ⟨first ++ later, u', ?_, hout', ?_⟩
        · rw [run_append, hu]
          exact hu'
        · intro t'' e he
          rcases List.mem_append.mp he with he | he
          · exact henv t'' e he
          · exact henv' t'' e he
    | _ =>
      obtain ⟨later, u, hu, -, hout, -, henv⟩ := leaves_inside env' (t := t) (by rw [hp]; rfl)
      exact ⟨later, u, hu, hout, henv⟩

theorem selection_sound_contended : ∃ c w s,
    RustClient.new .noFiles (some (.bool true)) none false World.initial = .ok (c, w) ∧
      run step (start c w) (contended.take 5) = some s ∧ s.holder = some 0 ∧
      ∃ later u, run step s later = some u ∧ u.place 1 = .out := by
  refine ⟨_, _, _, rfl, rfl, rfl, ?_⟩
  obtain ⟨-, -, -, hout⟩ := @selection_sound .noFiles (some (.bool true)) none false
    World.initial _ _ rfl (contended.take 5) _ rfl
  obtain ⟨later, u, hu, hp, -⟩ := hout 1 .noFiles
  exact ⟨later, u, hu, hp⟩

end Pyureq.OverridesLock
