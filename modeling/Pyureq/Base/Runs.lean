import Mathlib.Data.List.Forall2
import Mathlib.Data.List.Induction
import Mathlib.Data.Option.Basic

/-! Runs of a deterministic partial step function under an arbitrary list of actions.
The list is the schedule: an interleaving of several threads is a list whose actions
name the thread that moves. -/

namespace Runs
variable {σ α : Type*}

def run (step : σ → α → Option σ) : σ → List α → Option σ
  | s, [] => some s
  | s, a :: as => (step s a).bind fun t => run step t as

variable {step : σ → α → Option σ}

theorem run_cons {s t : σ} {a : α} {as : List α} (h : run step s (a :: as) = some t) :
    ∃ u, step s a = some u ∧ run step u as = some t := Option.bind_eq_some_iff.mp h

theorem run_append (s : σ) (as bs : List α) :
    run step s (as ++ bs) = (run step s as).bind fun t => run step t bs := by
  induction as generalizing s with
  | nil => rfl
  | cons a as ih =>
    rw [List.cons_append, run, run, Option.bind_assoc]
    exact congrArg _ (funext fun t => ih t)

/-- Forward simulation: if every step is matched by some steps of another system, then so is
every run. -/
theorem run_simulates {τ β : Type*} {step' : τ → β → Option τ} {R : σ → τ → Prop}
    (hstep : ∀ s t a s', R s t → step s a = some s' → ∃ bs t', run step' t bs = some t' ∧ R s' t')
    {s s' : σ} {t : τ} {as : List α} (h : R s t) (hrun : run step s as = some s') :
    ∃ bs t', run step' t bs = some t' ∧ R s' t' := by
  induction as generalizing s t with
  | nil =>
    obtain rfl := Option.some.inj hrun
    exact ⟨[], t, rfl, h⟩
  | cons a as ih =>
    obtain ⟨u, hu, hrest⟩ := run_cons hrun
    obtain ⟨bs, v, hv, hR⟩ := hstep s t a u h hu
    obtain ⟨cs, t', ht, hR'⟩ := ih hR hrest
    refine ⟨bs ++ cs, t', ?_, hR'⟩
    rw [run_append, hv]
    exact ht

/-- Two systems in lockstep: if related actions take related states to related states, so do
related runs, and one run exists when the other does. -/
theorem run_lockstep {τ β : Type*} {step' : τ → β → Option τ} {R : σ → τ → Prop}
    {A : α → β → Prop}
    (hstep : ∀ s t a b, R s t → A a b → Option.Rel R (step s a) (step' t b)) {s : σ} {t : τ}
    {as : List α} {bs : List β} (h : R s t) (has : List.Forall₂ A as bs) :
    Option.Rel R (run step s as) (run step' t bs) := by
  induction has generalizing s t with
  | nil => exact Option.Rel.some h
  | @cons a b as bs hab _ ih =>
    rw [run, run]
    have hab := hstep s t a b h hab
    generalize step s a = x at hab ⊢
    generalize step' t b = y at hab ⊢
    cases hab with
    | none => exact Option.Rel.none
    | some hxy => exact ih hxy

/-- Erasure: if the steps outside of `keep` stay within the relation and the others are matched
by a step with the same action, a run is matched by what is left of it. -/
theorem run_filter {τ : Type*} {step' : τ → α → Option τ} {R : σ → τ → Prop} {keep : α → Bool}
    (hkeep : ∀ s t a s', R s t → keep a = true → step s a = some s' →
      ∃ t', step' t a = some t' ∧ R s' t')
    (hdrop : ∀ s t a s', R s t → keep a = false → step s a = some s' → R s' t)
    {s s' : σ} {t : τ} {as : List α} (h : R s t) (hrun : run step s as = some s') :
    ∃ t', run step' t (as.filter keep) = some t' ∧ R s' t' := by
  induction as generalizing s t with
  | nil =>
    obtain rfl := Option.some.inj hrun
    exact ⟨t, rfl, h⟩
  | cons a as ih =>
    obtain ⟨u, hu, hrest⟩ := run_cons hrun
    cases ha : keep a with
    | false =>
      rw [List.filter_cons_of_neg (by simp [ha])]
      exact ih (hdrop s t a u h ha hu) hrest
    | true =>
      obtain ⟨v, hv, hR⟩ := hkeep s t a u h ha hu
      obtain ⟨t', ht, hR'⟩ := ih hR hrest
      refine ⟨t', ?_, hR'⟩
      rw [List.filter_cons_of_pos ha, run, hv]
      exact ht

/-- What every step preserves holds at the end of every run. -/
theorem run_invariant {Inv : σ → Prop}
    (hstep : ∀ s a t, Inv s → step s a = some t → Inv t) {s t : σ} {as : List α}
    (hs : Inv s) (h : run step s as = some t) : Inv t := by
  induction as generalizing s with
  | nil => rwa [← Option.some.inj h]
  | cons a as ih =>
    obtain ⟨u, hu, ht⟩ := run_cons h
    exact ih (hstep s a u hs hu) ht

/-- What every step preserves may also depend on the actions so far. -/
theorem run_invariant_history {Inv : List α → σ → Prop}
    (hstep : ∀ as s a t, Inv as s → step s a = some t → Inv (as ++ [a]) t) {s t : σ}
    {as : List α} (hs : Inv [] s) (h : run step s as = some t) : Inv as t := by
  induction as using List.reverseRecOn generalizing t with
  | nil => rwa [← Option.some.inj h]
  | append_singleton as a ih =>
    rw [run_append] at h
    obtain ⟨u, hu, ht⟩ := Option.bind_eq_some_iff.mp h
    obtain ⟨t', ht', hnil⟩ := run_cons ht
    obtain rfl := Option.some.inj hnil
    exact hstep as u a t' (ih hu) ht'

/-- Every step of the run meets `P` in the state in which it is taken. -/
def Along (step : σ → α → Option σ) (P : σ → α → Prop) : σ → List α → Prop
  | _, [] => True
  | s, a :: as => P s a ∧ ∀ t, step s a = some t → Along step P t as

theorem along_cons {P : σ → α → Prop} {s t : σ} {a : α} {as : List α} (ha : P s a)
    (hs : step s a = some t) (has : Along step P t as) : Along step P s (a :: as) := by
  refine ⟨ha, ?_⟩
  intro u hu
  obtain rfl := Option.some.inj (hs.symm.trans hu)
  exact has

theorem along_of_forall {P : α → Prop} {s : σ} {as : List α} (h : ∀ a ∈ as, P a) :
    Along step (fun _ a => P a) s as := by
  induction as generalizing s with
  | nil => trivial
  | cons a as ih =>
    refine ⟨h a List.mem_cons_self, ?_⟩
    intro t _
    exact ih fun b hb => h b (List.mem_cons_of_mem _ hb)

/-- What the steps that meet `P` preserve holds at the end of every run made of them. -/
theorem run_invariant_along {Inv : σ → Prop} {P : σ → α → Prop}
    (hstep : ∀ s a t, Inv s → P s a → step s a = some t → Inv t) {s t : σ} {as : List α}
    (hs : Inv s) (hP : Along step P s as) (h : run step s as = some t) : Inv t := by
  induction as generalizing s with
  | nil => rwa [← Option.some.inj h]
  | cons a as ih =>
    obtain ⟨u, hu, ht⟩ := run_cons h
    exact ih (hstep s a u hs hP.1 hu) (hP.2 u hu) ht

/-- A reflexive and transitive relation that every step respects relates the two ends
of every run. -/
theorem run_relates {R : σ → σ → Prop} (hrefl : ∀ s, R s s)
    (htrans : ∀ s t u, R s t → R t u → R s u)
    (hstep : ∀ s a t, step s a = some t → R s t) {s t : σ} {as : List α}
    (h : run step s as = some t) : R s t := by
  induction as generalizing s with
  | nil =>
    rw [← Option.some.inj h]
    exact hrefl s
  | cons a as ih =>
    obtain ⟨u, hu, ht⟩ := run_cons h
    exact htrans s u t (hstep s a u hu) (ih ht)

end Runs
