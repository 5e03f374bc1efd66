import Mathlib.Data.List.Forall2
import Mathlib.Data.Option.Basic

/-! Operations with results on two kinds of state. If each operation takes related states to
related states with the same result, so does every sequence of operations. A heap is a list of
objects, which are named by their positions and never leave it. -/

namespace Simulation
variable {σ τ α β : Type*}

/-- The results of the operations and the state they leave; `none` if one does not apply. -/
def trace (step : σ → α → Option (β × σ)) : σ → List α → Option (List β × σ)
  | s, [] => some ([], s)
  | s, a :: as => (step s a).bind fun r => (trace step r.2 as).map fun t => (r.1 :: t.1, t.2)

/-- Both sides apply, with equal results and related states, or neither does. -/
def Agree (R : σ → τ → Prop) : Option (β × σ) → Option (β × τ) → Prop :=
  Option.Rel fun x y => x.1 = y.1 ∧ R x.2 y.2

variable {step : σ → α → Option (β × σ)} {step' : τ → α → Option (β × τ)}

theorem trace_cons {s : σ} {a : α} {as : List α} {rs : List β} {u : σ}
    (h : trace step s (a :: as) = some (rs, u)) :
    ∃ r t ts, step s a = some (r, t) ∧ trace step t as = some (ts, u) ∧ rs = r :: ts := by
  obtain ⟨⟨r, t⟩, hstep, h⟩ := Option.bind_eq_some_iff.mp h
  obtain ⟨⟨ts, v⟩, htrace, h⟩ := Option.map_eq_some_iff.mp h
  obtain ⟨rfl, rfl⟩ := Prod.mk.inj h
  exact ⟨r, t, ts, hstep, htrace, rfl⟩

/-- The step lemma carries over to sequences of operations. -/
theorem trace_agree {R : σ → τ → Prop}
    (hstep : ∀ s t a, R s t → Agree R (step s a) (step' t a)) {s : σ} {t : τ} (h : R s t)
    (as : List α) : Agree R (trace step s as) (trace step' t as) := by
  induction as generalizing s t with
  | nil => exact Option.Rel.some ⟨rfl, h⟩
  | cons a as ih =>
    rw [trace, trace]
    have ha := hstep s t a h
    generalize step s a = x at ha ⊢
    generalize step' t a = y at ha ⊢
    cases ha with
    | none => exact Option.Rel.none
    | @some x y hxy =>
      obtain ⟨hr, hs⟩ := hxy
      have htail := ih hs
      rw [Option.bind_some, Option.bind_some]
      generalize trace step x.2 as = v at htail ⊢
      generalize trace step' y.2 as = w at htail ⊢
      cases htail with
      | none => exact Option.Rel.none
      | some hvw => exact Option.Rel.some ⟨by simp only [hr, hvw.1], hvw.2⟩

/-- What each of the operations keeps, the sequence keeps. -/
theorem trace_keeps {P : σ → Prop} {as : List α}
    (hstep : ∀ a ∈ as, ∀ s r t, P s → step s a = some (r, t) → P t) {s u : σ} {rs : List β}
    (hs : P s) (h : trace step s as = some (rs, u)) : P u := by
  induction as generalizing s rs with
  | nil =>
    obtain ⟨-, rfl⟩ := Prod.mk.inj (Option.some.inj h)
    exact hs
  | cons a as ih =>
    obtain ⟨ha, has⟩ := List.forall_mem_cons.mp hstep
    obtain ⟨r, t, ts, hr, htrace, -⟩ := trace_cons h
    exact ih has (ha s r t hs hr) htrace

section Heap
variable {R : σ → τ → Prop} {l : List σ} {m : List τ}

/-- Replace the object at `i` by what `f` makes of it. -/
def onObject (f : σ → β × σ) (l : List σ) (i : ℕ) : Option (β × List σ) :=
  l[i]?.map fun x => ((f x).1, l.set i (f x).2)

theorem forall₂_getElem? (h : List.Forall₂ R l m) (i : ℕ) : Option.Rel R l[i]? m[i]? := by
  induction h generalizing i with
  | nil => exact Option.Rel.none
  | cons hab _ ih =>
    cases i with
    | zero => exact Option.Rel.some hab
    | succ i => exact ih i

theorem forall₂_set (h : List.Forall₂ R l m) (i : ℕ) {x : σ} {y : τ} (hxy : R x y) :
    List.Forall₂ R (l.set i x) (m.set i y) := by
  induction h generalizing i with
  | nil => exact List.Forall₂.nil
  | cons hab htl ih =>
    cases i with
    | zero => exact List.Forall₂.cons hxy htl
    | succ i => exact List.Forall₂.cons hab (ih i)

theorem forall₂_snoc (h : List.Forall₂ R l m) {x : σ} {y : τ} (hxy : R x y) :
    List.Forall₂ R (l ++ [x]) (m ++ [y]) :=
  List.rel_append h (List.Forall₂.cons hxy List.Forall₂.nil)

/-- An operation that relates single objects relates heaps. -/
theorem onObject_agree (h : List.Forall₂ R l m) {f : σ → β × σ} {g : τ → β × τ}
    (hfg : ∀ x y, R x y → (f x).1 = (g y).1 ∧ R (f x).2 (g y).2) (i : ℕ) :
    Agree (List.Forall₂ R) (onObject f l i) (onObject g m i) := by
  unfold onObject
  have hi := forall₂_getElem? h i
  generalize l[i]? = x at hi ⊢
  generalize m[i]? = y at hi ⊢
  cases hi with
  | none => exact Option.Rel.none
  | some hxy => exact Option.Rel.some ⟨(hfg _ _ hxy).1, forall₂_set h i (hfg _ _ hxy).2⟩

end Heap
end Simulation
