import Mathlib.Data.Set.Insert
import Pyureq.Base.Runs

/-! Threads that read shared registers one at a time while others assign to them. What such a
thread computes, it computes from values that were in force while it ran; if only one register
is assigned to meanwhile, they were in force together. -/

namespace Registers
open Runs
variable {ι : Type*} {ν : ι → Type*} {α : Type*}

/-- A computation that reads registers on its way to a value. -/
inductive Reader (ν : ι → Type*) (α : Type*)
  | done (a : α)
  | read (i : ι) (next : ν i → Reader ν α)

namespace Reader

/-- The value that is computed when nobody assigns to the registers meanwhile. -/
def eval (regs : ∀ i, ν i) : Reader ν α → α
  | done a => a
  | read i next => (next (regs i)).eval regs

/-- No register is read twice, and none of those in `seen` at all. -/
def ReadsOnce : Set ι → Reader ν α → Prop
  | _, done _ => True
  | seen, read i next => i ∉ seen ∧ ∀ v, (next v).ReadsOnce (insert i seen)

theorem eval_congr {p : Reader ν α} {seen : Set ι} (h : p.ReadsOnce seen) {r r' : ∀ i, ν i}
    (hr : ∀ i, i ∉ seen → r i = r' i) : p.eval r = p.eval r' := by
  induction p generalizing seen with
  | done a => rfl
  | read i next ih =>
    rw [eval, eval, hr i h.1]
    apply ih _ (h.2 _)
    intro k hk
    exact hr k fun hseen => hk (Set.mem_insert_of_mem i hseen)

end Reader

/-- The registers and the threads, each with what is left of its computation. -/
structure State (ν : ι → Type*) (α : Type*) where
  regs : ∀ i, ν i
  readers : ℕ → Reader ν α

inductive Action (ν : ι → Type*) (α : Type*)
  | assign (i : ι) (v : ν i)
  /-- The thread makes its next read. -/
  | turn (t : ℕ)
  /-- A thread whose computation is over starts another one. -/
  | start (t : ℕ) (p : Reader ν α)

variable [DecidableEq ι]

def step (s : State ν α) : Action ν α → Option (State ν α)
  | .assign i v => some { s with regs := Function.update s.regs i v }
  | .turn t =>
    match s.readers t with
    | .done _ => none
    | .read i next => some { s with readers := Function.update s.readers t (next (s.regs i)) }
  | .start t p =>
    match s.readers t with
    | .done _ => some { s with readers := Function.update s.readers t p }
    | .read _ _ => none

/-- The register has the value at some moment of the run. -/
def InForce (s : State ν α) (as : List (Action ν α)) (i : ι) (v : ν i) : Prop :=
  ∃ before after m, as = before ++ after ∧ run step s before = some m ∧ m.regs i = v

section Moments
variable {s u : State ν α} {as : List (Action ν α)} {t : ℕ}

theorem InForce.now (s : State ν α) (as : List (Action ν α)) (i : ι) :
    InForce s as i (s.regs i) := ⟨[], as, s, rfl, rfl, rfl⟩

theorem InForce.later {a : Action ν α} {i : ι} {v : ν i} (hs : step s a = some u)
    (h : InForce u as i v) : InForce s (a :: as) i v := by
  obtain ⟨before, after, m, rfl, hrun, hv⟩ := h
  refine ⟨a :: before, after, m, rfl, ?_, hv⟩
  rw [run, hs]
  exact hrun

/-- A step of another thread leaves a thread's computation alone. -/
theorem step_other {a : Action ν α} (hs : step s a = some u) (hturn : a ≠ .turn t)
    (hstart : ∀ p, a ≠ .start t p) : u.readers t = s.readers t := by
  cases a with
  | assign i v =>
    obtain rfl := Option.some.inj hs
    rfl
  | turn t' =>
    have ht : t ≠ t' := by
      rintro rfl
      exact hturn rfl
    simp only [step] at hs
    split at hs <;> cases hs
    exact Function.update_of_ne ht _ _
  | start t' p =>
    have ht : t ≠ t' := by
      rintro rfl
      exact hstart p rfl
    simp only [step] at hs
    split at hs <;> cases hs
    exact Function.update_of_ne ht _ _

theorem step_turn (hs : step s (.turn t) = some u) : ∃ i next, s.readers t = .read i next ∧
    u.readers t = next (s.regs i) ∧ u.regs = s.regs := by
  simp only [step] at hs
  split at hs <;> cases hs
  next i next hp => exact ⟨i, next, hp, Function.update_self .., rfl⟩

end Moments

section Runs
variable {s u : State ν α} {as : List (Action ν α)} {t : ℕ} {p : Reader ν α} {a : α}

/-- Whatever is assigned meanwhile, a thread that reads no register twice computes its value
from values that were in force while it ran. -/
theorem observed {seen : Set ι} (honce : p.ReadsOnce seen) (hp : s.readers t = p)
    (hstay : ∀ q, .start t q ∉ as) (hrun : run step s as = some u) (hdone : u.readers t = .done a) :
    ∃ seenAs : ∀ i, ν i, (∀ i, InForce s as i (seenAs i)) ∧ p.eval seenAs = a := by
  induction as generalizing s p seen with
  | nil =>
    obtain rfl := Option.some.inj hrun
    rw [hdone] at hp
    subst hp
    exact ⟨s.regs, InForce.now s [], rfl⟩
  | cons act as ih =>
    obtain ⟨v, hs, hrest⟩ := run_cons hrun
    have hstay' : ∀ q, .start t q ∉ as := fun q hq => hstay q (List.mem_cons_of_mem _ hq)
    by_cases hact : act = .turn t
    · subst hact
      obtain ⟨i, next, hread, hnext, hregs⟩ := step_turn hs
      obtain rfl : p = .read i next := hp.symm.trans hread
      obtain ⟨seenAs, hforce, heval⟩ := ih (honce.2 (s.regs i)) hnext hstay' hrest
      refine ⟨Function.update seenAs i (s.regs i), ?_, ?_⟩
      · intro k
        by_cases hk : k = i
        · subst hk
          rw [Function.update_self]
          exact InForce.now s _ k
        · rw [Function.update_of_ne hk]
          exact (hforce k).later hs
      · -- the rest of the computation does not read the register again
        rw [Reader.eval, Function.update_self, ← heval]
        apply Reader.eval_congr (honce.2 (s.regs i))
        intro k hk
        refine Function.update_of_ne ?_ _ _
        rintro rfl
        exact hk (Set.mem_insert k seen)
    · have hother : v.readers t = p := by
        rw [step_other hs hact fun q hq => hstay q (hq ▸ List.mem_cons_self), hp]
      obtain ⟨seenAs, hforce, heval⟩ := ih honce hother hstay' hrest
      exact ⟨seenAs, fun k => (hforce k).later hs, heval⟩

/-- A register that nobody assigns to keeps its value. -/
theorem regs_unassigned {i : ι} (h : ∀ v, .assign i v ∉ as) (hrun : run step s as = some u) :
    u.regs i = s.regs i := by
  induction as generalizing s with
  | nil =>
    obtain rfl := Option.some.inj hrun
    rfl
  | cons act as ih =>
    obtain ⟨v, hs, hrest⟩ := run_cons hrun
    rw [ih (fun w hw => h w (List.mem_cons_of_mem _ hw)) hrest]
    cases act with
    | assign k w =>
      obtain rfl := Option.some.inj hs
      refine Function.update_of_ne ?_ _ _
      rintro rfl
      exact h w List.mem_cons_self
    | turn t =>
      obtain ⟨-, -, -, -, hregs⟩ := step_turn hs
      rw [hregs]
    | start t q =>
      simp only [step] at hs
      split at hs <;> cases hs
      rfl

/-- If one register only is assigned to meanwhile, the thread computes what it would have
computed at one of the moments of the run, undisturbed. -/
theorem snapshot {j : ι} (honce : p.ReadsOnce ∅) (hp : s.readers t = p)
    (hstay : ∀ q, .start t q ∉ as) (hassign : ∀ i v, .assign i v ∈ as → i = j)
    (hrun : run step s as = some u) (hdone : u.readers t = .done a) :
    ∃ before after m, as = before ++ after ∧ run step s before = some m ∧ p.eval m.regs = a := by
  obtain ⟨seenAs, hforce, heval⟩ := observed honce hp hstay hrun hdone
  obtain ⟨before, after, m, rfl, hbefore, hm⟩ := hforce j
  refine ⟨before, after, m, rfl, hbefore, ?_⟩
  rw [← heval]
  apply congrArg (p.eval ·)
  funext i
  by_cases hi : i = j
  · subst hi
    exact hm
  · obtain ⟨first, rest, n, hsplit, hfirst, hn⟩ := hforce i
    have hfree : ∀ v, .assign i v ∉ before ++ after := fun v hv => hi (hassign i v hv)
    rw [regs_unassigned (fun v hv => hfree v (List.mem_append_left _ hv)) hbefore, ← hn,
      regs_unassigned (fun v hv => hfree v (hsplit ▸ List.mem_append_left _ hv)) hfirst]

end Runs
end Registers
