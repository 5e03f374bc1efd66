import Mathlib.Data.List.Basic

/-! Cutting and splitting lists at delimiters, and how both commute with a map that
rewrites every other element without producing the delimiter. -/

namespace Delimited
variable {α β : Type*}

section Cut
variable [DecidableEq α]

/-- The part before the first `d`, and the part after it when there is one. -/
def cut (d : α) : List α → List α × Option (List α)
  | [] => ([], none)
  | x :: xs => if x = d then ([], some xs) else (x :: (cut d xs).1, (cut d xs).2)

theorem cut_of_notMem {d : α} {a : List α} (h : d ∉ a) : cut d a = (a, none) := by
  induction a with
  | nil => rfl
  | cons x xs ih =>
    simp only [List.mem_cons, not_or] at h
    rw [cut, if_neg fun hx => h.1 hx.symm, ih h.2]

theorem cut_append_cons {d : α} {a : List α} (h : d ∉ a) (b : List α) :
    cut d (a ++ d :: b) = (a, some b) := by
  induction a with
  | nil => simp [cut]
  | cons x xs ih =>
    simp only [List.mem_cons, not_or] at h
    rw [List.cons_append, cut, if_neg fun hx => h.1 hx.symm, ih h.2]

theorem cut_eq_some {d : α} {s a b : List α} (h : cut d s = (a, some b)) :
    d ∉ a ∧ s = a ++ d :: b := by
  induction s generalizing a with
  | nil => simp [cut] at h
  | cons x xs ih =>
    rw [cut] at h
    split at h
    next hx =>
      obtain ⟨rfl, hb⟩ := Prod.mk.inj h
      obtain rfl := Option.some.inj hb
      simp [hx]
    next hx =>
      obtain ⟨rfl, hb⟩ := Prod.mk.inj h
      obtain ⟨hn, he⟩ := ih (Prod.ext rfl hb)
      refine ⟨?_, by rw [List.cons_append, ← he]⟩
      simp only [List.mem_cons, not_or]
      exact ⟨fun he => hx he.symm, hn⟩

theorem cut_eq_none {d : α} {s a : List α} (h : cut d s = (a, none)) : d ∉ s ∧ a = s := by
  by_cases hd : d ∈ s
  · obtain ⟨p, q, rfl, hp⟩ := List.eq_append_cons_of_mem hd
    rw [cut_append_cons hp] at h
    simp at h
  · rw [cut_of_notMem hd] at h
    exact ⟨hd, (congrArg Prod.fst h).symm⟩

/-- A rewriting that keeps `d` and introduces no other `d` commutes with the cut. -/
theorem cut_flatMap [DecidableEq β] {f : α → List β} {d : α} {e : β} (hd : f d = [e])
    (hne : ∀ x, x ≠ d → e ∉ f x) (s : List α) :
    cut e (s.flatMap f) = ((cut d s).1.flatMap f, (cut d s).2.map (·.flatMap f)) := by
  have hfree : ∀ a : List α, d ∉ a → e ∉ a.flatMap f := by
    intro a ha he
    obtain ⟨x, hx, hex⟩ := List.mem_flatMap.mp he
    exact hne x (fun hxd => ha (hxd ▸ hx)) hex
  cases h : (cut d s).2 with
  | none =>
    obtain ⟨hs, ha⟩ := cut_eq_none (d := d) (s := s) (a := (cut d s).1) (Prod.ext rfl h)
    rw [ha, cut_of_notMem (hfree s hs), Option.map_none]
  | some b =>
    obtain ⟨ha, hs⟩ := cut_eq_some (d := d) (s := s) (a := (cut d s).1) (Prod.ext rfl h)
    conv_lhs => rw [hs]
    rw [List.flatMap_append, List.flatMap_cons, hd, List.singleton_append,
      cut_append_cons (hfree _ ha), Option.map_some]

theorem cut_append_of_notMem {d : α} {a : List α} (h : d ∉ a) (b : List α) :
    cut d (a ++ b) = (a ++ (cut d b).1, (cut d b).2) := by
  induction a with
  | nil => rfl
  | cons x xs ih =>
    simp only [List.mem_cons, not_or] at h
    rw [List.cons_append, cut, if_neg fun hx => h.1 hx.symm, ih h.2, List.cons_append]

theorem cut_cons_ne {d x : α} (h : x ≠ d) (s : List α) :
    cut d (x :: s) = (x :: (cut d s).1, (cut d s).2) := by
  rw [cut, if_neg h]

/-- The parts around the first occurrence of a sublist. -/
def cutSub (sub : List α) : List α → Option (List α × List α)
  | [] => if sub = [] then some ([], []) else none
  | x :: xs =>
    if sub <+: x :: xs then some ([], (x :: xs).drop sub.length)
    else (cutSub sub xs).map fun r => (x :: r.1, r.2)

theorem cutSub_append_cons {x : α} {sub a : List α} (h : x ∉ a) (b : List α) :
    cutSub (x :: sub) (a ++ x :: sub ++ b) = some (a, b) := by
  induction a with
  | nil =>
    have hp : x :: sub <+: x :: (sub ++ b) := ⟨b, rfl⟩
    rw [List.nil_append, List.cons_append, cutSub, if_pos hp]
    simp
  | cons y a ih =>
    simp only [List.mem_cons, not_or] at h
    have hp : ¬x :: sub <+: y :: (a ++ x :: (sub ++ b)) := by
      rw [List.cons_prefix_cons]
      exact fun hp => h.1 hp.1
    have htail : cutSub (x :: sub) (a ++ x :: (sub ++ b)) = some (a, b) := by
      simpa using ih h.2
    rw [List.cons_append, List.cons_append, cutSub, List.append_assoc, List.cons_append,
      if_neg hp, htail]
    rfl

/-- Nothing is lost in a cut. -/
theorem cut_injective {d : α} {s t : List α} (h : cut d s = cut d t) : s = t := by
  cases hs : cut d s with
  | mk a o =>
    have ht := h.symm.trans hs
    cases o with
    | none => rw [← (cut_eq_none hs).2, (cut_eq_none ht).2]
    | some b => rw [(cut_eq_some hs).2, (cut_eq_some ht).2]

end Cut

theorem intercalate_cons_flatMap (sep l : List α) (fs : List (List α)) :
    sep.intercalate (l :: fs) = l ++ fs.flatMap (sep ++ ·) := by
  induction fs generalizing l with
  | nil => simp
  | cons m fs ih =>
    rw [List.intercalate_cons_cons, ih, List.flatMap_cons, List.append_assoc, List.append_assoc]

/-- A join of the same fields in another order has the same elements. -/
theorem intercalate_perm {sep : List α} {fs gs : List (List α)} (h : fs.Perm gs) :
    (sep.intercalate fs).Perm (sep.intercalate gs) := by
  have hcons : ∀ (l : List α) (ls : List (List α)),
      sep ++ sep.intercalate (l :: ls) = (l :: ls).flatMap (sep ++ ·) := by
    intro l ls
    rw [intercalate_cons_flatMap, List.flatMap_cons, List.append_assoc]
  cases fs with
  | nil => rw [h.nil_eq]
  | cons l fs =>
    cases gs with
    | nil => exact absurd h.symm.nil_eq (List.cons_ne_nil l fs).symm
    | cons m gs =>
      refine (List.perm_append_left_iff sep).mp ?_
      rw [hcons, hcons]
      exact h.flatMap_right _

/-- Joins of nonempty groups, joined with the same separator, are the join of all of them. -/
theorem intercalate_flatten {sep : List α} {groups : List (List (List α))}
    (h : ∀ g ∈ groups, g ≠ []) :
    sep.intercalate (groups.map sep.intercalate) = sep.intercalate groups.flatten := by
  have hgroup : ∀ g : List (List α), g ≠ [] → sep ++ sep.intercalate g = g.flatMap (sep ++ ·) := by
    intro g hg
    obtain ⟨l, fs, rfl⟩ := List.exists_cons_of_ne_nil hg
    rw [intercalate_cons_flatMap, List.flatMap_cons, List.append_assoc]
  cases groups with
  | nil => rfl
  | cons g groups =>
    obtain ⟨hg, hgroups⟩ := List.forall_mem_cons.mp h
    obtain ⟨l, fs, rfl⟩ := List.exists_cons_of_ne_nil hg
    rw [List.map_cons, intercalate_cons_flatMap, intercalate_cons_flatMap, List.flatten_cons,
      List.cons_append, intercalate_cons_flatMap, List.flatMap_append, List.append_assoc,
      List.flatMap_map, ← List.flatMap_id, List.flatMap_assoc]
    congr 2
    apply List.flatMap_congr
    exact fun g hg => hgroup g (hgroups g hg)

section Split
variable [BEq α] [LawfulBEq α]

theorem splitOn_flatMap [BEq β] [LawfulBEq β] {f : α → List β} {d : α} {e : β}
    (hd : f d = [e]) (hne : ∀ x, x ≠ d → e ∉ f x) (s : List α) :
    (s.flatMap f).splitOn e = (s.splitOn d).map (·.flatMap f) := by
  have hfree : ∀ a : List α, d ∉ a → e ∉ a.flatMap f := by
    intro a ha he
    obtain ⟨x, hx, hex⟩ := List.mem_flatMap.mp he
    exact hne x (fun hxd => ha (hxd ▸ hx)) hex
  -- the recursion follows the delimiters, not the elements
  induction hn : s.length using Nat.strongRecOn generalizing s with
  | _ n ih =>
    subst hn
    by_cases hs : d ∈ s
    · obtain ⟨a, b, rfl, ha⟩ := List.eq_append_cons_of_mem hs
      have hb := ih b.length (by simp only [List.length_append, List.length_cons]; omega) b rfl
      rw [List.flatMap_append, List.flatMap_cons, hd, List.singleton_append,
        List.splitOn_append_cons_self_of_not_mem (hfree a ha),
        List.splitOn_append_cons_self_of_not_mem ha, List.map_cons, hb]
    · rw [List.splitOn_eq_singleton (hfree s hs), List.splitOn_eq_singleton hs, List.map_singleton]

/-- Joining delimiter-free fields after a prefix and splitting again recovers both. -/
theorem splitOn_append_intercalate {d : α} (a : List α) {fs : List (List α)}
    (hne : fs ≠ []) (hfree : ∀ l ∈ fs, d ∉ l) :
    (a ++ d :: [d].intercalate fs).splitOn d = a.splitOn d ++ fs := by
  rw [List.splitOn_append_cons_self, List.splitOn_intercalate d hfree hne]

/-- Splitting is cutting as long as there is a delimiter. -/
theorem splitOn_eq_cut [DecidableEq α] (d : α) (s : List α) :
    s.splitOn d = (cut d s).1 :: ((cut d s).2.map fun b => b.splitOn d).getD [] := by
  by_cases h : d ∈ s
  · obtain ⟨a, b, rfl, ha⟩ := List.eq_append_cons_of_mem h
    rw [List.splitOn_append_cons_self_of_not_mem ha, cut_append_cons ha]
    rfl
  · rw [List.splitOn_eq_singleton h, cut_of_notMem h]
    rfl

/-- Splitting a join at its first separator character splits every field, with what is
left of the separator in front of each but the first. -/
theorem splitOn_intercalate_cons (d : α) (sep l : List α) (fs : List (List α)) :
    ((d :: sep).intercalate (l :: fs)).splitOn d =
      l.splitOn d ++ fs.flatMap fun f => (sep ++ f).splitOn d := by
  rw [intercalate_cons_flatMap]
  induction fs generalizing l with
  | nil => simp
  | cons f fs ih =>
    rw [List.flatMap_cons, List.flatMap_cons, List.cons_append, List.cons_append,
      List.splitOn_append_cons_self, ih]

/-- A reading of pieces that overlooks a leading `x` reads as much behind an `x`. -/
theorem filterMap_splitOn_cons {f : List α → Option β} {d x : α} (hx : x ≠ d)
    (hf : ∀ s, f (x :: s) = f s) (s : List α) :
    ((x :: s).splitOn d).filterMap f = (s.splitOn d).filterMap f := by
  classical
  rw [splitOn_eq_cut, splitOn_eq_cut, cut_cons_ne hx]
  simp only [List.filterMap_cons, hf]

/-- What such a reading finds in a join is what it finds in the fields. -/
theorem filterMap_splitOn_intercalate {f : List α → Option β} {d x : α} (hx : x ≠ d)
    (hf : ∀ s, f (x :: s) = f s) (l : List α) (ls : List (List α)) :
    (([d, x].intercalate (l :: ls)).splitOn d).filterMap f =
      (l :: ls).flatMap fun s => (s.splitOn d).filterMap f := by
  rw [splitOn_intercalate_cons, List.filterMap_append, List.filterMap_flatMap, List.flatMap_cons]
  congr 1
  apply List.flatMap_congr
  exact fun s _ => filterMap_splitOn_cons hx hf s

end Split

/-- The elements of a join are the separator and those of the fields. -/
theorem mem_of_mem_intercalate {sep : List α} {fs : List (List α)} {x : α}
    (h : x ∈ sep.intercalate fs) : x ∈ sep ∨ ∃ l ∈ fs, x ∈ l := by
  induction fs with
  | nil => simp at h
  | cons l fs ih =>
    cases fs with
    | nil => exact Or.inr ⟨l, List.mem_cons_self, by simpa using h⟩
    | cons m fs =>
      rw [List.intercalate_cons_cons, List.append_assoc] at h
      rcases List.mem_append.mp h with hl | h
      · exact Or.inr ⟨l, List.mem_cons_self, hl⟩
      · rcases List.mem_append.mp h with hs | h
        · exact Or.inl hs
        · rcases ih h with hs | ⟨k, hk, hx⟩
          · exact Or.inl hs
          · exact Or.inr ⟨k, List.mem_cons_of_mem _ hk, hx⟩

theorem mem_intercalate {sep l : List α} {fs : List (List α)} {x : α} (hl : l ∈ fs)
    (hx : x ∈ l) : x ∈ sep.intercalate fs := by
  cases fs with
  | nil => simp at hl
  | cons m fs =>
    rw [intercalate_cons_flatMap, List.mem_append]
    rcases List.mem_cons.mp hl with rfl | hl
    · exact Or.inl hx
    · exact Or.inr (List.mem_flatMap.mpr ⟨l, hl, List.mem_append.mpr (Or.inr hx)⟩)

theorem mem_of_mem_splitOn [BEq α] [LawfulBEq α] {d x : α} {s l : List α} (hl : l ∈ s.splitOn d)
    (hx : x ∈ l) : x ∈ s := by
  have h : x ∈ [d].intercalate (s.splitOn d) := mem_intercalate hl hx
  rwa [List.intercalate_splitOn] at h

/-- No part of a split contains the delimiter. -/
theorem notMem_of_mem_splitOn [BEq α] [LawfulBEq α] {d : α} {s l : List α}
    (h : l ∈ s.splitOn d) : d ∉ l := by
  induction hn : s.length using Nat.strongRecOn generalizing s with
  | _ n ih =>
    subst hn
    by_cases hs : d ∈ s
    · obtain ⟨a, b, rfl, ha⟩ := List.eq_append_cons_of_mem hs
      rw [List.splitOn_append_cons_self_of_not_mem ha] at h
      rcases List.mem_cons.mp h with rfl | h
      · exact ha
      · exact ih b.length (by simp only [List.length_append, List.length_cons]; omega) h rfl
    · rw [List.splitOn_eq_singleton hs, List.mem_singleton] at h
      rw [h]
      exact hs

end Delimited
