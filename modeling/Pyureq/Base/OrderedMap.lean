import Mathlib.Data.List.Nodup
import Mathlib.Data.List.Perm.Subperm

/-! Insertion-ordered finite maps. Assigning to a present key keeps its place in the
order, assigning to a new key appends it, so the structure is a model of the ordered
dictionaries of scripting languages. The order carries no meaning for `get?`. -/

/-- An association list in which no key occurs twice. -/
structure OrderedMap (κ ν : Type*) where
  entries : List (κ × ν)
  nodup : (entries.map Prod.fst).Nodup

namespace OrderedMap
variable {κ ν μ : Type*}

@[ext] theorem ext {m n : OrderedMap κ ν} (h : m.entries = n.entries) : m = n := by
  cases m
  cases n
  simpa using h

def keys (m : OrderedMap κ ν) : List κ := m.entries.map Prod.fst

def values (m : OrderedMap κ ν) : List ν := m.entries.map Prod.snd

def empty : OrderedMap κ ν := ⟨[], List.nodup_nil⟩

@[simp] theorem empty_entries : (empty : OrderedMap κ ν).entries = [] := rfl

theorem mem_keys_of_mem {m : OrderedMap κ ν} {k : κ} {v : ν} (h : (k, v) ∈ m.entries) :
    k ∈ m.keys := List.mem_map_of_mem h

theorem mem_keys {m : OrderedMap κ ν} {k : κ} : k ∈ m.keys ↔ ∃ v, (k, v) ∈ m.entries := by
  simp [keys]

/-- Distinct keys make the value of an entry unique. -/
theorem entry_unique {m : OrderedMap κ ν} {k : κ} {v w : ν} (hv : (k, v) ∈ m.entries)
    (hw : (k, w) ∈ m.entries) : v = w := by
  have h := List.inj_on_of_nodup_map m.nodup hv hw rfl
  simpa using h

section Assign
variable [DecidableEq κ]

instance [DecidableEq ν] : DecidableEq (OrderedMap κ ν) := fun m n =>
  decidable_of_iff (m.entries = n.entries) ⟨ext, fun h => h ▸ rfl⟩

/-- Replace the value of a present key in place, or append a new entry. -/
def assign (k : κ) (v : ν) : List (κ × ν) → List (κ × ν)
  | [] => [(k, v)]
  | e :: es => if e.1 = k then (k, v) :: es else e :: assign k v es

theorem assign_keys (k : κ) (v : ν) (es : List (κ × ν)) :
    (assign k v es).map Prod.fst =
      if k ∈ es.map Prod.fst then es.map Prod.fst else es.map Prod.fst ++ [k] := by
  induction es with
  | nil => simp [assign]
  | cons e es ih =>
    by_cases h : e.1 = k
    · simp [assign, h]
    · have hk : ¬k = e.1 := fun hk => h hk.symm
      simp only [assign, h, if_false, List.map_cons, ih, List.mem_cons, hk, false_or]
      split <;> simp

theorem assign_nodup (k : κ) (v : ν) {es : List (κ × ν)} (h : (es.map Prod.fst).Nodup) :
    ((assign k v es).map Prod.fst).Nodup := by
  rw [assign_keys]
  split
  · exact h
  next hk => exact List.nodup_append.mpr ⟨h, List.nodup_singleton k, by
      intro a ha b hb
      rw [List.mem_singleton] at hb
      rintro rfl
      exact hk (hb ▸ ha)⟩

theorem lookup_cons_ite (k j : κ) (v : ν) (es : List (κ × ν)) :
    List.lookup j ((k, v) :: es) = if j = k then some v else es.lookup j := by
  by_cases h : j = k
  · simp [h]
  · have hb : (j == k) = false := by simpa using h
    simp [List.lookup_cons, hb, h]

theorem assign_lookup (k j : κ) (v : ν) (es : List (κ × ν)) :
    (assign k v es).lookup j = if j = k then some v else es.lookup j := by
  induction es with
  | nil => rw [assign, lookup_cons_ite]
  | cons e es ih =>
    obtain ⟨i, w⟩ := e
    by_cases hi : i = k
    · subst i
      rw [assign, if_pos rfl, lookup_cons_ite, lookup_cons_ite]
      split <;> rfl
    · rw [assign, if_neg hi, lookup_cons_ite, lookup_cons_ite, ih]
      by_cases hj : j = i
      · simp [hj, hi]
      · simp [hj]

theorem assign_of_notMem (k : κ) (v : ν) {es : List (κ × ν)} (h : k ∉ es.map Prod.fst) :
    assign k v es = es ++ [(k, v)] := by
  induction es with
  | nil => rfl
  | cons e es ih =>
    simp only [List.map_cons, List.mem_cons, not_or] at h
    have he : ¬e.1 = k := fun he => h.1 he.symm
    simp only [assign, he, if_false, ih h.2, List.cons_append]

def get? (m : OrderedMap κ ν) (k : κ) : Option ν := m.entries.lookup k

def insert (m : OrderedMap κ ν) (k : κ) (v : ν) : OrderedMap κ ν :=
  ⟨assign k v m.entries, assign_nodup k v m.nodup⟩

@[simp] theorem get?_empty (k : κ) : (empty : OrderedMap κ ν).get? k = none := rfl

@[simp] theorem get?_insert (m : OrderedMap κ ν) (k j : κ) (v : ν) :
    (m.insert k v).get? j = if j = k then some v else m.get? j :=
  assign_lookup k j v m.entries

/-- A lookup finds exactly the entries of the list. -/
theorem get?_eq_some {m : OrderedMap κ ν} {k : κ} {v : ν} :
    m.get? k = some v ↔ (k, v) ∈ m.entries := by
  constructor
  · intro h
    obtain ⟨l₁, l₂, hl, -⟩ := List.lookup_eq_some_iff.mp h
    simp [hl]
  · intro h
    cases hg : m.get? k with
    | none =>
      have hn := List.lookup_eq_none_iff.mp hg (k, v) h
      simp at hn
    | some w =>
      obtain ⟨l₁, l₂, hl, -⟩ := List.lookup_eq_some_iff.mp hg
      have hw : (k, w) ∈ m.entries := by simp [hl]
      rw [entry_unique hw h]

theorem get?_eq_none {m : OrderedMap κ ν} {k : κ} : m.get? k = none ↔ k ∉ m.keys := by
  constructor
  · intro h hk
    obtain ⟨v, hv⟩ := mem_keys.mp hk
    rw [get?_eq_some.mpr hv] at h
    contradiction
  · intro h
    cases hg : m.get? k with
    | none => rfl
    | some v => exact absurd (mem_keys_of_mem (get?_eq_some.mp hg)) h

/-- Assign the pairs of a list from left to right. -/
def update (m : OrderedMap κ ν) : List (κ × ν) → OrderedMap κ ν
  | [] => m
  | e :: es => (m.insert e.1 e.2).update es

def ofList (es : List (κ × ν)) : OrderedMap κ ν := empty.update es

/-- `union m n` is `m` overridden by `n`. -/
def union (m n : OrderedMap κ ν) : OrderedMap κ ν := m.update n.entries

theorem update_append (m : OrderedMap κ ν) (es fs : List (κ × ν)) :
    m.update (es ++ fs) = (m.update es).update fs := by
  induction es generalizing m with
  | nil => rfl
  | cons e es ih => exact ih (m.insert e.1 e.2)

/-- After an update a key has its last assigned value, or its old one. -/
theorem get?_update (m : OrderedMap κ ν) (es : List (κ × ν)) (k : κ) :
    (m.update es).get? k = (es.reverse.lookup k).or (m.get? k) := by
  induction es generalizing m with
  | nil => simp [update]
  | cons e es ih =>
    obtain ⟨j, v⟩ := e
    rw [update, ih, get?_insert, List.reverse_cons, List.lookup_append, lookup_cons_ite,
      Option.or_assoc]
    congr 1
    by_cases h : k = j <;> simp [h]

theorem get?_ofList (es : List (κ × ν)) (k : κ) :
    (ofList es).get? k = es.reverse.lookup k := by
  rw [ofList, get?_update, get?_empty, Option.or_none]

/-- In a list that goes on, what comes later overrides. -/
theorem get?_ofList_append (es fs : List (κ × ν)) (k : κ) :
    (ofList (es ++ fs)).get? k = ((ofList fs).get? k).or ((ofList es).get? k) := by
  rw [get?_ofList fs, ofList, update_append, get?_update, ← ofList]

/-- Reading a list with distinct keys is the same from either end. -/
theorem lookup_reverse (m : OrderedMap κ ν) (k : κ) :
    m.entries.reverse.lookup k = m.get? k := by
  have hr : (m.entries.reverse.map Prod.fst).Nodup := by
    rw [List.map_reverse]
    exact List.nodup_reverse.mpr m.nodup
  have he : ∀ o, (⟨m.entries.reverse, hr⟩ : OrderedMap κ ν).get? k = o ↔ m.get? k = o := by
    intro o
    cases o with
    | none => rw [get?_eq_none, get?_eq_none]; simp [keys]
    | some v => rw [get?_eq_some, get?_eq_some]; simp
  exact (he _).mpr rfl

theorem get?_union (m n : OrderedMap κ ν) (k : κ) :
    (m.union n).get? k = (n.get? k).or (m.get? k) := by
  rw [union, get?_update, lookup_reverse]

theorem update_disjoint {m : OrderedMap κ ν} {es : List (κ × ν)}
    (hd : (m.keys ++ es.map Prod.fst).Nodup) : (m.update es).entries = m.entries ++ es := by
  induction es generalizing m with
  | nil => simp [update]
  | cons e es ih =>
    have he : e.1 ∉ m.keys := by
      intro he
      exact (List.nodup_append.mp hd).2.2 e.1 he e.1 (by simp) rfl
    have hi : (m.insert e.1 e.2).entries = m.entries ++ [e] := assign_of_notMem e.1 e.2 he
    rw [update, ih, hi, List.append_assoc, List.singleton_append]
    rw [keys, hi]
    simpa [keys] using hd

/-- Rebuilding a map from its own entries changes nothing. -/
@[simp] theorem ofList_entries (m : OrderedMap κ ν) : ofList m.entries = m :=
  ext (update_disjoint (by simpa [keys] using m.nodup))

theorem ofList_of_nodup {es : List (κ × ν)} (h : (es.map Prod.fst).Nodup) :
    (ofList es).entries = es := congrArg entries (ofList_entries ⟨es, h⟩)

@[simp] theorem empty_union (m : OrderedMap κ ν) : empty.union m = m := ofList_entries m

theorem mem_keys_iff_get? {m : OrderedMap κ ν} {k : κ} :
    k ∈ m.keys ↔ (m.get? k).isSome := by
  rw [← not_iff_not, ← get?_eq_none]
  simp

theorem mem_of_get?_ofList {es : List (κ × ν)} {k : κ} {v : ν}
    (h : (ofList es).get? k = some v) : (k, v) ∈ es := by
  rw [get?_ofList] at h
  obtain ⟨l₁, l₂, hl, -⟩ := List.lookup_eq_some_iff.mp h
  rw [← List.mem_reverse, hl]
  exact List.mem_append_cons_self

/-- Converting the values converts what a lookup finds. -/
theorem get?_ofList_map (f : ν → μ) (es : List (κ × ν)) (k : κ) :
    (ofList (es.map fun e => (e.1, f e.2))).get? k = ((ofList es).get? k).map f := by
  rw [get?_ofList, get?_ofList, ← List.map_reverse]
  induction es.reverse with
  | nil => rfl
  | cons e es ih =>
    rw [List.map_cons, lookup_cons_ite, lookup_cons_ite, ih]
    split <;> rfl

/-- Renaming the keys without identifying any renames the lookups. -/
theorem get?_ofList_rename {ι : Type*} [DecidableEq ι] {f : κ → ι} (hf : Function.Injective f)
    (es : List (κ × ν)) (k : κ) :
    (ofList (es.map fun e => (f e.1, e.2))).get? (f k) = (ofList es).get? k := by
  rw [get?_ofList, get?_ofList, ← List.map_reverse]
  induction es.reverse with
  | nil => rfl
  | cons e es ih =>
    rw [List.map_cons, lookup_cons_ite, lookup_cons_ite, ih]
    simp only [hf.eq_iff]

theorem mem_keys_ofList {es : List (κ × ν)} {k : κ} :
    k ∈ (ofList es).keys ↔ k ∈ es.map Prod.fst := by
  rw [← not_iff_not, ← get?_eq_none, get?_ofList, List.lookup_eq_none_iff]
  simp only [List.mem_reverse, bne_iff_ne, List.mem_map]
  constructor
  · rintro h ⟨e, he, rfl⟩
    exact h e he rfl
  · rintro h e he rfl
    exact h ⟨e, he, rfl⟩

/-- A key of the list gets one of its values there. -/
theorem exists_get?_ofList {es : List (κ × ν)} {k : κ} (h : k ∈ es.map Prod.fst) :
    ∃ v, (k, v) ∈ es ∧ (ofList es).get? k = some v := by
  obtain ⟨v, hv⟩ := Option.isSome_iff_exists.mp (mem_keys_iff_get?.mp (mem_keys_ofList.mpr h))
  exact ⟨v, mem_of_get?_ofList hv, hv⟩

theorem mem_keys_union {m n : OrderedMap κ ν} {k : κ} :
    k ∈ (m.union n).keys ↔ k ∈ n.keys ∨ k ∈ m.keys := by
  simp only [mem_keys_iff_get?, get?_union, Option.isSome_or, Bool.or_eq_true]

/-- The union separates names that `f` identifies exactly when both maps spell them alike. -/
theorem union_image_nodup_iff {m n : OrderedMap κ ν} {f : κ → μ} (hm : (m.keys.map f).Nodup)
    (hn : (n.keys.map f).Nodup) :
    ((m.union n).keys.map f).Nodup ↔ ∀ j ∈ n.keys, ∀ k ∈ m.keys, f j = f k → j = k := by
  have hu : (m.union n).keys.Nodup := (m.union n).nodup
  rw [List.nodup_map_iff_inj_on hu]
  constructor
  · intro h j hj k hk
    exact h j (mem_keys_union.mpr (Or.inl hj)) k (mem_keys_union.mpr (Or.inr hk))
  · intro h j hj k hk hjk
    rcases mem_keys_union.mp hj with hj | hj <;> rcases mem_keys_union.mp hk with hk | hk
    · exact List.inj_on_of_nodup_map hn hj hk hjk
    · exact h j hj k hk hjk
    · exact (h k hk j hj hjk.symm).symm
    · exact List.inj_on_of_nodup_map hm hj hk hjk

/-- Remove a key. -/
def erase (m : OrderedMap κ ν) (k : κ) : OrderedMap κ ν where
  entries := m.entries.filter fun e => e.1 ≠ k
  nodup := m.nodup.sublist (List.filter_sublist.map Prod.fst)

theorem keys_erase (m : OrderedMap κ ν) (k : κ) :
    (m.erase k).keys = m.keys.filter fun j => j ≠ k := by
  simp only [keys, erase, List.filter_map]
  rfl

@[simp] theorem get?_erase (m : OrderedMap κ ν) (k j : κ) :
    (m.erase k).get? j = if j = k then none else m.get? j := by
  have h : ∀ v, (m.erase k).get? j = some v ↔ (if j = k then none else m.get? j) = some v := by
    intro v
    rw [get?_eq_some, Option.ite_none_left_eq_some, get?_eq_some]
    simp [erase, and_comm]
  exact Option.ext h

theorem keys_insert (m : OrderedMap κ ν) (k : κ) (v : ν) :
    (m.insert k v).keys = if k ∈ m.keys then m.keys else m.keys ++ [k] :=
  assign_keys k v m.entries

/-- The keys in their order and the lookups determine the entries. -/
theorem entries_eq_filterMap (m : OrderedMap κ ν) :
    m.entries = m.keys.filterMap fun k => (m.get? k).map fun v => (k, v) := by
  rw [keys, List.filterMap_map]
  conv_lhs => rw [← List.filterMap_some (l := m.entries)]
  apply List.filterMap_congr
  intro e he
  simp [get?_eq_some.mpr he]

/-- Maps with the same values have the same entries, in some order. -/
theorem entries_perm {m n : OrderedMap κ ν} (h : ∀ k, m.get? k = n.get? k) :
    m.entries.Perm n.entries := by
  refine (List.perm_ext_iff_of_nodup m.nodup.of_map n.nodup.of_map).mpr ?_
  rintro ⟨k, v⟩
  rw [← get?_eq_some, ← get?_eq_some, h]

section Equality
variable [BEq ν]

/-- Equality of dictionaries: the same keys with equal values, in any order. -/
def same (m n : OrderedMap κ ν) : Bool :=
  m.entries.length == n.entries.length &&
    m.entries.all fun e => match n.get? e.1 with | some v => e.2 == v | none => false

theorem same_iff {m n : OrderedMap κ ν} :
    m.same n = true ↔ ∀ k, Option.Rel (fun v w => (v == w) = true) (m.get? k) (n.get? k) := by
  have hkeys : ∀ k : OrderedMap κ ν, k.keys.length = k.entries.length := fun _ => List.length_map _
  rw [same, Bool.and_eq_true, beq_iff_eq, List.all_eq_true, ← hkeys, ← hkeys]
  constructor
  · rintro ⟨hlen, hall⟩ k
    cases hm : m.get? k with
    | some v =>
      have hv := hall (k, v) (get?_eq_some.mp hm)
      cases hn : n.get? k with
      | some w =>
        rw [hn] at hv
        exact Option.Rel.some hv
      | none => simp [hn] at hv
    | none =>
      -- every key of `m` is one of `n`, and there are no more of them
      have hsub : m.keys ⊆ n.keys := by
        intro j hj
        obtain ⟨v, hv⟩ := mem_keys.mp hj
        have hj' := hall (j, v) hv
        rw [mem_keys_iff_get?]
        cases hn : n.get? j with
        | some w => rfl
        | none => simp [hn] at hj'
      have hperm := (List.subperm_of_subset m.nodup hsub).perm_of_length_le (Nat.le_of_eq hlen.symm)
      have hnone : n.get? k = none := by
        rw [get?_eq_none] at hm ⊢
        exact fun hk => hm (hperm.mem_iff.mpr hk)
      rw [hnone]
      exact Option.Rel.none
  · intro h
    have hmem : ∀ k, k ∈ m.keys ↔ k ∈ n.keys := by
      intro k
      have hk := h k
      rw [mem_keys_iff_get?, mem_keys_iff_get?]
      generalize m.get? k = x at hk ⊢
      generalize n.get? k = y at hk ⊢
      cases hk <;> simp
    refine ⟨((List.perm_ext_iff_of_nodup m.nodup n.nodup).mpr hmem).length_eq, ?_⟩
    rintro ⟨k, v⟩ he
    have hk := h k
    rw [get?_eq_some.mpr he] at hk
    generalize n.get? k = y at hk ⊢
    cases hk with
    | some hv => exact hv

end Equality
end Assign
end OrderedMap
