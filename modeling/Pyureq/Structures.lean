import Pyureq.Python.Value

/-! `CaseInsensitiveDict` of `structures.py`. The store maps a lowered name to the name as
last written and its value; that the key is the lowered name is part of the structure. -/

namespace Pyureq

structure CaseInsensitiveDict (lower : Text → Text) (ν : Type*) where
  store : OrderedMap Text (Text × ν)
  keyed : ∀ e ∈ store.entries, lower e.2.1 = e.1

namespace CaseInsensitiveDict
variable {lower : Text → Text} {ν : Type*}

def empty : CaseInsensitiveDict lower ν := ⟨OrderedMap.empty, by simp⟩

/-- `self._store[key.lower()] = (key, value)`. -/
def setItem (d : CaseInsensitiveDict lower ν) (key : Text) (value : ν) :
    CaseInsensitiveDict lower ν where
  store := d.store.insert (lower key) (key, value)
  keyed := by
    rintro ⟨k, o, v⟩ he
    rw [← OrderedMap.get?_eq_some, OrderedMap.get?_insert] at he
    split at he
    next hk =>
      obtain ⟨rfl, -⟩ := Prod.mk.inj (Option.some.inj he)
      exact hk.symm
    next => exact d.keyed (k, o, v) (OrderedMap.get?_eq_some.mp he)

/-- `self[key]`; `none` is the `KeyError`. -/
def getItem (d : CaseInsensitiveDict lower ν) (key : Text) : Option ν :=
  (d.store.get? (lower key)).map Prod.snd

/-- `iter(self)`: the names as last written. -/
def iter (d : CaseInsensitiveDict lower ν) : List Text := d.store.values.map Prod.fst

def len (d : CaseInsensitiveDict lower ν) : ℕ := d.store.entries.length

/-- The inherited `items()`, which looks every name up again. -/
def items (d : CaseInsensitiveDict lower ν) : List (Text × ν) :=
  d.iter.filterMap fun key => (d.getItem key).map fun v => (key, v)

def lowerItems (d : CaseInsensitiveDict lower ν) : List (Text × ν) :=
  d.store.entries.map fun e => (e.1, e.2.2)

/-- The inherited `update`, on the pairs its argument yields. -/
def update (d : CaseInsensitiveDict lower ν) : List (Text × ν) → CaseInsensitiveDict lower ν
  | [] => d
  | e :: es => (d.setItem e.1 e.2).update es

/-- `CaseInsensitiveDict(data)`. -/
def ofPairs (data : List (Text × ν)) : CaseInsensitiveDict lower ν := empty.update data

/-- `del self[key]`; `none` is the `KeyError`. -/
def delItem (d : CaseInsensitiveDict lower ν) (key : Text) : Option (CaseInsensitiveDict lower ν) :=
  match d.store.get? (lower key) with
  | none => none
  | some _ => some
    { store := d.store.erase (lower key)
      keyed := fun e he => d.keyed e (List.mem_of_mem_filter he) }

def contains (d : CaseInsensitiveDict lower ν) (key : Text) : Bool :=
  (d.store.get? (lower key)).isSome

/-- The loop of the inherited `update` over the keys of a mapping. The mapping is looked up
as it is at that moment, since it may be `self`; the Boolean says that no lookup failed. -/
def updateKeys (read : CaseInsensitiveDict lower ν → Text → Option ν) :
    List Text → CaseInsensitiveDict lower ν → Bool × CaseInsensitiveDict lower ν
  | [], d => (true, d)
  | key :: keys, d =>
    match read d key with
    | none => (false, d)
    | some value => updateKeys read keys (d.setItem key value)

/-- The inherited `setdefault`. -/
def setDefault (d : CaseInsensitiveDict lower ν) (key : Text) (default : ν) :
    ν × CaseInsensitiveDict lower ν :=
  match d.getItem key with
  | some value => (value, d)
  | none => (default, d.setItem key default)

/-- The inherited `pop`; without a default a missing key is a `KeyError`. -/
def pop (d : CaseInsensitiveDict lower ν) (key : Text) (default : Option ν) :
    Option ν × CaseInsensitiveDict lower ν :=
  match d.getItem key with
  | none => (default, d)
  | some value =>
    match d.delItem key with
    | none => (none, d)
    | some d' => (some value, d')

/-- The inherited `popitem`, which takes the first name. -/
def popItem (d : CaseInsensitiveDict lower ν) :
    Option (Text × ν) × CaseInsensitiveDict lower ν :=
  match d.iter with
  | [] => (none, d)
  | key :: _ =>
    match d.getItem key with
    | none => (none, d)
    | some value =>
      match d.delItem key with
      | none => (none, d)
      | some d' => (some (key, value), d')

theorem delItem_some {d : CaseInsensitiveDict lower ν} {key : Text} {e : Text × ν}
    (h : d.store.get? (lower key) = some e) :
    ∃ d', d.delItem key = some d' ∧ d'.store = d.store.erase (lower key) := by
  unfold delItem
  rw [h]
  exact ⟨_, rfl, rfl⟩

theorem delItem_none {d : CaseInsensitiveDict lower ν} {key : Text}
    (h : d.store.get? (lower key) = none) : d.delItem key = none := by
  unfold delItem
  rw [h]

theorem delItem_len {d d' : CaseInsensitiveDict lower ν} {key : Text}
    (h : d.delItem key = some d') : d'.len < d.len := by
  unfold delItem at h
  split at h
  · cases h
  next v hv =>
    obtain rfl := Option.some.inj h
    apply List.length_filter_lt_length_iff_exists.mpr
    exact ⟨_, OrderedMap.get?_eq_some.mp hv, by simp⟩

theorem popItem_len {d d' : CaseInsensitiveDict lower ν} {e : Text × ν}
    (h : d.popItem = (some e, d')) : d'.len < d.len := by
  unfold popItem at h
  split at h
  · simp at h
  · split at h
    · simp at h
    · split at h
      · simp at h
      next hdel =>
        obtain ⟨-, rfl⟩ := Prod.mk.inj h
        exact delItem_len hdel

/-- The inherited `clear`: `popitem` until it raises. -/
def clear (d : CaseInsensitiveDict lower ν) : CaseInsensitiveDict lower ν :=
  match _h : d.popItem with
  | (none, d') => d'
  | (some _, d') => d'.clear
  termination_by d.len
  decreasing_by exact popItem_len _h

/-- `CaseInsensitiveDict(self._store.values())`. -/
def copy (d : CaseInsensitiveDict lower ν) : CaseInsensitiveDict lower ν := ofPairs d.store.values

/-- `self == other` for a second dict of the class. -/
def eq [BEq ν] (d e : CaseInsensitiveDict lower ν) : Bool :=
  (OrderedMap.ofList d.lowerItems).same (OrderedMap.ofList e.lowerItems)

/-- `bytes.lower()`, byte by byte. -/
def lowerByte (x : UInt8) : UInt8 := if 65 ≤ x && x ≤ 90 then x + 32 else x

/-- `k.lower()`, which strings and bytes have. -/
def lowerKey (lower : Text → Text) : PyVal → Except PyErr (Text ⊕ Bytes)
  | .str s => .ok (.inl (lower s))
  | .bytes v => .ok (.inr (v.map lowerByte))
  | _ => .error ⟨.attributeError, "object has no attribute 'lower'".toList⟩

/-- The assignments that `{k.lower(): v for k, v in items}` makes. -/
def lowerKeys (lower : Text → Text) :
    List (PyVal × PyVal) → Except PyErr (List ((Text ⊕ Bytes) × PyVal))
  | [] => .ok []
  | e :: es => do
    let k ← lowerKey lower e.1
    let rest ← lowerKeys lower es
    pure ((k, e.2) :: rest)

/-- `self == other` for any other value, given `dict(other)`; the keys of both dicts are strings
or bytes. -/
def eqOther [BEq PyVal] (d : CaseInsensitiveDict lower PyVal)
    (dictOther : Except PyErr (List (PyVal × PyVal))) : Except PyErr Bool := do
  let items ← dictOther
  let lowered ← lowerKeys lower items
  pure ((OrderedMap.ofList (d.lowerItems.map fun e => (Sum.inl e.1, e.2))).same
    (OrderedMap.ofList lowered))

theorem getItem_setItem (d : CaseInsensitiveDict lower ν) (key n : Text) (value : ν) :
    (d.setItem key value).getItem n = if lower n = lower key then some value else d.getItem n := by
  simp only [getItem, setItem, OrderedMap.get?_insert]
  split <;> rfl

/-- The second lookup of `items()` finds the value stored with the name. -/
theorem items_eq (d : CaseInsensitiveDict lower ν) :
    d.items = d.store.entries.map Prod.snd := by
  have hget : ∀ e ∈ d.store.entries, d.getItem e.2.1 = some e.2.2 := by
    intro e he
    rw [getItem, d.keyed e he, OrderedMap.get?_eq_some.mpr he, Option.map_some]
  rw [items, iter, OrderedMap.values, List.map_map, List.filterMap_map]
  rw [← List.filterMap_eq_map]
  apply List.filterMap_congr
  intro e he
  simp [hget e he]

/-- Two names of the dict that agree up to case are the same name. -/
theorem iter_distinct (d : CaseInsensitiveDict lower ν) :
    (d.items.map fun e => lower e.1).Nodup := by
  have h : (d.items.map fun e => lower e.1) = d.store.entries.map Prod.fst := by
    rw [items_eq, List.map_map]
    exact List.map_congr_left fun e he => d.keyed e he
  rw [h]
  exact d.store.nodup

theorem mem_items {d : CaseInsensitiveDict lower ν} {k : Text} {v : ν} :
    (k, v) ∈ d.items ↔ (lower k, k, v) ∈ d.store.entries := by
  rw [items_eq, List.mem_map]
  constructor
  · rintro ⟨⟨l, k', v'⟩, he, h⟩
    obtain ⟨rfl, rfl⟩ := Prod.mk.inj h
    rwa [d.keyed _ he]
  · exact fun h => ⟨_, h, rfl⟩

theorem getItem_eq_some {d : CaseInsensitiveDict lower ν} {n : Text} {v : ν} :
    d.getItem n = some v ↔ ∃ k, (k, v) ∈ d.items ∧ lower k = lower n := by
  simp only [getItem, Option.map_eq_some_iff, OrderedMap.get?_eq_some, Prod.exists]
  constructor
  · rintro ⟨k, w, he, rfl⟩
    have hk := d.keyed _ he
    exact ⟨k, mem_items.mpr (by rwa [hk]), hk⟩
  · rintro ⟨k, hk, hl⟩
    exact ⟨k, v, hl ▸ mem_items.mp hk, rfl⟩

/-- On pairs whose names are already lowered the dict is a plain one. -/
theorem getItem_ofPairs {es : List (Text × ν)} (h : ∀ e ∈ es, lower e.1 = e.1) (n : Text) :
    (ofPairs es : CaseInsensitiveDict lower ν).getItem n =
      (OrderedMap.ofList es).get? (lower n) := by
  have hupdate : ∀ (d : CaseInsensitiveDict lower ν) (m : OrderedMap Text ν),
      (∀ k, d.getItem k = m.get? (lower k)) → (d.update es).getItem n =
        (m.update es).get? (lower n) := by
    induction es with
    | nil => exact fun d m hd => hd n
    | cons e es ih =>
      obtain ⟨he, hes⟩ := List.forall_mem_cons.mp h
      intro d m hd
      apply ih hes
      intro k
      rw [getItem_setItem, OrderedMap.get?_insert, he, hd k]
  exact hupdate empty OrderedMap.empty fun _ => rfl

theorem update_store (d : CaseInsensitiveDict lower ν) (es : List (Text × ν)) :
    (d.update es).store = d.store.update (es.map fun e => (lower e.1, e)) := by
  induction es generalizing d with
  | nil => rfl
  | cons e es ih => exact ih _

/-- Pairs whose names differ up to case are the items of the dict made from them. -/
theorem items_ofPairs {es : List (Text × ν)} (h : (es.map fun e => lower e.1).Nodup) :
    (ofPairs es : CaseInsensitiveDict lower ν).items = es := by
  have hkeys : ((es.map fun e => (lower e.1, e)).map Prod.fst).Nodup := by
    rwa [List.map_map]
  have hstore : (ofPairs es : CaseInsensitiveDict lower ν).store.entries =
      es.map fun e => (lower e.1, e) := by
    rw [ofPairs, update_store]
    exact OrderedMap.ofList_of_nodup hkeys
  rw [items_eq, hstore, List.map_map]
  exact List.map_id es

end CaseInsensitiveDict
end Pyureq
