import Mathlib.Logic.Function.Basic
import Pyureq.Base.Simulation
import Pyureq.Structures

/-! `CaseInsensitiveDict` against an ordered map over lowered names that remembers how each
name was last written. Programs create dicts, change them and copy them in any order. -/
namespace Pyureq.DictRefinement
open Simulation CaseInsensitiveDict

variable {lower : Text → Text} {ν : Type*}

/-- What a dict of the class stands for. -/
structure Record (ν : Type*) where
  map : OrderedMap Text ν
  /-- How a lowered name was written when it was last assigned. -/
  spelling : Text → Text

namespace Record

def empty : Record ν := ⟨OrderedMap.empty, id⟩

def assign (lower : Text → Text) (a : Record ν) (key : Text) (value : ν) : Record ν where
  map := a.map.insert (lower key) value
  spelling := Function.update a.spelling (lower key) key

def remove (lower : Text → Text) (a : Record ν) (key : Text) : Record ν :=
  { a with map := a.map.erase (lower key) }

def assignAll (lower : Text → Text) (a : Record ν) : List (Text × ν) → Record ν
  | [] => a
  | e :: es => (a.assign lower e.1 e.2).assignAll lower es

def items (a : Record ν) : List (Text × ν) := a.map.entries.map fun e => (a.spelling e.1, e.2)

end Record

/-- The dict has the names of the record in their order, with their values and spellings. -/
structure Rep (d : CaseInsensitiveDict lower ν) (a : Record ν) : Prop where
  keys : d.store.keys = a.map.keys
  get? : ∀ k, d.store.get? k = (a.map.get? k).map fun v => (a.spelling k, v)

namespace Rep
variable {d : CaseInsensitiveDict lower ν} {a : Record ν}

theorem getItem (h : Rep d a) (key : Text) : d.getItem key = a.map.get? (lower key) := by
  rw [CaseInsensitiveDict.getItem, h.get?, Option.map_map]
  cases a.map.get? (lower key) <;> rfl

theorem contains (h : Rep d a) (key : Text) :
    d.contains key = true ↔ lower key ∈ a.map.keys := by
  rw [CaseInsensitiveDict.contains, OrderedMap.mem_keys_iff_get?, h.get?, Option.isSome_map]

theorem entries (h : Rep d a) :
    d.store.entries = a.map.entries.map fun e => (e.1, a.spelling e.1, e.2) := by
  rw [OrderedMap.entries_eq_filterMap, OrderedMap.entries_eq_filterMap a.map,
    List.map_filterMap, h.keys]
  apply List.filterMap_congr
  intro k _
  rw [h.get?]
  cases a.map.get? k <;> rfl

theorem lowerItems (h : Rep d a) : d.lowerItems = a.map.entries := by
  rw [CaseInsensitiveDict.lowerItems, h.entries, List.map_map]
  exact List.map_id _

theorem iter (h : Rep d a) : d.iter = a.map.keys.map a.spelling := by
  rw [CaseInsensitiveDict.iter, OrderedMap.values, h.entries, OrderedMap.keys]
  simp only [List.map_map]
  rfl

theorem len (h : Rep d a) : d.len = a.map.entries.length := by
  rw [CaseInsensitiveDict.len, h.entries, List.length_map]

theorem items (h : Rep d a) : d.items = a.items := by
  rw [items_eq, h.entries, List.map_map]
  rfl

/-- A name is filed under what its spelling lowers to. -/
theorem lower_spelling (h : Rep d a) {k : Text} (hk : k ∈ a.map.keys) :
    lower (a.spelling k) = k := by
  obtain ⟨v, hv⟩ := OrderedMap.mem_keys.mp hk
  apply d.keyed (k, a.spelling k, v)
  rw [h.entries]
  exact List.mem_map.mpr ⟨_, hv, rfl⟩

theorem empty : Rep (CaseInsensitiveDict.empty : CaseInsensitiveDict lower ν) Record.empty :=
  ⟨rfl, fun _ => rfl⟩

theorem setItem (h : Rep d a) (key : Text) (value : ν) :
    Rep (d.setItem key value) (a.assign lower key value) where
  keys := by
    rw [CaseInsensitiveDict.setItem, Record.assign, OrderedMap.keys_insert,
      OrderedMap.keys_insert, h.keys]
  get? := by
    intro k
    simp only [CaseInsensitiveDict.setItem, Record.assign, OrderedMap.get?_insert]
    by_cases hk : k = lower key
    · rw [if_pos hk, if_pos hk, hk, Function.update_self]
      rfl
    · rw [if_neg hk, if_neg hk, Function.update_of_ne hk, h.get?]

theorem update (h : Rep d a) (es : List (Text × ν)) :
    Rep (d.update es) (a.assignAll lower es) := by
  induction es generalizing d a with
  | nil => exact h
  | cons e es ih => exact ih (h.setItem e.1 e.2)

theorem delItem_absent (h : Rep d a) {key : Text} (hk : a.map.get? (lower key) = none) :
    d.delItem key = none := by
  apply delItem_none
  rw [h.get?, hk, Option.map_none]

theorem delItem_present (h : Rep d a) {key : Text} {v : ν}
    (hk : a.map.get? (lower key) = some v) :
    ∃ d', d.delItem key = some d' ∧ Rep d' (a.remove lower key) := by
  have hd : d.store.get? (lower key) = some (a.spelling (lower key), v) := by
    rw [h.get?, hk, Option.map_some]
  obtain ⟨d', hdel, hstore⟩ := delItem_some hd
  refine ⟨d', hdel, ?_, ?_⟩
  · rw [hstore, Record.remove, OrderedMap.keys_erase, OrderedMap.keys_erase, h.keys]
  · intro k
    simp only [hstore, Record.remove, OrderedMap.get?_erase, h.get?]
    split <;> rfl

/-- Both `pop` and the record's removal find the same value, or neither finds one. -/
theorem pop (h : Rep d a) (key : Text) (default : Option ν) :
    (∃ v d', a.map.get? (lower key) = some v ∧ d.pop key default = (some v, d') ∧
      Rep d' (a.remove lower key)) ∨
    (a.map.get? (lower key) = none ∧ d.pop key default = (default, d)) := by
  unfold CaseInsensitiveDict.pop
  rw [h.getItem]
  cases hk : a.map.get? (lower key) with
  | none => exact Or.inr ⟨rfl, rfl⟩
  | some v =>
    obtain ⟨d', hdel, hrep⟩ := h.delItem_present hk
    exact Or.inl ⟨v, d', rfl, by simp only [hdel], hrep⟩

/-- `popitem` takes the record's first entry. -/
theorem popItem (h : Rep d a) :
    (a.map.entries = [] ∧ d.popItem = (none, d)) ∨
    ∃ k v es d', a.map.entries = (k, v) :: es ∧ d.popItem = (some (a.spelling k, v), d') ∧
      Rep d' { a with map := a.map.erase k } := by
  unfold CaseInsensitiveDict.popItem
  rw [h.iter, OrderedMap.keys]
  cases he : a.map.entries with
  | nil => exact Or.inl ⟨rfl, rfl⟩
  | cons e es =>
    obtain ⟨k, v⟩ := e
    have hmem : (k, v) ∈ a.map.entries := by simp [he]
    have hget : a.map.get? k = some v := OrderedMap.get?_eq_some.mpr hmem
    have hlower : lower (a.spelling k) = k := h.lower_spelling (OrderedMap.mem_keys_of_mem hmem)
    have hread : d.getItem (a.spelling k) = some v := by rw [h.getItem, hlower, hget]
    have hfound : a.map.get? (lower (a.spelling k)) = some v := by rw [hlower, hget]
    obtain ⟨d', hdel, hrep⟩ := h.delItem_present hfound
    rw [Record.remove, hlower] at hrep
    exact Or.inr ⟨k, v, es, d', rfl, by simp only [List.map_cons, hread, hdel], hrep⟩

end Rep

/-- Every dict of the class stands for some record. -/
theorem exists_rep (d : CaseInsensitiveDict lower ν) : ∃ a, Rep d a := by
  have hkeys : (d.lowerItems.map Prod.fst) = d.store.keys := by
    rw [lowerItems, List.map_map]
    rfl
  refine ⟨⟨⟨d.lowerItems, hkeys ▸ d.store.nodup⟩,
    fun k => ((d.store.get? k).map Prod.fst).getD k⟩, hkeys.symm, ?_⟩
  intro k
  have hget : ∀ v, (⟨d.lowerItems, hkeys ▸ d.store.nodup⟩ : OrderedMap Text ν).get? k = some v ↔
      (d.store.get? k).map Prod.snd = some v := by
    intro v
    rw [OrderedMap.get?_eq_some, Option.map_eq_some_iff]
    simp [lowerItems, OrderedMap.get?_eq_some]
  simp only [Option.ext hget]
  cases d.store.get? k <;> rfl

/-- `clear` ends, and leaves nothing. -/
theorem clear_store (d : CaseInsensitiveDict lower ν) : d.clear.store = OrderedMap.empty := by
  fun_induction CaseInsensitiveDict.clear d with
  | case1 d d' h =>
    obtain ⟨a, ha⟩ := exists_rep d
    rcases ha.popItem with ⟨he, hp⟩ | ⟨k, v, es, d'', -, hp, -⟩
    · obtain rfl := (Prod.mk.inj (h.symm.trans hp)).2
      apply OrderedMap.ext
      rw [ha.entries, he]
      rfl
    · simp [h] at hp
  | case2 d e d' h ih => exact ih

theorem Rep.clear {d : CaseInsensitiveDict lower ν} (spelling : Text → Text) :
    Rep d.clear ⟨OrderedMap.empty, spelling⟩ := by
  refine ⟨congrArg OrderedMap.keys (clear_store d), ?_⟩
  intro k
  rw [clear_store]
  rfl

section Reading
variable {d : CaseInsensitiveDict lower ν}

/-- The loop over the keys of another mapping assigns its entries. -/
theorem updateKeys_other {read : Text → Option ν} {es : List (Text × ν)}
    (h : ∀ e ∈ es, read e.1 = some e.2) :
    d.updateKeys (fun _ => read) (es.map Prod.fst) = (true, d.update es) := by
  induction es generalizing d with
  | nil => rfl
  | cons e es ih =>
    obtain ⟨he, hes⟩ := List.forall_mem_cons.mp h
    rw [List.map_cons, updateKeys, he]
    exact ih hes

/-- Updating a dict with itself assigns to every name the value it has already. -/
theorem updateKeys_self {es : List (Text × ν)} (h : ∀ e ∈ es, d.getItem e.1 = some e.2) :
    d.updateKeys CaseInsensitiveDict.getItem (es.map Prod.fst) = (true, d.update es) := by
  induction es generalizing d with
  | nil => rfl
  | cons e es ih =>
    obtain ⟨he, hes⟩ := List.forall_mem_cons.mp h
    rw [List.map_cons, updateKeys, he]
    apply ih
    intro f hf
    rw [getItem_setItem]
    split
    next hl =>
      have hsame : d.getItem f.1 = d.getItem e.1 := by
        rw [CaseInsensitiveDict.getItem, hl]
        rfl
      rw [← hes f hf, hsame, he]
    next => exact hes f hf

theorem items_getItem : ∀ e ∈ d.items, d.getItem e.1 = some e.2 :=
  fun e he => getItem_eq_some.mpr ⟨e.1, he, rfl⟩

theorem items_keys : d.items.map Prod.fst = d.iter := by
  rw [items_eq, iter, OrderedMap.values, List.map_map]

/-- A copy has the same store. -/
theorem copy_store (d : CaseInsensitiveDict lower ν) : d.copy.store = d.store := by
  have hentries : (d.store.values.map fun e => (lower e.1, e)) = d.store.entries := by
    rw [OrderedMap.values, List.map_map]
    conv_rhs => rw [← List.map_id d.store.entries]
    apply List.map_congr_left
    intro e he
    exact Prod.ext (d.keyed e he) rfl
  rw [copy, ofPairs, update_store, hentries]
  exact OrderedMap.ofList_entries d.store

theorem Rep.copy {a : Record ν} (h : Rep d a) : Rep d.copy a :=
  ⟨by rw [copy_store, h.keys], by rw [copy_store]; exact h.get?⟩

/-- Comparing two dicts compares the maps they stand for. -/
theorem Rep.eq_iff [BEq ν] {e : CaseInsensitiveDict lower ν} {a b : Record ν} (hd : Rep d a)
    (he : Rep e b) : d.eq e = true ↔
      ∀ k, Option.Rel (fun v w => (v == w) = true) (a.map.get? k) (b.map.get? k) := by
  rw [CaseInsensitiveDict.eq, hd.lowerItems, he.lowerItems, OrderedMap.ofList_entries,
    OrderedMap.ofList_entries, OrderedMap.same_iff]

end Reading

/-- What `update` and the constructor read: pairs, a plain dict, or a dict of the class. -/
inductive Source (ν : Type*) where
  | pairs (es : List (Text × ν))
  | mapping (m : OrderedMap Text ν)
  | dict (i : ℕ)

/-- The operations of a program; dicts are named by the order of their creation. -/
inductive Op (ν : Type*) where
  | new (source : Source ν) (kwargs : List (Text × ν))
  | copy (i : ℕ)
  | update (i : ℕ) (source : Source ν) (kwargs : List (Text × ν))
  | getItem (i : ℕ) (key : Text)
  | setItem (i : ℕ) (key : Text) (value : ν)
  | delItem (i : ℕ) (key : Text)
  | setDefault (i : ℕ) (key : Text) (default : ν)
  | pop (i : ℕ) (key : Text) (default : Option ν)
  | popItem (i : ℕ)
  | clear (i : ℕ)

inductive Result (ν : Type*) where
  | done
  | keyError
  | value (v : ν)
  | item (key : Text) (v : ν)
  | created (i : ℕ)
  deriving DecidableEq

section Programs

/-- The part of `d.update(source, **kwargs)` that reads the source; `i` names `d` if it is on
the heap already. -/
def readSource (heap : List (CaseInsensitiveDict lower ν)) (i : Option ℕ)
    (d : CaseInsensitiveDict lower ν) : Source ν → Option (Bool × CaseInsensitiveDict lower ν)
  | .pairs es => some (true, d.update es)
  | .mapping m => some (d.updateKeys (fun _ key => m.get? key) m.keys)
  | .dict j =>
    if i = some j then some (d.updateKeys CaseInsensitiveDict.getItem d.iter)
    else heap[j]?.map fun e => d.updateKeys (fun _ key => e.getItem key) e.iter

def step (heap : List (CaseInsensitiveDict lower ν)) :
    Op ν → Option (Result ν × List (CaseInsensitiveDict lower ν))
  | .new source kwargs => (readSource heap none CaseInsensitiveDict.empty source).map fun r =>
      if r.1 then (.created heap.length, heap ++ [r.2.update kwargs]) else (.keyError, heap)
  | .copy i => heap[i]?.map fun d => (.created heap.length, heap ++ [d.copy])
  | .update i source kwargs => heap[i]?.bind fun d => (readSource heap (some i) d source).map fun r =>
      if r.1 then (.done, heap.set i (r.2.update kwargs)) else (.keyError, heap.set i r.2)
  | .getItem i key => onObject (fun d => match d.getItem key with
      | some v => (.value v, d)
      | none => (.keyError, d)) heap i
  | .setItem i key value => onObject (fun d => (.done, d.setItem key value)) heap i
  | .delItem i key => onObject (fun d => match d.delItem key with
      | some d' => (.done, d')
      | none => (.keyError, d)) heap i
  | .setDefault i key default => onObject (fun d =>
      (.value (d.setDefault key default).1, (d.setDefault key default).2)) heap i
  | .pop i key default => onObject (fun d => match d.pop key default with
      | (some v, d') => (.value v, d')
      | (none, d') => (.keyError, d')) heap i
  | .popItem i => onObject (fun d => match d.popItem with
      | (some e, d') => (.item e.1 e.2, d')
      | (none, d') => (.keyError, d')) heap i
  | .clear i => onObject (fun d => (.done, d.clear)) heap i

/-- The pairs that a source contributes. -/
def sourcePairs (heap : List (Record ν)) : Source ν → Option (List (Text × ν))
  | .pairs es => some es
  | .mapping m => some m.entries
  | .dict j => heap[j]?.map Record.items

/-- The same operations on ordered maps over lowered names. -/
def specStep (lower : Text → Text) (heap : List (Record ν)) :
    Op ν → Option (Result ν × List (Record ν))
  | .new source kwargs => (sourcePairs heap source).map fun es =>
      (.created heap.length, heap ++ [(Record.empty.assignAll lower es).assignAll lower kwargs])
  | .copy i => heap[i]?.map fun a => (.created heap.length, heap ++ [a])
  | .update i source kwargs => heap[i]?.bind fun a => (sourcePairs heap source).map fun es =>
      (.done, heap.set i ((a.assignAll lower es).assignAll lower kwargs))
  | .getItem i key => onObject (fun a => match a.map.get? (lower key) with
      | some v => (.value v, a)
      | none => (.keyError, a)) heap i
  | .setItem i key value => onObject (fun a => (.done, a.assign lower key value)) heap i
  | .delItem i key => onObject (fun a => match a.map.get? (lower key) with
      | some _ => (.done, a.remove lower key)
      | none => (.keyError, a)) heap i
  | .setDefault i key default => onObject (fun a => match a.map.get? (lower key) with
      | some v => (.value v, a)
      | none => (.value default, a.assign lower key default)) heap i
  | .pop i key default => onObject (fun a => match a.map.get? (lower key) with
      | some v => (.value v, a.remove lower key)
      | none => match default with
        | some v => (.value v, a)
        | none => (.keyError, a)) heap i
  | .popItem i => onObject (fun a => match a.map.entries with
      | e :: _ => (.item (a.spelling e.1) e.2, { a with map := a.map.erase e.1 })
      | [] => (.keyError, a)) heap i
  | .clear i => onObject (fun a => (.done, { a with map := OrderedMap.empty })) heap i

/-- A source is read to its end, and what it contributes is assigned. -/
theorem readSource_agree {heap : List (CaseInsensitiveDict lower ν)} {records : List (Record ν)}
    (h : List.Forall₂ Rep heap records) {i : Option ℕ} {d : CaseInsensitiveDict lower ν}
    {a : Record ν} (hd : Rep d a) (hi : ∀ j, i = some j → heap[j]? = some d) (source : Source ν) :
    Option.Rel (fun r es => r.1 = true ∧ Rep r.2 (a.assignAll lower es))
      (readSource heap i d source) (sourcePairs records source) := by
  cases source with
  | pairs es => exact Option.Rel.some ⟨rfl, hd.update es⟩
  | mapping m =>
    have hread : d.updateKeys (fun _ => m.get?) (m.entries.map Prod.fst) =
        (true, d.update m.entries) :=
      updateKeys_other fun e he => OrderedMap.get?_eq_some.mpr he
    exact Option.Rel.some ⟨congrArg Prod.fst hread, congrArg Prod.snd hread ▸ hd.update m.entries⟩
  | dict j =>
    have hj := forall₂_getElem? h j
    rw [readSource, sourcePairs]
    by_cases hij : i = some j
    · rw [hi j hij] at hj
      rw [if_pos hij]
      generalize records[j]? = y at hj ⊢
      cases hj with
      | some hdb =>
        have hread : d.updateKeys CaseInsensitiveDict.getItem (d.items.map Prod.fst) =
            (true, d.update d.items) := updateKeys_self items_getItem
        rw [items_keys] at hread
        rw [hread, Option.map_some, ← hdb.items]
        exact Option.Rel.some ⟨rfl, hd.update d.items⟩
    · rw [if_neg hij]
      generalize heap[j]? = x at hj ⊢
      generalize records[j]? = y at hj ⊢
      cases hj with
      | none => exact Option.Rel.none
      | @some e b heb =>
        have hread : d.updateKeys (fun _ => e.getItem) (e.items.map Prod.fst) =
            (true, d.update e.items) := updateKeys_other items_getItem
        rw [items_keys] at hread
        rw [Option.map_some, Option.map_some, hread, ← heb.items]
        exact Option.Rel.some ⟨rfl, hd.update e.items⟩

/-- One operation of a program, case by case. -/
theorem step_agree (heap : List (CaseInsensitiveDict lower ν)) (records : List (Record ν))
    (op : Op ν) (h : List.Forall₂ Rep heap records) :
    Agree (List.Forall₂ Rep) (step heap op) (specStep lower records op) := by
  have hlen : heap.length = records.length := h.length_eq
  cases op with
  | new source kwargs =>
    have hsource := readSource_agree h (i := none) Rep.empty (by simp) source
    rw [step, specStep]
    generalize readSource heap none CaseInsensitiveDict.empty source = x at hsource ⊢
    generalize sourcePairs records source = y at hsource ⊢
    cases hsource with
    | none => exact Option.Rel.none
    | some hr =>
      obtain ⟨hok, hrep⟩ := hr
      rw [Option.map_some, Option.map_some, if_pos hok, hlen]
      exact Option.Rel.some ⟨rfl, forall₂_snoc h (hrep.update kwargs)⟩
  | copy i =>
    have hi := forall₂_getElem? h i
    rw [step, specStep]
    generalize heap[i]? = x at hi ⊢
    generalize records[i]? = y at hi ⊢
    cases hi with
    | none => exact Option.Rel.none
    | some hrep =>
      rw [Option.map_some, Option.map_some, hlen]
      exact Option.Rel.some ⟨rfl, forall₂_snoc h hrep.copy⟩
  | update i source kwargs =>
    have hi := forall₂_getElem? h i
    rw [step, specStep]
    cases hd : heap[i]? with
    | none =>
      rw [hd] at hi
      generalize records[i]? = y at hi ⊢
      cases hi
      exact Option.Rel.none
    | some d =>
      rw [hd] at hi
      generalize records[i]? = y at hi ⊢
      cases hi with
      | some hrep =>
        have hself : ∀ j, some i = some j → heap[j]? = some d := fun j hj => Option.some.inj hj ▸ hd
        have hsource := readSource_agree h hrep hself source
        rw [Option.bind_some, Option.bind_some]
        generalize readSource heap (some i) d source = x at hsource ⊢
        generalize sourcePairs records source = y at hsource ⊢
        cases hsource with
        | none => exact Option.Rel.none
        | some hr =>
          obtain ⟨hok, hrep'⟩ := hr
          rw [Option.map_some, Option.map_some, if_pos hok]
          exact Option.Rel.some ⟨rfl, forall₂_set h i (hrep'.update kwargs)⟩
  | getItem i key =>
    refine onObject_agree h (fun d a hrep => ?_) i
    rw [hrep.getItem]
    cases a.map.get? (lower key) <;> exact ⟨rfl, hrep⟩
  | setItem i key value =>
    exact onObject_agree h (fun d a hrep => ⟨rfl, hrep.setItem key value⟩) i
  | delItem i key =>
    refine onObject_agree h (fun d a hrep => ?_) i
    cases hk : a.map.get? (lower key) with
    | none =>
      rw [hrep.delItem_absent hk]
      exact ⟨rfl, hrep⟩
    | some v =>
      obtain ⟨d', hdel, hrep'⟩ := hrep.delItem_present hk
      rw [hdel]
      exact ⟨rfl, hrep'⟩
  | setDefault i key default =>
    refine onObject_agree h (fun d a hrep => ?_) i
    rw [CaseInsensitiveDict.setDefault, hrep.getItem]
    cases a.map.get? (lower key) with
    | none => exact ⟨rfl, hrep.setItem key default⟩
    | some v => exact ⟨rfl, hrep⟩
  | pop i key default =>
    refine onObject_agree h (fun d a hrep => ?_) i
    rcases hrep.pop key default with ⟨v, d', hk, hpop, hrep'⟩ | ⟨hk, hpop⟩
    · rw [hk, hpop]
      exact ⟨rfl, hrep'⟩
    · rw [hk, hpop]
      cases default <;> exact ⟨rfl, hrep⟩
  | popItem i =>
    refine onObject_agree h (fun d a hrep => ?_) i
    rcases hrep.popItem with ⟨he, hpop⟩ | ⟨k, v, es, d', he, hpop, hrep'⟩
    · rw [he, hpop]
      exact ⟨rfl, hrep⟩
    · rw [he, hpop]
      exact ⟨rfl, hrep'⟩
  | clear i =>
    exact onObject_agree h (fun d a _ => ⟨rfl, Rep.clear a.spelling⟩) i

/-- The dict that an operation changes, if it changes one. -/
def Op.target : Op ν → Option ℕ
  | .new _ _ | .copy _ => none
  | .update i _ _ | .getItem i _ | .setItem i _ _ | .delItem i _ | .setDefault i _ _
  | .pop i _ _ | .popItem i | .clear i => some i

/-- No operation touches another dict than its own. -/
theorem step_frame {heap u : List (CaseInsensitiveDict lower ν)} {op : Op ν} {r : Result ν}
    (h : step heap op = some (r, u)) {j : ℕ} {d : CaseInsensitiveDict lower ν}
    (hd : heap[j]? = some d) (hj : op.target ≠ some j) : u[j]? = some d := by
  have hset : ∀ (i : ℕ) (x : CaseInsensitiveDict lower ν), i ≠ j → (heap.set i x)[j]? = some d :=
    fun i x hij => (List.getElem?_set_ne hij).trans hd
  have happend : ∀ x : CaseInsensitiveDict lower ν, (heap ++ [x])[j]? = some d := by
    intro x
    rw [List.getElem?_append_left (List.getElem?_eq_some_iff.mp hd).1, hd]
  have hobject : ∀ (f : CaseInsensitiveDict lower ν → Result ν × CaseInsensitiveDict lower ν)
      (i : ℕ), i ≠ j → onObject f heap i = some (r, u) → u[j]? = some d := by
    intro f i hij ho
    obtain ⟨x, -, hx⟩ := Option.map_eq_some_iff.mp ho
    obtain ⟨-, rfl⟩ := Prod.mk.inj hx
    exact hset i _ hij
  cases op with
  | new source kwargs =>
    obtain ⟨x, -, hx⟩ := Option.map_eq_some_iff.mp h
    split at hx
    · obtain ⟨-, rfl⟩ := Prod.mk.inj hx
      exact happend _
    · obtain ⟨-, rfl⟩ := Prod.mk.inj hx
      exact hd
  | copy i =>
    obtain ⟨x, -, hx⟩ := Option.map_eq_some_iff.mp h
    obtain ⟨-, rfl⟩ := Prod.mk.inj hx
    exact happend _
  | update i source kwargs =>
    have hij : i ≠ j := fun hij => hj (congrArg some hij)
    obtain ⟨e, -, h⟩ := Option.bind_eq_some_iff.mp h
    obtain ⟨x, -, hx⟩ := Option.map_eq_some_iff.mp h
    split at hx <;>
      · obtain ⟨-, rfl⟩ := Prod.mk.inj hx
        exact hset i _ hij
  | getItem i _ | setItem i _ _ | delItem i _ | setDefault i _ _ | pop i _ _ | popItem i
  | clear i => exact hobject _ i (fun hij => hj (congrArg some hij)) h

end Programs

/-- What can be observed of a dict, in terms of its record. -/
structure Observes (d : CaseInsensitiveDict lower ν) (a : Record ν) : Prop where
  filed : ∀ k o v, (k, o, v) ∈ d.store.entries → lower o = k
  lookup : ∀ key, d.getItem key = a.map.get? (lower key)
  member : ∀ key, d.contains key = true ↔ lower key ∈ a.map.keys
  length : d.len = a.map.entries.length
  lowerItems : d.lowerItems = a.map.entries
  iteration : d.iter = a.map.keys.map a.spelling
  items : d.items = a.items
  once : (d.iter.map lower).Nodup

theorem Rep.observes {d : CaseInsensitiveDict lower ν} {a : Record ν} (h : Rep d a) :
    Observes d a where
  filed := fun k o v he => d.keyed (k, o, v) he
  lookup := h.getItem
  member := h.contains
  length := h.len
  lowerItems := h.lowerItems
  iteration := h.iter
  items := h.items
  once := by
    have hnames := iter_distinct d
    rwa [← items_keys, List.map_map]

section Copies
variable {heap : List (CaseInsensitiveDict lower ν)} {i : ℕ} {d : CaseInsensitiveDict lower ν}

/-- An absent name is a `KeyError` for every reader, and nothing has changed. -/
theorem absent_raises (hi : heap[i]? = some d) {key : Text} (hkey : d.contains key = false) :
    ∀ op ∈ [Op.getItem i key, .delItem i key, .pop i key none],
      step heap op = some (.keyError, heap) := by
  obtain ⟨a, ha⟩ := exists_rep d
  have habsent : a.map.get? (lower key) = none := by
    rw [OrderedMap.get?_eq_none, ← ha.contains, hkey]
    simp
  have hread : d.getItem key = none := by rw [ha.getItem, habsent]
  have hdel : d.delItem key = none := ha.delItem_absent habsent
  have hpop : d.pop key none = (none, d) := by rw [CaseInsensitiveDict.pop, hread]
  have hset : heap.set i d = heap := by
    obtain ⟨hlt, rfl⟩ := List.getElem?_eq_some_iff.mp hi
    exact List.set_getElem_self hlt
  intro op hop
  simp only [List.mem_cons, List.not_mem_nil, or_false] at hop
  rcases hop with rfl | rfl | rfl <;>
    simp only [step, onObject, hi, Option.map_some, hread, hdel, hpop, hset]

theorem copy_eq [BEq ν] [ReflBEq ν] (d : CaseInsensitiveDict lower ν) :
    d.eq d.copy = true ∧ d.copy.iter = d.iter := by
  obtain ⟨a, ha⟩ := exists_rep d
  refine ⟨(ha.eq_iff ha.copy).mpr ?_, by rw [ha.copy.iter, ha.iter]⟩
  intro k
  cases a.map.get? k with
  | none => exact Option.Rel.none
  | some v => exact Option.Rel.some BEq.rfl

/-- A dict that no operation names stays as it is. -/
theorem untouched {heap u : List (CaseInsensitiveDict lower ν)} {later : List (Op ν)}
    {rs : List (Result ν)} (h : trace step heap later = some (rs, u)) {j : ℕ}
    {d : CaseInsensitiveDict lower ν} (hd : heap[j]? = some d)
    (hlater : ∀ op ∈ later, op.target ≠ some j) : u[j]? = some d :=
  trace_keeps (P := fun heap => heap[j]? = some d)
    (fun op hop _ _ _ hs hstep => step_frame hstep hs (hlater op hop)) hd h

end Copies

/-- The dicts of a heap behave as the records do. -/
structure Faithful (heap : List (CaseInsensitiveDict lower ν)) (records : List (Record ν))
    [BEq ν] : Prop where
  observed : ∀ {i : ℕ} {d : CaseInsensitiveDict lower ν} {a : Record ν}, heap[i]? = some d →
    records[i]? = some a → Observes d a
  compared : ∀ {i j : ℕ} {d e : CaseInsensitiveDict lower ν} {a b : Record ν},
    heap[i]? = some d → heap[j]? = some e → records[i]? = some a → records[j]? = some b →
    (d.eq e = true ↔
      ∀ k, Option.Rel (fun v w => (v == w) = true) (a.map.get? k) (b.map.get? k))
  /-- Reading or deleting an absent name raises and changes nothing. -/
  absent : ∀ {i : ℕ} {d : CaseInsensitiveDict lower ν} {key : Text}, heap[i]? = some d →
    d.contains key = false → ∀ op ∈ [Op.getItem i key, .delItem i key, .pop i key none],
      step heap op = some (.keyError, heap)
  /-- A copy equals its original, and neither changes with the other. -/
  copied : ∀ {i : ℕ} {d : CaseInsensitiveDict lower ν}, heap[i]? = some d →
    ∃ c, step heap (.copy i) = some (.created heap.length, heap ++ [c]) ∧
      d.eq c = true ∧ c.iter = d.iter ∧
      ∀ {later : List (Op ν)} {rs : List (Result ν)} {u : List (CaseInsensitiveDict lower ν)},
        trace step (heap ++ [c]) later = some (rs, u) →
        ((∀ op ∈ later, op.target ≠ some heap.length) → u[heap.length]? = some c) ∧
        ((∀ op ∈ later, op.target ≠ some i) → u[i]? = some d)

theorem faithful_of_rep [BEq ν] [ReflBEq ν] {heap : List (CaseInsensitiveDict lower ν)}
    {records : List (Record ν)} (h : List.Forall₂ Rep heap records) : Faithful heap records := by
  have hpair : ∀ {i : ℕ} {d : CaseInsensitiveDict lower ν} {a : Record ν}, heap[i]? = some d →
      records[i]? = some a → Rep d a := by
    intro i d a hd ha
    have hi := forall₂_getElem? h i
    rw [hd, ha] at hi
    cases hi
    assumption
  constructor
  · exact fun hd ha => (hpair hd ha).observes
  · exact fun hd he ha hb => (hpair hd ha).eq_iff (hpair he hb)
  · exact fun hd hkey => absent_raises hd hkey
  · intro i d hd
    obtain ⟨heq, hiter⟩ := copy_eq d
    have hlt : i < heap.length := (List.getElem?_eq_some_iff.mp hd).1
    refine ⟨d.copy, by rw [step, hd]; rfl, heq, hiter, ?_⟩
    intro later rs u hlater
    refine ⟨untouched hlater (by simp), untouched hlater ?_⟩
    rw [List.getElem?_append_left hlt, hd]

/-- Every program on dicts of the class ends as it does on ordered maps over lowered names:
with the same results, and with dicts that behave as those maps. -/
theorem dict_refines [BEq ν] [ReflBEq ν] (lower : Text → Text) (ops : List (Op ν)) :
    Agree (fun heap records => List.Forall₂ Rep heap records ∧ Faithful heap records)
      (trace step ([] : List (CaseInsensitiveDict lower ν)) ops)
      (trace (specStep lower) [] ops) := by
  have hagree := trace_agree step_agree (@List.Forall₂.nil _ _ (@Rep lower ν)) ops
  generalize trace step ([] : List (CaseInsensitiveDict lower ν)) ops = x at hagree ⊢
  generalize trace (specStep lower) [] ops = y at hagree ⊢
  cases hagree with
  | none => exact Option.Rel.none
  | some h => exact Option.Rel.some ⟨h.1, h.2, faithful_of_rep h.2⟩

/-- Two headers that differ in case only, a copy, and a deletion from the original. -/
def headerProgram : List (Op ℕ) :=
  [.new (.pairs [("Accept".toList, 1), ("Host".toList, 2)]) [], .setItem 0 "ACCEPT".toList 3,
    .copy 0, .delItem 0 "accept".toList, .getItem 0 "Accept".toList, .getItem 1 "accept".toList]

theorem dict_refines_headers :
    (trace step ([] : List (CaseInsensitiveDict (List.map Char.toLower) ℕ)) headerProgram).map
      Prod.fst = some [.created 0, .done, .created 1, .done, .keyError, .value 3] ∧
    Agree (fun heap records => List.Forall₂ Rep heap records ∧ Faithful heap records)
      (trace step ([] : List (CaseInsensitiveDict (List.map Char.toLower) ℕ)) headerProgram)
      (trace (specStep (List.map Char.toLower)) [] headerProgram) :=
  ⟨by decide, dict_refines (List.map Char.toLower) headerProgram⟩

end Pyureq.DictRefinement
