import Mathlib.Data.Rat.Defs
import Mathlib.Data.Rat.Cast.Order
import Pyureq.Base.OrderedMap
import Pyureq.Python.Text

/-! The Python values that reach the wrapper as arguments and session attributes, with
the built-in operations that it applies to them. -/

namespace Pyureq

/-- A double; the finite ones are the rationals they denote. -/
inductive PyFloat where
  | finite (q : ℚ)
  | inf (negative : Bool)
  | nan
  deriving DecidableEq

inductive PyVal where
  | none
  | bool (b : Bool)
  | int (n : ℤ)
  | float (x : PyFloat)
  | str (s : Text)
  | bytes (b : Bytes)
  | bytearray (b : Bytes)
  | list (xs : List PyVal)
  | tuple (xs : List PyVal)
  /-- The dict that the display `{k: v, ...}` with these pairs builds. -/
  | dict (display : List (PyVal × PyVal))
  /-- Any other object: no container, truthy, equal to itself only. -/
  | obj (id : ℕ)

namespace PyVal

def number : PyVal → Option ℚ
  | bool b => some (if b then 1 else 0)
  | int n => some n
  | float (.finite q) => some q
  | _ => Option.none

mutual
/-- `a == b` for the values that can be dictionary keys. -/
def keyEq : PyVal → PyVal → Bool
  | tuple xs, w =>
    match w with
    | tuple ys => keysEq xs ys
    | _ => false
  | none, none => true
  | str s, str t => s == t
  | bytes a, bytes b => a == b
  | float (.inf a), float (.inf b) => a == b
  | obj i, obj j => i == j
  | v, w =>
    match v.number, w.number with
    | some p, some q => p == q
    | _, _ => false
def keysEq : List PyVal → List PyVal → Bool
  | [], ys => ys.isEmpty
  | x :: xs, ys =>
    match ys with
    | [] => false
    | y :: ys => keyEq x y && keysEq xs ys
end

mutual
def hashable : PyVal → Bool
  | list _ | dict _ | bytearray _ => false
  | tuple xs => allHashable xs
  | _ => true
def allHashable : List PyVal → Bool
  | [] => true
  | x :: xs => hashable x && allHashable xs
end

section Items
variable {α : Type*}

/-- `d[k] = v`: a present key keeps its place and its first spelling. -/
def setItem (k : PyVal) (v : α) : List (PyVal × α) → List (PyVal × α)
  | [] => [(k, v)]
  | e :: es => if e.1.keyEq k then (e.1, v) :: es else e :: setItem k v es

def updateItems (es : List (PyVal × α)) : List (PyVal × α) → List (PyVal × α)
  | [] => es
  | e :: fs => updateItems (setItem e.1 e.2 es) fs

/-- The items of a dict, in iteration order. -/
def dictItems (display : List (PyVal × α)) : List (PyVal × α) := updateItems [] display

end Items

def truthy : PyVal → Bool
  | none => false
  | bool b => b
  | int n => n != 0
  | float (.finite q) => q != 0
  | float _ => true
  | str s => !s.isEmpty
  | bytes b | bytearray b => !b.isEmpty
  | list xs | tuple xs => !xs.isEmpty
  | dict d => !d.isEmpty
  | obj _ => true

def isDict : PyVal → Bool
  | dict _ => true
  | _ => false

/-- `v == ""`. -/
def isEmptyStr : PyVal → Bool
  | str s => s.isEmpty
  | _ => false

def typeError (msg : String) : PyErr := ⟨.typeError, msg.toList⟩
def valueError (msg : String) : PyErr := ⟨.valueError, msg.toList⟩

/-- The values that `for x in v` runs through. -/
def iter : PyVal → Except PyErr (List PyVal)
  | list xs | tuple xs => .ok xs
  | str s => .ok (s.map fun c => str [c])
  | bytes b | bytearray b => .ok (b.map fun x => int x.toNat)
  | dict d => .ok ((dictItems d).map Prod.fst)
  | _ => .error (typeError "object is not iterable")

/-- `k, v = x`. -/
def unpackPair (x : PyVal) : Except PyErr (PyVal × PyVal) :=
  match x.iter with
  | .error e => .error e
  | .ok [k, v] => .ok (k, v)
  | .ok _ => .error (valueError "wrong number of values to unpack (expected 2)")

def pairs : List PyVal → Except PyErr (List (PyVal × PyVal))
  | [] => .ok []
  | x :: xs => do
    let p ← x.unpackPair
    let ps ← pairs xs
    pure (p :: ps)

def dictElements : List PyVal → Except PyErr (List (PyVal × PyVal))
  | [] => .ok []
  | x :: xs => do
    let p ← x.unpackPair
    if p.1.hashable then
      let ps ← dictElements xs
      pure (p :: ps)
    else .error (typeError "unhashable type")

/-- `dict(v).items()`. -/
def toDict : PyVal → Except PyErr (List (PyVal × PyVal))
  | dict d => .ok (dictItems d)
  | v => do
    let xs ← v.iter
    let ps ← dictElements xs
    pure (dictItems ps)

/-- The items that `**v` contributes to a dict display. -/
def unpackMapping : PyVal → Except PyErr (List (PyVal × PyVal))
  | dict d => .ok (dictItems d)
  | _ => .error (typeError "object is not a mapping")

def lookupItem (k : PyVal) (items : List (PyVal × PyVal)) : Option PyVal :=
  (items.find? fun e => e.1.keyEq k).map Prod.snd

/-- `v.get(k)`, which only dicts have. -/
def dictGet (v k : PyVal) : Except PyErr PyVal :=
  match v with
  | dict d => .ok ((lookupItem k (dictItems d)).getD none)
  | _ => .error ⟨.attributeError, "object has no attribute 'get'".toList⟩

/-- `v[i]` for a literal index. -/
def getIndex (v : PyVal) (i : ℕ) : Except PyErr PyVal :=
  let pick (o : Option PyVal) : Except PyErr PyVal :=
    match o with
    | some x => .ok x
    | .none => .error ⟨.indexError, "index out of range".toList⟩
  match v with
  | list xs | tuple xs => pick xs[i]?
  | str s => pick (s[i]?.map fun c => str [c])
  | bytes b | bytearray b => pick (b[i]?.map fun x => int x.toNat)
  | dict d =>
    match lookupItem (int i) (dictItems d) with
    | some x => .ok x
    | .none => .error ⟨.keyError, (toString i).toList⟩
  | _ => .error (typeError "object is not subscriptable")

/-- A `{str: str}` dict as a Python value. -/
def ofStrDict (m : OrderedMap Text Text) : PyVal :=
  dict (m.entries.map fun e => (str e.1, str e.2))

def ofStrPairs (ps : List (Text × Text)) : PyVal :=
  list (ps.map fun p => tuple [str p.1, str p.2])

@[simp] theorem keyEq_str (s t : Text) : (str s).keyEq (str t) = (s == t) := by simp [keyEq]

section Items
variable {α : Type*}

/-- No key of the items equals a later one. -/
def DistinctKeys (es : List (PyVal × α)) : Prop := es.Pairwise fun e f => e.1.keyEq f.1 = false

theorem setItem_of_absent {k : PyVal} {v : α} {es : List (PyVal × α)}
    (h : ∀ e ∈ es, e.1.keyEq k = false) : setItem k v es = es ++ [(k, v)] := by
  induction es with
  | nil => rfl
  | cons e es ih =>
    have he : ¬e.1.keyEq k = true := by simp [h e List.mem_cons_self]
    rw [setItem, if_neg he, ih fun f hf => h f (List.mem_cons_of_mem _ hf), List.cons_append]

theorem setItem_mem_key {k : PyVal} {v : α} {es : List (PyVal × α)} {f : PyVal × α}
    (hf : f ∈ setItem k v es) : f.1 = k ∨ ∃ e ∈ es, e.1 = f.1 := by
  induction es with
  | nil =>
    rw [setItem, List.mem_singleton] at hf
    exact Or.inl (by rw [hf])
  | cons e es ih =>
    rw [setItem] at hf
    split at hf
    · rcases List.mem_cons.mp hf with rfl | hf
      · exact Or.inr ⟨e, List.mem_cons_self, rfl⟩
      · exact Or.inr ⟨f, List.mem_cons_of_mem _ hf, rfl⟩
    · rcases List.mem_cons.mp hf with rfl | hf
      · exact Or.inr ⟨f, List.mem_cons_self, rfl⟩
      · rcases ih hf with h | ⟨g, hg, he⟩
        · exact Or.inl h
        · exact Or.inr ⟨g, List.mem_cons_of_mem _ hg, he⟩

theorem setItem_value {k : PyVal} {v : α} {es : List (PyVal × α)} {f : PyVal × α}
    (hf : f ∈ setItem k v es) : f.2 = v ∨ ∃ e ∈ es, e.2 = f.2 := by
  induction es with
  | nil =>
    rw [setItem, List.mem_singleton] at hf
    exact Or.inl (by rw [hf])
  | cons e es ih =>
    rw [setItem] at hf
    split at hf
    · rcases List.mem_cons.mp hf with rfl | hf
      · exact Or.inl rfl
      · exact Or.inr ⟨f, List.mem_cons_of_mem _ hf, rfl⟩
    · rcases List.mem_cons.mp hf with rfl | hf
      · exact Or.inr ⟨f, List.mem_cons_self, rfl⟩
      · rcases ih hf with h | ⟨g, hg, he⟩
        · exact Or.inl h
        · exact Or.inr ⟨g, List.mem_cons_of_mem _ hg, he⟩

theorem setItem_distinct {k : PyVal} {v : α} {es : List (PyVal × α)} (h : DistinctKeys es) :
    DistinctKeys (setItem k v es) := by
  induction es with
  | nil => exact List.pairwise_singleton _ _
  | cons e es ih =>
    obtain ⟨hhd, htl⟩ := List.pairwise_cons.mp h
    rw [setItem]
    split
    · exact List.pairwise_cons.mpr ⟨hhd, htl⟩
    next hk =>
      refine List.pairwise_cons.mpr ⟨?_, ih htl⟩
      intro f hf
      rcases setItem_mem_key hf with h | ⟨g, hg, he⟩
      · rw [h]; simpa using hk
      · rw [← he]; exact hhd g hg

theorem updateItems_distinct {es fs : List (PyVal × α)} (h : DistinctKeys es) :
    DistinctKeys (updateItems es fs) := by
  induction fs generalizing es with
  | nil => exact h
  | cons f fs ih => exact ih (setItem_distinct h)

theorem updateItems_of_distinct {es fs : List (PyVal × α)} (h : DistinctKeys (es ++ fs)) :
    updateItems es fs = es ++ fs := by
  induction fs generalizing es with
  | nil => simp [updateItems]
  | cons f fs ih =>
    have hf : ∀ e ∈ es, e.1.keyEq f.1 = false := by
      intro e he
      exact (List.pairwise_append.mp h).2.2 e he f List.mem_cons_self
    rw [updateItems, setItem_of_absent hf, ih]
    · rw [List.append_assoc, List.singleton_append]
    · rwa [List.append_assoc, List.singleton_append]

/-- A display that repeats no key is kept as it is. -/
theorem dictItems_of_distinct {d : List (PyVal × α)} (h : DistinctKeys d) : dictItems d = d :=
  @updateItems_of_distinct _ [] d h

/-- Every value of a dict was written in its display. -/
theorem dictItems_value {d : List (PyVal × α)} {e : PyVal × α} (h : e ∈ dictItems d) :
    ∃ f ∈ d, f.2 = e.2 := by
  have hupdate : ∀ fs es : List (PyVal × α), e ∈ updateItems es fs →
      (∃ f ∈ es, f.2 = e.2) ∨ ∃ f ∈ fs, f.2 = e.2 := by
    intro fs
    induction fs with
    | nil => exact fun es he => Or.inl ⟨e, he, rfl⟩
    | cons g fs ih =>
      intro es he
      rcases ih _ he with ⟨f, hf, hfe⟩ | ⟨f, hf, hfe⟩
      · rcases setItem_value hf with hg | ⟨f', hf', he'⟩
        · exact Or.inr ⟨g, List.mem_cons_self, hg.symm.trans hfe⟩
        · exact Or.inl ⟨f', hf', he'.trans hfe⟩
      · exact Or.inr ⟨f, List.mem_cons_of_mem _ hf, hfe⟩
  rcases hupdate d [] h with ⟨f, hf, -⟩ | hf
  · cases hf
  · exact hf

/-- Copying a dict yields the same items. -/
@[simp] theorem dictItems_dictItems (d : List (PyVal × α)) :
    dictItems (dictItems d) = dictItems d :=
  dictItems_of_distinct (updateItems_distinct List.Pairwise.nil)

theorem dictItems_eq_nil {d : List (PyVal × α)} : dictItems d = [] ↔ d = [] := by
  have hne : ∀ (fs es : List (PyVal × α)), es ≠ [] → updateItems es fs ≠ [] := by
    intro fs
    induction fs with
    | nil => exact fun _ h => h
    | cons f fs ih =>
      intro es hes
      apply ih
      cases es with
      | nil => contradiction
      | cons e es => rw [setItem]; split <;> simp
  cases d with
  | nil => simp [dictItems, updateItems]
  | cons e d =>
    simp only [reduceCtorEq, iff_false]
    exact hne d _ (by simp [setItem])

end Items

theorem setItem_str (k v : Text) (es : List (Text × Text)) :
    setItem (str k) (str v) (es.map fun e => (str e.1, str e.2)) =
      (OrderedMap.assign k v es).map fun e => (str e.1, str e.2) := by
  induction es with
  | nil => rfl
  | cons e es ih =>
    rw [List.map_cons, setItem, OrderedMap.assign, keyEq_str]
    by_cases h : e.1 = k
    · rw [if_pos (by simp [h]), if_pos h, ← h, List.map_cons]
    · rw [if_neg (by simp [h]), if_neg h, ih, List.map_cons]

/-- On string items a display is built as an ordered map is. -/
theorem dictItems_str (es : List (Text × Text)) :
    dictItems (es.map fun e => (str e.1, str e.2)) =
      (OrderedMap.ofList es).entries.map fun e => (str e.1, str e.2) := by
  have hupdate : ∀ m : OrderedMap Text Text,
      updateItems (m.entries.map fun e => (str e.1, str e.2))
        (es.map fun e => (str e.1, str e.2)) =
          (m.update es).entries.map fun e => (str e.1, str e.2) := by
    induction es with
    | nil => exact fun _ => rfl
    | cons e es ih =>
      intro m
      rw [List.map_cons, updateItems, setItem_str]
      exact ih (m.insert e.1 e.2)
  exact hupdate OrderedMap.empty

/-- A string-keyed dict has the entries of the map it was made from. -/
theorem dictItems_ofStrDict (m : OrderedMap Text Text) :
    dictItems (m.entries.map fun e => (str e.1, str e.2)) =
      m.entries.map fun e => (str e.1, str e.2) := by
  rw [dictItems_str, OrderedMap.ofList_entries]

theorem lookupItem_str (k : Text) (m : OrderedMap Text Text) :
    lookupItem (str k) (m.entries.map fun e => (str e.1, str e.2)) = (m.get? k).map str := by
  rw [lookupItem, List.find?_map, Option.map_map]
  unfold OrderedMap.get?
  induction m.entries with
  | nil => rfl
  | cons e es ih =>
    rw [List.find?_cons, OrderedMap.lookup_cons_ite]
    by_cases h : k = e.1
    · simp [h]
    · have hne : (e.1 == k) = false := beq_eq_false_iff_ne.mpr fun he => h he.symm
      simpa [h, hne] using ih

end PyVal

/-- Built-in functions whose results the model does not spell out, with the part of
their documented behaviour that it uses. -/
structure Builtins where
  lower : Text → Text
  upper : Text → Text
  str : PyVal → Text
  float : PyVal → Except PyErr PyFloat
  /-- `json.dumps(v, separators=(",", ":"))`. -/
  jsonDumps : PyVal → Except PyErr Text
  lower_ascii : ∀ s, (∀ c ∈ s, c.toNat < 128) → lower s = s.map Char.toLower
  upper_ascii : ∀ s, (∀ c ∈ s, c.toNat < 128) → upper s = s.map Char.toUpper
  str_str : ∀ s, str (.str s) = s
  float_float : ∀ x, float (.float x) = .ok x
  float_int : ∀ n : ℤ, n.natAbs ≤ 2 ^ 53 → float (.int n) = .ok (.finite n)

/-- The built-ins on ASCII text and small numbers. -/
def Builtins.ascii : Builtins where
  lower s := s.map Char.toLower
  upper s := s.map Char.toUpper
  str
    | .str s => s
    | .int n => (toString n).toList
    | .bool b => (if b then "True" else "False").toList
    | _ => "None".toList
  float
    | .float x => .ok x
    | .int n => .ok (.finite n)
    | _ => .error (PyVal.typeError "float() argument must be a string or a real number")
  jsonDumps
    | .int n => .ok (toString n).toList
    | .none => .ok "null".toList
    | _ => .error (PyVal.typeError "Object is not JSON serializable")
  lower_ascii _ _ := rfl
  upper_ascii _ _ := rfl
  str_str _ := rfl
  float_float _ := rfl
  float_int _ _ := rfl

end Pyureq
