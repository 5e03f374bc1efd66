import Pyureq.Structures

/-! `==` on `CaseInsensitiveDict`. Two dicts of the class are compared by their contents; any
other value is first made a dict, which raises for most values that are no mappings. -/
namespace Pyureq.DictEquality
open CaseInsensitiveDict

variable {lower : Text → Text}

/-- The right-hand side of `==`. -/
inductive Operand (lower : Text → Text) where
  | dict (e : CaseInsensitiveDict lower PyVal)
  | value (x : PyVal)
  /-- An object of any other class: whether it is a mapping, and what `dict()` makes of it. -/
  | object (mapping : Bool) (made : Except PyErr (List (PyVal × PyVal)))

def Operand.isMapping : Operand lower → Bool
  | .dict _ => true
  | .value x => x.isDict
  | .object mapping _ => mapping

/-- `dict(x)`. -/
def Operand.toDict : Operand lower → Except PyErr (List (PyVal × PyVal))
  | .dict e => .ok (e.items.map fun i => (.str i.1, i.2))
  | .value x => x.toDict
  | .object _ made => made

/-- Equal values, or none on both sides. -/
def SameValue {ν : Type*} [BEq ν] : Option ν → Option ν → Prop :=
  Option.Rel fun v w => (v == w) = true

/-- The same names up to case, with equal values. -/
def SameContents {ν : Type*} [BEq ν] (d e : CaseInsensitiveDict lower ν) : Prop :=
  ∀ n, SameValue (d.getItem n) (e.getItem n)

def hasLower : PyVal → Bool
  | .str _ | .bytes _ => true
  | _ => false

section Comparison
variable [BEq PyVal]

/-- `d == x`. -/
def Operand.compare (d : CaseInsensitiveDict lower PyVal) : Operand lower → Except PyErr Bool
  | .dict e => .ok (d.eq e)
  | x => d.eqOther x.toDict

/-- `d == x` returns a boolean, which is the right one for a dict of the class and `False` for a
value that is no mapping. -/
def Answers (d : CaseInsensitiveDict lower PyVal) (x : Operand lower) : Prop :=
  ∃ r, x.compare d = .ok r ∧ (∀ e, x = .dict e → (r = true ↔ SameContents d e)) ∧
    (x.isMapping = false → r = false)

/-- The items have strings for keys, and a dict of the class made from them has the contents of
`d`. -/
def Lists (d : CaseInsensitiveDict lower PyVal) (items : List (PyVal × PyVal)) : Prop :=
  ∃ es : List (Text × PyVal), items = es.map (fun e => (.str e.1, e.2)) ∧
    SameContents d (ofPairs es)

/-- `dict()` accepts the value, its keys are strings or bytes, and it is a mapping unless it does
not list the contents of the dict. -/
def Comparable (d : CaseInsensitiveDict lower PyVal) (x : Operand lower) : Prop :=
  ∃ items, x.toDict = .ok items ∧ (∀ i ∈ items, hasLower i.1 = true) ∧
    (x.isMapping = true ∨ ¬Lists d items)

end Comparison

section Contents
variable {ν : Type*}

theorem lowerItems_get? (d : CaseInsensitiveDict lower ν) (k : Text) :
    (OrderedMap.ofList d.lowerItems).get? k = (d.store.get? k).map Prod.snd := by
  rw [lowerItems, OrderedMap.get?_ofList_map Prod.snd, OrderedMap.ofList_entries]

/-- Only lowered names are keys. -/
theorem store_get?_none (d : CaseInsensitiveDict lower ν) {k : Text} (h : ∀ n, lower n ≠ k) :
    d.store.get? k = none := by
  rw [OrderedMap.get?_eq_none, OrderedMap.mem_keys]
  rintro ⟨v, hv⟩
  exact h v.1 (d.keyed _ hv)

variable [BEq ν]

/-- Comparing two dicts of the class compares their contents. -/
theorem eq_iff (d e : CaseInsensitiveDict lower ν) : d.eq e = true ↔ SameContents d e := by
  rw [CaseInsensitiveDict.eq, OrderedMap.same_iff]
  simp only [lowerItems_get?]
  constructor
  · exact fun h n => h (lower n)
  · intro h k
    by_cases hk : ∃ n, lower n = k
    · obtain ⟨n, rfl⟩ := hk
      exact h n
    · have hnone : ∀ n, lower n ≠ k := fun n hn => hk ⟨n, hn⟩
      rw [store_get?_none d hnone, store_get?_none e hnone]
      exact Option.Rel.none

theorem sameContents_equivalence [EquivBEq ν] :
    Equivalence (SameContents : CaseInsensitiveDict lower ν → CaseInsensitiveDict lower ν → Prop)
    where
  refl d n := by
    show SameValue (d.getItem n) (d.getItem n)
    cases d.getItem n with
    | none => exact Option.Rel.none
    | some v => exact Option.Rel.some BEq.rfl
  symm := by
    intro d e h n
    have hn := h n
    revert hn
    generalize d.getItem n = v, e.getItem n = w
    rintro (hvw | _)
    · exact Option.Rel.some (BEq.symm hvw)
    · exact Option.Rel.none
  trans := by
    intro c d e hcd hde n
    have hn := hcd n
    have hm := hde n
    revert hn hm
    generalize c.getItem n = u, d.getItem n = v, e.getItem n = w
    rintro (huv | _) (hvw | _)
    · exact Option.Rel.some (BEq.trans huv hvw)
    · exact Option.Rel.none

end Contents

section Conversion

theorem lowerKey_ok_iff {v : PyVal} :
    (∃ k, lowerKey lower v = .ok k) ↔ hasLower v = true := by
  cases v <;> simp [lowerKey, hasLower]

/-- The comprehension goes through exactly when all keys have a lower case. -/
theorem lowerKeys_ok_iff {items : List (PyVal × PyVal)} :
    (∃ lowered, lowerKeys lower items = .ok lowered) ↔ ∀ e ∈ items, hasLower e.1 = true := by
  induction items with
  | nil => exact iff_of_true ⟨_, rfl⟩ (by simp)
  | cons e items ih =>
    have hkey : (∃ k, lowerKey lower e.1 = .ok k) ↔ hasLower e.1 = true := lowerKey_ok_iff
    rw [List.forall_mem_cons, ← ih, ← hkey]
    constructor
    · rintro ⟨lowered, h⟩
      obtain ⟨k, hk, h⟩ := bind_eq_ok.mp h
      obtain ⟨rest, hrest, -⟩ := bind_eq_ok.mp h
      exact ⟨⟨k, hk⟩, rest, hrest⟩
    · rintro ⟨⟨k, hk⟩, rest, hrest⟩
      refine ⟨(k, e.2) :: rest, ?_⟩
      rw [lowerKeys, hk, hrest]
      rfl

theorem lowerKeys_str (es : List (Text × PyVal)) :
    lowerKeys lower (es.map fun e => (.str e.1, e.2)) =
      .ok (es.map fun e => (.inl (lower e.1), e.2)) := by
  induction es with
  | nil => rfl
  | cons e es ih =>
    rw [List.map_cons, lowerKeys, ih]
    rfl

/-- Where all lowered keys are strings, the keys were. -/
theorem strings_of_lowered {items : List (PyVal × PyVal)}
    {lowered : List ((Text ⊕ Bytes) × PyVal)} (h : lowerKeys lower items = .ok lowered)
    (hkeys : ∀ e ∈ lowered, ∃ s, e.1 = .inl s) :
    ∃ es : List (Text × PyVal), items = es.map fun e => (.str e.1, e.2) := by
  induction items generalizing lowered with
  | nil => exact ⟨[], rfl⟩
  | cons e items ih =>
    obtain ⟨k, hk, h⟩ := bind_eq_ok.mp h
    obtain ⟨rest, hrest, h⟩ := bind_eq_ok.mp h
    obtain rfl := Except.ok.inj h
    obtain ⟨⟨s, rfl⟩, hrestKeys⟩ := List.forall_mem_cons.mp hkeys
    obtain ⟨es, rfl⟩ := ih hrest hrestKeys
    obtain ⟨v, w⟩ := e
    cases v with
    | str t => exact ⟨(t, w) :: es, rfl⟩
    | bytes v => cases hk
    | _ => cases hk

/-- Pairs of strings make the same dict whether they are lowered first or not. -/
theorem lowered_get? (es : List (Text × PyVal)) (n : Text) :
    (OrderedMap.ofList (es.map fun e => ((.inl (lower e.1) : Text ⊕ Bytes), e.2))).get?
        (.inl (lower n)) = (ofPairs es : CaseInsensitiveDict lower PyVal).getItem n := by
  have hstore : (ofPairs es : CaseInsensitiveDict lower PyVal).store =
      OrderedMap.ofList (es.map fun e => (lower e.1, e)) := update_store empty es
  have hrename := OrderedMap.get?_ofList_rename
    (Sum.inl_injective : Function.Injective (Sum.inl : Text → Text ⊕ Bytes))
    (es.map fun e => (lower e.1, e.2)) (lower n)
  rw [List.map_map] at hrename
  rw [getItem, hstore, ← OrderedMap.get?_ofList_map, List.map_map]
  exact hrename

/-- The left side of the comparison has the values under the lowered names, and nothing under
bytes. -/
theorem own_get? (d : CaseInsensitiveDict lower PyVal) (k : Text ⊕ Bytes) :
    (OrderedMap.ofList (d.lowerItems.map fun e => ((.inl e.1 : Text ⊕ Bytes), e.2))).get? k =
      match k with
      | .inl s => (d.store.get? s).map Prod.snd
      | .inr _ => none := by
  cases k with
  | inl s => rw [OrderedMap.get?_ofList_rename Sum.inl_injective, lowerItems_get?]
  | inr v =>
    rw [OrderedMap.get?_eq_none, OrderedMap.mem_keys_ofList, List.map_map]
    simp

variable [BEq PyVal]

theorem eqOther_ok (d : CaseInsensitiveDict lower PyVal) {items : List (PyVal × PyVal)}
    {lowered : List ((Text ⊕ Bytes) × PyVal)} (h : lowerKeys lower items = .ok lowered) :
    d.eqOther (.ok items) = .ok ((OrderedMap.ofList (d.lowerItems.map fun e =>
      ((.inl e.1 : Text ⊕ Bytes), e.2))).same (OrderedMap.ofList lowered)) := by
  rw [eqOther]
  simp only [bind, Except.bind, h]
  rfl

/-- The dict made from the other value is equal exactly when it lists the contents. -/
theorem same_lowered_iff (d : CaseInsensitiveDict lower PyVal) {items : List (PyVal × PyVal)}
    {lowered : List ((Text ⊕ Bytes) × PyVal)} (h : lowerKeys lower items = .ok lowered) :
    (OrderedMap.ofList (d.lowerItems.map fun e => ((.inl e.1 : Text ⊕ Bytes), e.2))).same
        (OrderedMap.ofList lowered) = true ↔ Lists d items := by
  simp only [OrderedMap.same_iff, own_get?]
  constructor
  · intro hsame
    have hkeys : ∀ e ∈ lowered, ∃ s, e.1 = .inl s := by
      intro e he
      cases hk : e.1 with
      | inl s => exact ⟨s, rfl⟩
      | inr v =>
        have hv := hsame (.inr v)
        obtain ⟨w, -, hw⟩ := OrderedMap.exists_get?_ofList (
          List.mem_map_of_mem (f := Prod.fst) he)
        rw [hk] at hw
        rw [hw] at hv
        cases hv
    obtain ⟨es, rfl⟩ := strings_of_lowered h hkeys
    obtain rfl := Except.ok.inj ((lowerKeys_str es).symm.trans h)
    refine ⟨es, rfl, ?_⟩
    intro n
    rw [← lowered_get?]
    exact hsame (.inl (lower n))
  · rintro ⟨es, rfl, hcontents⟩ k
    obtain rfl := Except.ok.inj ((lowerKeys_str es).symm.trans h)
    have hnone : ∀ k, (∀ e ∈ es, Sum.inl (lower e.1) ≠ k) → (OrderedMap.ofList
        (es.map fun e => ((.inl (lower e.1) : Text ⊕ Bytes), e.2))).get? k = none := by
      intro k hk
      rw [OrderedMap.get?_eq_none, OrderedMap.mem_keys_ofList, List.map_map]
      simpa using hk
    cases k with
    | inr v =>
      rw [hnone _ (by simp)]
      exact Option.Rel.none
    | inl s =>
      by_cases hs : ∃ n, lower n = s
      · obtain ⟨n, rfl⟩ := hs
        rw [lowered_get?]
        exact hcontents n
      · rw [hnone _ fun e _ he => hs ⟨e.1, Sum.inl.inj he⟩]
        show Option.Rel _ ((d.store.get? s).map Prod.snd) _
        rw [store_get?_none d fun n hn => hs ⟨n, hn⟩]
        exact Option.Rel.none

end Conversion

section Operands
variable [BEq PyVal]

/-- A value of another class is answered rightly exactly when it is comparable. -/
theorem other_answers_iff (d : CaseInsensitiveDict lower PyVal) (mapping : Bool)
    (made : Except PyErr (List (PyVal × PyVal))) :
    (∃ r, d.eqOther made = .ok r ∧ (mapping = false → r = false)) ↔
      ∃ items, made = .ok items ∧ (∀ i ∈ items, hasLower i.1 = true) ∧
        (mapping = true ∨ ¬Lists d items) := by
  constructor
  · rintro ⟨r, hr, hfalse⟩
    obtain ⟨items, rfl, hlower⟩ := bind_eq_ok.mp hr
    obtain ⟨lowered, hlowered, -⟩ := bind_eq_ok.mp hlower
    refine ⟨items, rfl, lowerKeys_ok_iff.mp ⟨lowered, hlowered⟩, ?_⟩
    rw [or_iff_not_imp_left, Bool.not_eq_true, ← same_lowered_iff d hlowered]
    intro hmapping
    rw [Except.ok.inj ((eqOther_ok d hlowered).symm.trans hr), hfalse hmapping]
    exact Bool.false_ne_true
  · rintro ⟨items, rfl, hkeys, hdiffers⟩
    obtain ⟨lowered, hlowered⟩ : ∃ lowered, lowerKeys lower items = .ok lowered :=
      lowerKeys_ok_iff.mpr hkeys
    refine ⟨_, eqOther_ok d hlowered, ?_⟩
    intro hmapping
    rw [← Bool.not_eq_true, same_lowered_iff d hlowered]
    exact hdiffers.resolve_left (by simp [hmapping])

theorem answers_iff (d : CaseInsensitiveDict lower PyVal) (x : Operand lower) :
    Answers d x ↔ Comparable d x := by
  have hother : ∀ x : Operand lower, (∀ e, x ≠ .dict e) → x.compare d = d.eqOther x.toDict →
      (Answers d x ↔ Comparable d x) := by
    intro x hx hcompare
    rw [Comparable, ← other_answers_iff, Answers, hcompare]
    simp [hx]
  cases x with
  | dict e =>
    have hkeys : ∀ i ∈ e.items.map fun i => (PyVal.str i.1, i.2), hasLower i.1 = true := by
      intro i hi
      obtain ⟨j, -, rfl⟩ := List.mem_map.mp hi
      rfl
    refine iff_of_true ⟨_, rfl, ?_, Bool.noConfusion⟩ ⟨_, rfl, hkeys, Or.inl rfl⟩
    intro e' he
    obtain rfl := Operand.dict.inj he
    exact eq_iff d e
  | value x => exact hother _ (by simp) rfl
  | object mapping made => exact hother _ (by simp) rfl

end Operands

/-- `==` answers rightly exactly for the mappings and other values that `dict()` and `lower()`
accept, unless it takes a value that is no mapping for a dict. On the dicts of the class it is an
equivalence that goes by the contents. -/
theorem equality_total_iff [BEq PyVal] [EquivBEq PyVal] (lower : Text → Text) :
    (∀ (d : CaseInsensitiveDict lower PyVal) x, Answers d x ↔ Comparable d x) ∧
      (∀ d e : CaseInsensitiveDict lower PyVal, Comparable d (.dict e)) ∧
      Equivalence fun d e : CaseInsensitiveDict lower PyVal => d.eq e = true := by
  refine ⟨answers_iff, ?_, ?_⟩
  · intro d e
    exact (answers_iff d (.dict e)).mp ⟨_, rfl, by simpa using eq_iff d e, Bool.noConfusion⟩
  · have heq : (fun d e : CaseInsensitiveDict lower PyVal => d.eq e = true) = SameContents := by
      funext d e
      exact propext (eq_iff d e)
    rw [heq]
    exact sameContents_equivalence

/-- A comparison that is right for strings. -/
def textOf : PyVal → Option Text
  | .str s => some s
  | _ => none

@[reducible] def byText : BEq PyVal := ⟨fun v w => textOf v == textOf w⟩

theorem byText_iff {v w : PyVal} : byText.beq v w = true ↔ textOf v = textOf w := by
  show (textOf v == textOf w) = true ↔ _
  rw [beq_iff_eq]

theorem byText_equiv : @EquivBEq PyVal byText :=
  let _ := byText
  { rfl := byText_iff.mpr rfl
    symm := fun h => byText_iff.mpr (byText_iff.mp h).symm
    trans := fun h k => byText_iff.mpr ((byText_iff.mp h).trans (byText_iff.mp k)) }

def accept : CaseInsensitiveDict (List.map Char.toLower) PyVal :=
  ofPairs [("Accept".toList, .str "x".toList)]

/-- A dict, and a read-only view of one. -/
theorem equality_total_iff_mapping :
    let display : List (PyVal × PyVal) := [(.str "ACCEPT".toList, .str "x".toList)]
    @Answers (List.map Char.toLower) byText accept (.value (.dict display)) ∧
      @Answers (List.map Char.toLower) byText accept (.object true (.ok display)) := by
  intro display
  have h := @equality_total_iff byText byText_equiv (List.map Char.toLower)
  have hkeys : ∀ i ∈ display, hasLower i.1 = true := List.forall_mem_singleton.mpr rfl
  exact ⟨(h.1 _ _).mpr ⟨_, rfl, hkeys, Or.inl rfl⟩, (h.1 _ _).mpr ⟨_, rfl, hkeys, Or.inl rfl⟩⟩

/-- `d == None` raises instead of being `False`. -/
theorem equality_raises :
    @Operand.compare (List.map Char.toLower) byText accept (.value .none) =
        .error (PyVal.typeError "object is not iterable") ∧
      ¬@Answers (List.map Char.toLower) byText accept (.value .none) := by
  refine ⟨rfl, ?_⟩
  rintro ⟨r, hr, -⟩
  exact nomatch hr

end Pyureq.DictEquality
