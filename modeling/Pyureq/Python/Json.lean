import Pyureq.Base.Json.RoundTrip
import Pyureq.Python.Value

/-! `json.dumps(v, separators=(",", ":"))` and `json.loads` on the values that the model has.
The stack is unbounded, and every text that `loads` rejects raises one `ValueError`, whose
position is left out. -/

namespace Pyureq.PyJson
open Json

/-- The text of doubles: `float.__repr__`, and `float` on the texts of numbers. -/
structure Floats where
  /-- The rationals that a double denotes. -/
  double : ℚ → Prop
  repr : ℚ → Text
  ofText : Text → PyFloat
  repr_fraction : ∀ q, double q → numberKind (repr q) = some .fraction
  ofText_repr : ∀ q, double q → ofText (repr q) = .finite q

inductive JsonNumber where
  | int (n : ℤ)
  | float (x : PyFloat)

/-- `sys.int_info.default_max_str_digits`. -/
def maxStrDigits : ℕ := 4300

def intText (n : ℤ) : Text :=
  if n < 0 then '-' :: Nat.toDigits 10 n.natAbs else Nat.toDigits 10 n.natAbs

def unsigned : Text → Bool × Text
  | '-' :: ds => (true, ds)
  | ds => (false, ds)

/-- `int(w)` on the text of an integer. -/
def intOfText (w : Text) : Option ℤ :=
  if maxStrDigits < (unsigned w).2.length then none
  else
    let n : ℤ := Nat.ofDigitChars 10 (unsigned w).2 0
    some (if (unsigned w).1 then -n else n)

variable (floats : Floats)

def floatText : PyFloat → Text
  | .finite q => floats.repr q
  | .inf false => "Infinity".toList
  | .inf true => "-Infinity".toList
  | .nan => "NaN".toList

/-- The constants that `loads` reads besides `null`, `true` and `false`. -/
def constant (w : Text) : Option PyFloat :=
  if w = "NaN".toList then some .nan
  else if w = "Infinity".toList then some (.inf false)
  else if w = "-Infinity".toList then some (.inf true)
  else none

def pySpelling : Spelling JsonNumber where
  print
    | .int n => intText n
    | .float x => floatText floats x
  parse w :=
    match numberKind w with
    | some .integer => (intOfText w).map .int
    | some .fraction => some (.float (floats.ofText w))
    | none => (constant w).map .float

/-- `int.__repr__` within the limit on its digits. -/
def intRepr (n : ℤ) : Except PyErr Text :=
  if maxStrDigits < (Nat.toDigits 10 n.natAbs).length then
    .error (PyVal.valueError ("Exceeds the limit (4300 digits) for integer string conversion; " ++
      "use sys.set_int_max_str_digits() to increase the limit"))
  else .ok (intText n)

def typeName : PyVal → String
  | .none => "NoneType"
  | .bool _ => "bool"
  | .int _ => "int"
  | .float _ => "float"
  | .str _ => "str"
  | .bytes _ => "bytes"
  | .bytearray _ => "bytearray"
  | .list _ => "list"
  | .tuple _ => "tuple"
  | .dict _ => "dict"
  | .obj _ => "object"

/-- The name of a member from a key. -/
def keyText : PyVal → Except PyErr Text
  | .str s => .ok s
  | .float x => .ok (floatText floats x)
  | .bool b => .ok (if b then "true" else "false").toList
  | .none => .ok "null".toList
  | .int n => intRepr n
  | v => .error (PyVal.typeError
      ("keys must be str, int, float, bool or None, not " ++ typeName v))

section Members
variable {α : Type}

def members : List (PyVal × Except PyErr α) → Except PyErr (List (Text × α))
  | [] => .ok []
  | (k, v) :: es => do
    let name ← keyText floats k
    let v ← v
    let rest ← members es
    pure ((name, v) :: rest)

end Members

mutual
def toJson : PyVal → Except PyErr (Value JsonNumber)
  | .none => .ok .null
  | .bool b => .ok (.bool b)
  | .int n => (intRepr n).map fun _ => .num (.int n)
  | .float x => .ok (.num (.float x))
  | .str s => .ok (.str s)
  | .list xs | .tuple xs => (toJsonList xs).map .arr
  | .dict d => (members floats (PyVal.dictItems (toJsonItems d))).map .obj
  | v => .error (PyVal.typeError
      ("Object of type " ++ typeName v ++ " is not JSON serializable"))
def toJsonList : List PyVal → Except PyErr (List (Value JsonNumber))
  | [] => .ok []
  | x :: xs => do
    let j ← toJson x
    let js ← toJsonList xs
    pure (j :: js)
/-- The items of a dict display; what a later item replaces is never serialised. -/
def toJsonItems : List (PyVal × PyVal) → List (PyVal × Except PyErr (Value JsonNumber))
  | [] => []
  | (k, v) :: d => (k, toJson v) :: toJsonItems d
end

mutual
def ofJson : Value JsonNumber → PyVal
  | .null => .none
  | .bool b => .bool b
  | .num (.int n) => .int n
  | .num (.float x) => .float x
  | .str s => .str s
  | .arr xs => .list (ofJsonList xs)
  | .obj es => .dict (ofJsonMembers es)
def ofJsonList : List (Value JsonNumber) → List PyVal
  | [] => []
  | x :: xs => ofJson x :: ofJsonList xs
def ofJsonMembers : List (Text × Value JsonNumber) → List (PyVal × PyVal)
  | [] => []
  | (k, v) :: es => (.str k, ofJson v) :: ofJsonMembers es
end

def dumps (v : PyVal) : Except PyErr Text := (toJson floats v).map (print (pySpelling floats))

def loads (text : Text) : Except PyErr PyVal :=
  match parse (pySpelling floats) text with
  | some j => .ok (ofJson j)
  | none => .error (PyVal.valueError "invalid JSON")

section Numbers

theorem toDigits_isDigit (n : ℕ) : ∀ c ∈ Nat.toDigits 10 n, c.isDigit = true := fun _ hc =>
  Nat.isDigit_of_mem_toDigits (by decide) (by decide) hc

/-- A positive number does not begin with `0`. -/
theorem toDigits_head {n : ℕ} (h : 0 < n) :
    ∃ c ds, Nat.toDigits 10 n = c :: ds ∧ c ≠ '0' := by
  induction n using Nat.strong_induction_on with
  | _ n ih =>
    by_cases hlt : n < 10
    · have htable : ∀ m < 10, 0 < m → m.digitChar ≠ '0' := by decide
      exact ⟨_, [], Nat.toDigits_of_lt_base hlt, htable n hlt h⟩
    · have hge : 10 ≤ n := Nat.le_of_not_lt hlt
      obtain ⟨c, ds, hds, hc⟩ := ih (n / 10) (by omega) (by omega)
      rw [Nat.toDigits_of_base_le (by decide) hge, hds]
      exact ⟨c, _, rfl, hc⟩

theorem run_toDigits (n : ℕ) : ∃ t, NumState.sign.run (Nat.toDigits 10 n) = some t ∧
    NumState.start.run (Nat.toDigits 10 n) = some t ∧ t.kind = some .integer := by
  rcases Nat.eq_zero_or_pos n with rfl | hpos
  · exact ⟨.zero, rfl, rfl, rfl⟩
  · obtain ⟨c, ds, hds, hzero⟩ := toDigits_head hpos
    have hdigits := toDigits_isDigit n
    rw [hds] at hdigits ⊢
    obtain ⟨hc, hrest⟩ := List.forall_mem_cons.mp hdigits
    have hminus : c ≠ '-' := by
      rintro rfl
      exact absurd hc (by decide)
    refine ⟨.int, ?_, ?_, rfl⟩ <;>
      simp only [NumState.run, NumState.next, firstDigit, if_neg hminus, if_neg hzero, if_pos hc,
        Option.bind_some, run_digits hrest]

theorem numberKind_intText (n : ℤ) : numberKind (intText n) = some .integer := by
  obtain ⟨t, hsign, hstart, hkind⟩ := run_toDigits n.natAbs
  unfold intText numberKind
  split
  · rw [NumState.run, NumState.next, if_pos rfl, Option.bind_some, hsign, Option.bind_some, hkind]
  · rw [hstart, Option.bind_some, hkind]

theorem unsigned_toDigits (n : ℕ) : unsigned (Nat.toDigits 10 n) = (false, Nat.toDigits 10 n) := by
  unfold unsigned
  split
  next ds h =>
    have hminus := toDigits_isDigit n '-' (h ▸ List.mem_cons_self)
    exact absurd hminus (by decide)
  next => rfl

theorem intOfText_intText {n : ℤ} (h : (Nat.toDigits 10 n.natAbs).length ≤ maxStrDigits) :
    intOfText (intText n) = some n := by
  have hlimit : ¬maxStrDigits < (Nat.toDigits 10 n.natAbs).length := Nat.not_lt.mpr h
  unfold intText intOfText
  by_cases hneg : n < 0
  · have habs : -(n.natAbs : ℤ) = n := by omega
    simp only [if_pos hneg, unsigned, if_neg hlimit, Nat.ofDigitChars_ten_toDigits, if_true, habs]
  · have habs : (n.natAbs : ℤ) = n := by omega
    simp only [if_neg hneg, unsigned_toDigits, if_neg hlimit, Nat.ofDigitChars_ten_toDigits,
      Bool.false_eq_true, if_false, habs]

variable {floats}

/-- A number that `dumps` prints within the limits, or a double. -/
def Exact (floats : Floats) : JsonNumber → Prop
  | .int n => (Nat.toDigits 10 n.natAbs).length ≤ maxStrDigits
  | .float (.finite q) => floats.double q
  | .float _ => True

theorem faithful_of_kind {m : JsonNumber} {w : Text} {k : NumberKind}
    (hprint : (pySpelling floats).print m = w) (hkind : numberKind w = some k)
    (hparse : (pySpelling floats).parse w = some m) : Faithful (pySpelling floats) m := by
  subst hprint
  obtain ⟨hword, hne, hnull, htrue, hfalse⟩ := numberKind_word hkind
  exact ⟨hword, hne, hnull, htrue, hfalse, hparse⟩

theorem constant_word : ∀ w ∈ ["NaN".toList, "Infinity".toList, "-Infinity".toList],
    w.all isWord = true ∧ w ≠ [] ∧ w ≠ "null".toList ∧ w ≠ "true".toList ∧ w ≠ "false".toList ∧
      numberKind w = none := PercentCoding.forall_mem_of_all (by decide)

theorem constant_faithful {x : PyFloat} {w : Text}
    (hw : w ∈ ["NaN".toList, "Infinity".toList, "-Infinity".toList])
    (hprint : floatText floats x = w) (hread : constant w = some x) :
    Faithful (pySpelling floats) (.float x) := by
  obtain ⟨hword, hne, hnull, htrue, hfalse, hkind⟩ := constant_word w hw
  subst hprint
  refine ⟨List.all_eq_true.mp hword, hne, hnull, htrue, hfalse, ?_⟩
  simp only [pySpelling, hkind, hread, Option.map_some]

theorem Exact.faithful {m : JsonNumber} (h : Exact floats m) : Faithful (pySpelling floats) m := by
  match m with
  | .int n =>
    have hkind := numberKind_intText n
    refine faithful_of_kind (w := intText n) rfl hkind ?_
    simp only [pySpelling, hkind, intOfText_intText h, Option.map_some]
  | .float (.finite q) =>
    have hkind := floats.repr_fraction q h
    refine faithful_of_kind (w := floats.repr q) rfl hkind ?_
    simp only [pySpelling, hkind, floats.ofText_repr q h]
  | .float .nan => exact constant_faithful (w := "NaN".toList) (by simp) rfl rfl
  | .float (.inf false) => exact constant_faithful (w := "Infinity".toList) (by simp) rfl rfl
  | .float (.inf true) => exact constant_faithful (w := "-Infinity".toList) (by simp) rfl rfl

end Numbers

variable {floats}

section Members
variable {α : Type}

theorem members_value {es : List (PyVal × Except PyErr α)} {ms : List (Text × α)}
    (h : members floats es = .ok ms) : ∀ m ∈ ms, ∃ e ∈ es, e.2 = .ok m.2 := by
  induction es generalizing ms with
  | nil =>
    obtain rfl := Except.ok.inj h
    simp
  | cons e es ih =>
    obtain ⟨name, -, h⟩ := bind_eq_ok.mp h
    obtain ⟨v, hv, h⟩ := bind_eq_ok.mp h
    obtain ⟨rest, hrest, h⟩ := bind_eq_ok.mp h
    obtain rfl := Except.ok.inj h
    refine List.forall_mem_cons.mpr ⟨⟨e, List.mem_cons_self, hv⟩, ?_⟩
    intro m hm
    obtain ⟨f, hf, hfm⟩ := ih hrest m hm
    exact ⟨f, List.mem_cons_of_mem _ hf, hfm⟩

end Members

section Serialising

mutual
/-- Every finite float of the value is a double. -/
def Doubles (floats : Floats) : PyVal → Prop
  | .float (.finite q) => floats.double q
  | .list xs | .tuple xs => DoublesList floats xs
  | .dict d => DoublesItems floats d
  | _ => True
def DoublesList (floats : Floats) : List PyVal → Prop
  | [] => True
  | x :: xs => Doubles floats x ∧ DoublesList floats xs
def DoublesItems (floats : Floats) : List (PyVal × PyVal) → Prop
  | [] => True
  | (_, v) :: d => Doubles floats v ∧ DoublesItems floats d
end

theorem memberNumbers_forall {P : JsonNumber → Prop} {ms : List (Text × Value JsonNumber)}
    (h : ∀ m ∈ ms, ∀ n ∈ numbers m.2, P n) : ∀ n ∈ memberNumbers ms, P n := by
  induction ms with
  | nil => simp [memberNumbers]
  | cons m ms ih =>
    obtain ⟨hm, hms⟩ := List.forall_mem_cons.mp h
    rw [memberNumbers, List.forall_mem_append]
    exact ⟨hm, ih hms⟩

mutual
theorem toJson_exact {v : PyVal} {j : Value JsonNumber} (hv : Doubles floats v)
    (h : toJson floats v = .ok j) : ∀ m ∈ numbers j, Exact floats m := by
  match v with
  | .none | .bool _ | .str _ =>
    obtain rfl := Except.ok.inj h
    simp [numbers]
  | .int n =>
    rw [toJson, intRepr] at h
    split at h
    · cases h
    next hlimit =>
      obtain rfl := Except.ok.inj h
      simp only [numbers, List.forall_mem_singleton]
      exact Nat.le_of_not_lt hlimit
  | .float x =>
    obtain rfl := Except.ok.inj h
    simp only [numbers, List.forall_mem_singleton]
    cases x with
    | finite q => exact hv
    | inf negative => trivial
    | nan => trivial
  | .list xs | .tuple xs =>
    obtain ⟨js, hjs, rfl⟩ := map_eq_ok.mp h
    exact toJsonList_exact hv hjs
  | .dict d =>
    obtain ⟨ms, hms, rfl⟩ := map_eq_ok.mp h
    refine memberNumbers_forall ?_
    intro m hm
    obtain ⟨e, he, hem⟩ := members_value hms m hm
    obtain ⟨f, hf, hfe⟩ := PyVal.dictItems_value he
    exact toJsonItems_exact hv f hf (hfe.trans hem)
theorem toJsonList_exact {xs : List PyVal} {js : List (Value JsonNumber)}
    (hxs : DoublesList floats xs) (h : toJsonList floats xs = .ok js) :
    ∀ m ∈ elementNumbers js, Exact floats m := by
  match xs with
  | [] =>
    obtain rfl := Except.ok.inj h
    simp [elementNumbers]
  | x :: xs =>
    obtain ⟨j, hj, h⟩ := bind_eq_ok.mp h
    obtain ⟨js, hjs, h⟩ := bind_eq_ok.mp h
    obtain rfl := Except.ok.inj h
    rw [elementNumbers, List.forall_mem_append]
    exact ⟨toJson_exact hxs.1 hj, toJsonList_exact hxs.2 hjs⟩
theorem toJsonItems_exact {d : List (PyVal × PyVal)} (hd : DoublesItems floats d) :
    ∀ e ∈ toJsonItems floats d, ∀ {j}, e.2 = .ok j → ∀ m ∈ numbers j, Exact floats m := by
  match d with
  | [] => simp [toJsonItems]
  | (k, v) :: d =>
    refine List.forall_mem_cons.mpr ⟨?_, toJsonItems_exact hd.2⟩
    exact fun hj => toJson_exact hd.1 hj
end

mutual
/-- The values that JSON has: lists, and dicts whose keys are strings, none of them twice. -/
def Plain : PyVal → Prop
  | .list xs => PlainList xs
  | .dict d => PyVal.DistinctKeys d ∧ PlainItems d
  | .tuple _ | .bytes _ | .bytearray _ | .obj _ => False
  | _ => True
def PlainList : List PyVal → Prop
  | [] => True
  | x :: xs => Plain x ∧ PlainList xs
def PlainItems : List (PyVal × PyVal) → Prop
  | [] => True
  | (k, v) :: d => (∃ s, k = .str s) ∧ Plain v ∧ PlainItems d
end

theorem toJsonItems_distinct {d : List (PyVal × PyVal)} (h : PyVal.DistinctKeys d) :
    (toJsonItems floats d).Pairwise fun e f => e.1.keyEq f.1 = false := by
  have hkeys : ∀ d : List (PyVal × PyVal),
      (toJsonItems floats d).map Prod.fst = d.map Prod.fst := by
    intro d
    induction d with
    | nil => rfl
    | cons e d ih =>
      obtain ⟨k, v⟩ := e
      rw [toJsonItems, List.map_cons, List.map_cons, ih]
  have hpairwise : (d.map Prod.fst).Pairwise fun k l => k.keyEq l = false :=
    List.pairwise_map.mpr h
  rw [← hkeys] at hpairwise
  exact List.pairwise_map.mp hpairwise

mutual
theorem ofJson_toJson {v : PyVal} {j : Value JsonNumber} (hv : Plain v)
    (h : toJson floats v = .ok j) : ofJson j = v := by
  match v with
  | .none | .bool _ | .str _ | .float _ =>
    obtain rfl := Except.ok.inj h
    rfl
  | .int n =>
    obtain ⟨_, -, rfl⟩ := map_eq_ok.mp h
    rfl
  | .list xs =>
    obtain ⟨js, hjs, rfl⟩ := map_eq_ok.mp h
    rw [ofJson, ofJsonList_toJsonList hv hjs]
  | .dict d =>
    obtain ⟨ms, hms, rfl⟩ := map_eq_ok.mp h
    rw [PyVal.dictItems_of_distinct (toJsonItems_distinct hv.1)] at hms
    rw [ofJson, ofJsonMembers_toJsonItems hv.2 hms]
theorem ofJsonList_toJsonList {xs : List PyVal} {js : List (Value JsonNumber)}
    (hxs : PlainList xs) (h : toJsonList floats xs = .ok js) : ofJsonList js = xs := by
  match xs with
  | [] =>
    obtain rfl := Except.ok.inj h
    rfl
  | x :: xs =>
    obtain ⟨j, hj, h⟩ := bind_eq_ok.mp h
    obtain ⟨js, hjs, h⟩ := bind_eq_ok.mp h
    obtain rfl := Except.ok.inj h
    rw [ofJsonList, ofJson_toJson hxs.1 hj, ofJsonList_toJsonList hxs.2 hjs]
theorem ofJsonMembers_toJsonItems {d : List (PyVal × PyVal)}
    {ms : List (Text × Value JsonNumber)} (hd : PlainItems d)
    (h : members floats (toJsonItems floats d) = .ok ms) : ofJsonMembers ms = d := by
  match d with
  | [] =>
    obtain rfl := Except.ok.inj h
    rfl
  | (k, v) :: d =>
    obtain ⟨⟨s, rfl⟩, hv, hd⟩ := hd
    obtain ⟨name, hname, h⟩ := bind_eq_ok.mp h
    obtain ⟨j, hj, h⟩ := bind_eq_ok.mp h
    obtain ⟨rest, hrest, h⟩ := bind_eq_ok.mp h
    obtain rfl := Except.ok.inj h
    obtain rfl := Except.ok.inj hname
    rw [ofJsonMembers, ofJson_toJson hv hj, ofJsonMembers_toJsonItems hd hrest]
end

end Serialising

/-- What was dumped is loaded as the JSON value it was dumped as, and the text is ASCII. -/
theorem loads_dumps {v : PyVal} {text : Text} (hv : Doubles floats v)
    (h : dumps floats v = .ok text) :
    (∃ j, toJson floats v = .ok j ∧ loads floats text = .ok (ofJson j)) ∧
      ∀ c ∈ text, Printable c := by
  obtain ⟨j, hj, rfl⟩ := map_eq_ok.mp h
  have hfaithful : ∀ m ∈ numbers j, Faithful (pySpelling floats) m :=
    fun m hm => (toJson_exact hv hj m hm).faithful
  refine ⟨⟨j, hj, ?_⟩, print_printable j hfaithful⟩
  rw [loads, parse_print j hfaithful]

end Pyureq.PyJson
