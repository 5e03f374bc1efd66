import Pyureq.Base.Json.Strings

/-! JSON texts. The printer writes no white space; the parser reads what the grammar allows.
How numbers are spelled is left open, but for the grammar of their spellings. -/

namespace Json

inductive Value (N : Type) where
  | null
  | bool (b : Bool)
  | num (n : N)
  | str (s : List Char)
  | arr (xs : List (Value N))
  | obj (members : List (List Char × Value N))

structure Spelling (N : Type) where
  print : N → List Char
  parse : List Char → Option N

def isSpace (c : Char) : Bool := c = ' ' || c = '\t' || c = '\n' || c = '\r'

def skipSpace (s : List Char) : List Char := s.dropWhile isSpace

/-- The characters of numbers and of the names of constants. -/
def isWord (c : Char) : Bool := c.isAlphanum || c = '+' || c = '-' || c = '.'

section Numbers

/-- Where a number can stand while it is read. -/
inductive NumState where
  | start | sign | zero | int | point | frac | exp | expSign | expDigits
  deriving DecidableEq

def afterFrac (c : Char) : Option NumState := if c = 'e' ∨ c = 'E' then some .exp else none

def afterInt (c : Char) : Option NumState := if c = '.' then some .point else afterFrac c

def firstDigit (c : Char) : Option NumState :=
  if c = '0' then some .zero else if c.isDigit then some .int else none

/-- `-?(0|[1-9][0-9]*)(\.[0-9]+)?([eE][+-]?[0-9]+)?`, character by character. -/
def NumState.next : NumState → Char → Option NumState
  | .start, c => if c = '-' then some .sign else firstDigit c
  | .sign, c => firstDigit c
  | .zero, c => afterInt c
  | .int, c => if c.isDigit then some .int else afterInt c
  | .point, c => if c.isDigit then some .frac else none
  | .frac, c => if c.isDigit then some .frac else afterFrac c
  | .exp, c =>
    if c = '+' ∨ c = '-' then some .expSign else if c.isDigit then some .expDigits else none
  | .expSign, c | .expDigits, c => if c.isDigit then some .expDigits else none

inductive NumberKind where
  | integer
  | fraction
  deriving DecidableEq

def NumState.kind : NumState → Option NumberKind
  | .zero | .int => some .integer
  | .frac | .expDigits => some .fraction
  | _ => none

def NumState.run : NumState → List Char → Option NumState
  | s, [] => some s
  | s, c :: w => (s.next c).bind fun t => t.run w

/-- What a word spells, if it is a number. -/
def numberKind (w : List Char) : Option NumberKind :=
  (NumState.start.run w).bind NumState.kind

theorem isWord_digit {c : Char} (h : c.isDigit = true) : isWord c = true := by
  simp [isWord, Char.isAlphanum, h]

theorem next_isWord {s t : NumState} {c : Char} (h : s.next c = some t) : isWord c = true := by
  have hfrac : ∀ t, afterFrac c = some t → isWord c = true := by
    intro t ht
    unfold afterFrac at ht
    split at ht
    next hc => rcases hc with rfl | rfl <;> decide
    next => cases ht
  have hint : ∀ t, afterInt c = some t → isWord c = true := by
    intro t ht
    unfold afterInt at ht
    split at ht
    next hc => rw [hc]; decide
    next => exact hfrac t ht
  have hfirst : ∀ t, firstDigit c = some t → isWord c = true := by
    intro t ht
    unfold firstDigit at ht
    split at ht
    next hc => rw [hc]; decide
    next =>
      split at ht
      next hc => exact isWord_digit hc
      next => cases ht
  cases s <;> simp only [NumState.next] at h
  case start =>
    split at h
    next hc => rw [hc]; decide
    next => exact hfirst t h
  case sign => exact hfirst t h
  case zero => exact hint t h
  case int =>
    split at h
    next hc => exact isWord_digit hc
    next => exact hint t h
  case frac =>
    split at h
    next hc => exact isWord_digit hc
    next => exact hfrac t h
  case exp =>
    split at h
    next hc => rcases hc with rfl | rfl <;> decide
    next =>
      split at h
      next hc => exact isWord_digit hc
      next => cases h
  all_goals
    split at h
    next hc => exact isWord_digit hc
    next => cases h

theorem run_isWord {s t : NumState} {w : List Char} (h : s.run w = some t) :
    ∀ c ∈ w, isWord c = true := by
  induction w generalizing s with
  | nil => simp
  | cons c w ih =>
    obtain ⟨u, hu, hw⟩ := Option.bind_eq_some_iff.mp h
    exact List.forall_mem_cons.mpr ⟨next_isWord hu, ih hw⟩

/-- Digits behind a digit that is not `0`. -/
theorem run_digits {ds : List Char} (h : ∀ c ∈ ds, c.isDigit = true) :
    NumState.int.run ds = some .int := by
  induction ds with
  | nil => rfl
  | cons c ds ih =>
    obtain ⟨hc, hds⟩ := List.forall_mem_cons.mp h
    rw [NumState.run, NumState.next, if_pos hc, Option.bind_some, ih hds]

/-- A number is a word and no constant's name. -/
theorem numberKind_word {w : List Char} {k : NumberKind} (h : numberKind w = some k) :
    (∀ c ∈ w, isWord c = true) ∧ w ≠ [] ∧ w ≠ "null".toList ∧ w ≠ "true".toList ∧
      w ≠ "false".toList := by
  obtain ⟨t, ht, hk⟩ := Option.bind_eq_some_iff.mp h
  refine ⟨run_isWord ht, ?_, ?_, ?_, ?_⟩
  · rintro rfl
    cases ht
    cases hk
  all_goals
    rintro rfl
    cases k <;> exact absurd h (by decide)

end Numbers

variable {N : Type} (spelling : Spelling N)

section Printing

mutual
def print : Value N → List Char
  | .null => "null".toList
  | .bool b => (if b then "true" else "false").toList
  | .num n => spelling.print n
  | .str s => quote s
  | .arr xs => '[' :: ([','].intercalate (printElements xs) ++ [']'])
  | .obj members => '{' :: ([','].intercalate (printMembers members) ++ ['}'])
def printElements : List (Value N) → List (List Char)
  | [] => []
  | x :: xs => print x :: printElements xs
def printMembers : List (List Char × Value N) → List (List Char)
  | [] => []
  | (k, v) :: members => (quote k ++ ':' :: print v) :: printMembers members
end

end Printing

section Parsing

/-- A number or the name of a constant. -/
def readWord (s : List Char) : Option (Value N × List Char) :=
  let word := s.takeWhile isWord
  let rest := s.dropWhile isWord
  if word = "null".toList then some (.null, rest)
  else if word = "true".toList then some (.bool true, rest)
  else if word = "false".toList then some (.bool false, rest)
  else (spelling.parse word).map fun n => (.num n, rest)

/-- What follows a list's member: the end of the list, or a comma and more. -/
def readMore {α : Type} (close : Char) (x : α) (more : List Char → Option (List α × List Char))
    (s : List Char) : Option (List α × List Char) :=
  match skipSpace s with
  | c :: rest =>
    if c = close then some ([x], rest)
    else if c = ',' then (more rest).map fun y => (x :: y.1, y.2)
    else none
  | [] => none

/-- A list that is closed at once, or has members. -/
def readList {α : Type} (close : Char) (members : List Char → Option (List α × List Char))
    (s : List Char) : Option (List α × List Char) :=
  match skipSpace s with
  | c :: rest => if c = close then some ([], rest) else members (c :: rest)
  | [] => none

/-- The name of a member, and the colon. -/
def readName (s : List Char) : Option (List Char × List Char) :=
  match skipSpace s with
  | '"' :: rest =>
    (readString rest.length rest).bind fun x =>
      match skipSpace x.2 with
      | ':' :: rest => some (x.1, rest)
      | _ => none
  | _ => none

mutual
def readValue : ℕ → List Char → Option (Value N × List Char)
  | 0, _ => none
  | n + 1, s =>
    match skipSpace s with
    | '"' :: rest => (readString rest.length rest).map fun x => (.str x.1, x.2)
    | '[' :: rest => (readList ']' (readElements n) rest).map fun x => (.arr x.1, x.2)
    | '{' :: rest => (readList '}' (readMembers n) rest).map fun x => (.obj x.1, x.2)
    | s => readWord spelling s
def readElements : ℕ → List Char → Option (List (Value N) × List Char)
  | 0, _ => none
  | n + 1, s => (readValue n s).bind fun x => readMore ']' x.1 (readElements n) x.2
def readMembers : ℕ → List Char → Option (List (List Char × Value N) × List Char)
  | 0, _ => none
  | n + 1, s =>
    (readName s).bind fun k =>
      (readValue n k.2).bind fun x => readMore '}' (k.1, x.1) (readMembers n) x.2
end

/-- A text is a value and white space. Every level of the value takes a character at least, so
its length is enough. -/
def parse (s : List Char) : Option (Value N) :=
  (readValue spelling s.length s).bind fun x => if skipSpace x.2 = [] then some x.1 else none

end Parsing

end Json
