/-! The exception classes of `exceptions.py` over the built-in classes that the Rust core
and the interpreter raise, with the subclass relation their class statements declare. -/

namespace Pyureq

abbrev Text := List Char
abbrev Bytes := List UInt8

inductive ExcClass where
  | baseException | exception | osError | timeoutError | builtinConnectionError
  | runtimeError | valueError | typeError | attributeError | lookupError | keyError
  | indexError | arithmeticError | overflowError
  /-- What pyo3 raises for a Rust panic: not an `Exception`. -/
  | panicException
  | requestException | httpError | connectionError | proxyError | sslError | timeout
  | connectTimeout | readTimeout | urlRequired | tooManyRedirects | missingSchema
  | invalidSchema | invalidURL | invalidHeader | chunkedEncodingError
  | contentDecodingError | retryError
  deriving DecidableEq, Repr

namespace ExcClass

def bases : ExcClass → List ExcClass
  | baseException => []
  | exception | panicException => [baseException]
  | osError | runtimeError | valueError | typeError | attributeError | lookupError
  | arithmeticError => [exception]
  | timeoutError | builtinConnectionError => [osError]
  | keyError | indexError => [lookupError]
  | overflowError => [arithmeticError]
  | requestException => [osError]
  | httpError | connectionError | timeout | tooManyRedirects | chunkedEncodingError
  | contentDecodingError | retryError => [requestException]
  | proxyError | sslError => [connectionError]
  | connectTimeout => [connectionError, timeout]
  | readTimeout => [timeout]
  | urlRequired | missingSchema | invalidSchema | invalidURL | invalidHeader =>
    [requestException, valueError]

/-- The class and everything above it, up to `n` levels. -/
def ancestors : Nat → ExcClass → List ExcClass
  | 0, c => [c]
  | n + 1, c => c :: c.bases.flatMap (ancestors n)

/-- No chain of class statements is longer than eight. -/
def isSubclass (c d : ExcClass) : Bool := (ancestors 8 c).contains d

end ExcClass

structure PyErr where
  cls : ExcClass
  msg : Text
  deriving DecidableEq

namespace PyErr

/-- Whether an `except` clause naming `c` catches the exception. -/
def isInstance (e : PyErr) (c : ExcClass) : Bool := e.cls.isSubclass c

end PyErr

/-- A computation succeeds when its first part does and the rest does on its value. -/
theorem bind_eq_ok {ε α β : Type} {x : Except ε α} {f : α → Except ε β} {b : β} :
    x >>= f = .ok b ↔ ∃ a, x = .ok a ∧ f a = .ok b := by
  cases x <;> simp [bind, Except.bind]

theorem map_eq_ok {ε α β : Type} {x : Except ε α} {f : α → β} {b : β} :
    x.map f = .ok b ↔ ∃ a, x = .ok a ∧ f a = b := by
  cases x <;> simp [Except.map]

/-- Both computations fail, with related errors, or both succeed, with related values. -/
inductive ExceptRel {ε δ α β : Type} (E : ε → δ → Prop) (R : α → β → Prop) :
    Except ε α → Except δ β → Prop where
  | error {e : ε} {f : δ} : E e f → ExceptRel E R (.error e) (.error f)
  | ok {a : α} {b : β} : R a b → ExceptRel E R (.ok a) (.ok b)

theorem ExceptRel.bind {ε δ α β α' β' : Type} {E : ε → δ → Prop} {R : α → β → Prop}
    {S : α' → β' → Prop} {x : Except ε α} {y : Except δ β} {f : α → Except ε α'}
    {g : β → Except δ β'} (h : ExceptRel E R x y)
    (hfg : ∀ a b, R a b → ExceptRel E S (f a) (g b)) : ExceptRel E S (x.bind f) (y.bind g) := by
  cases h with
  | error he => exact ExceptRel.error he
  | ok hab => exact hfg _ _ hab

theorem exceptRel_of_map {ε α β γ : Type} {x : Except ε α} {y : Except ε β} {f : α → γ} {g : β → γ}
    (h : x.map f = y.map g) : ExceptRel Eq (fun a b => f a = g b) x y := by
  cases x with
  | error e =>
    cases y with
    | error e' => exact ExceptRel.error (Except.error.inj h)
    | ok b => cases h
  | ok a =>
    cases y with
    | error e' => cases h
    | ok b => exact ExceptRel.ok (Except.ok.inj h)

end Pyureq
