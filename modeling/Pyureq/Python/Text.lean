import Mathlib.Data.List.DropRight
import Pyureq.Base.Delimited
import Pyureq.Exceptions

/-! The string methods of Python and Rust that the code calls, on text as a list of
Unicode scalar values. -/

namespace Pyureq
open Delimited

/-- The characters that `str.strip()` removes. -/
def isSpace (c : Char) : Bool :=
  let n := c.toNat
  (9 ≤ n && n ≤ 13) || (28 ≤ n && n ≤ 32) || n == 0x85 || n == 0xA0 || n == 0x1680 ||
    (0x2000 ≤ n && n ≤ 0x200A) || n == 0x2028 || n == 0x2029 || n == 0x202F || n == 0x205F ||
    n == 0x3000

/-- The characters that Rust's `str::trim` removes: Unicode's `White_Space`. -/
def isRustSpace (c : Char) : Bool := isSpace c && !(28 ≤ c.toNat && c.toNat ≤ 31)

def stripBy (p : Char → Bool) (s : Text) : Text := (s.dropWhile p).rdropWhile p

def strip (s : Text) : Text := stripBy isSpace s

def trim (s : Text) : Text := stripBy isRustSpace s

/-- `s.partition(d)` without its middle component. -/
def partition (d : Char) (s : Text) : Text × Text := ((cut d s).1, (cut d s).2.getD [])

/-- `a.eq_ignore_ascii_case(b)`; `Char.toLower` changes ASCII letters only. -/
def eqIgnoreAsciiCase (a b : Text) : Bool := a.map Char.toLower == b.map Char.toLower

theorem stripBy_append_of_none {p : Char → Bool} {s : Text} (h : ∀ c ∈ s, p c = false) :
    stripBy p s = s := by
  have hd : s.dropWhile p = s := by
    cases s with
    | nil => rfl
    | cons c s => rw [List.dropWhile_cons_of_neg (by simp [h c List.mem_cons_self])]
  rw [stripBy, hd, List.rdropWhile_eq_self_iff]
  intro hs
  simp [h _ (List.getLast_mem hs)]

theorem stripBy_cons {p : Char → Bool} {c : Char} (hc : p c = true) (s : Text) :
    stripBy p (c :: s) = stripBy p s := by
  rw [stripBy, List.dropWhile_cons_of_pos hc, stripBy]

theorem strip_of_no_space {s : Text} (h : ∀ c ∈ s, isSpace c = false) : strip s = s :=
  stripBy_append_of_none h

theorem mem_of_mem_stripBy {p : Char → Bool} {s : Text} {c : Char} (h : c ∈ stripBy p s) :
    c ∈ s :=
  (List.dropWhile_suffix p).subset ((List.rdropWhile_prefix p _).subset h)

/-- Only what the text contains matters for what is stripped from it. -/
theorem stripBy_congr {p q : Char → Bool} {s : Text} (h : ∀ c ∈ s, p c = q c) :
    stripBy p s = stripBy q s := by
  have hleft : ∀ t : Text, (∀ c ∈ t, p c = q c) → t.dropWhile p = t.dropWhile q := by
    intro t ht
    induction t with
    | nil => rfl
    | cons c t ih =>
      obtain ⟨hc, ht⟩ := List.forall_mem_cons.mp ht
      rw [List.dropWhile_cons, List.dropWhile_cons, hc, ih ht]
  have hrest : ∀ c ∈ (s.dropWhile q).reverse, p c = q c :=
    fun c hc => h c ((List.dropWhile_suffix q).subset (List.mem_reverse.mp hc))
  rw [stripBy, stripBy, hleft s h, List.rdropWhile, List.rdropWhile, hleft _ hrest]

/-- A text stays as it is when neither of its ends can be stripped. -/
theorem stripBy_eq_self_iff {p : Char → Bool} {s : Text} : stripBy p s = s ↔
    (∀ c, s.head? = some c → p c = false) ∧ ∀ c, s.getLast? = some c → p c = false := by
  have hend : s.rdropWhile p = s ↔ ∀ c, s.getLast? = some c → p c = false := by
    rw [List.rdropWhile_eq_self_iff]
    cases s using List.reverseRecOn with
    | nil => simp
    | append_singleton s c => simp
  have hstart : s.dropWhile p = s ↔ ∀ c, s.head? = some c → p c = false := by
    rw [List.dropWhile_eq_self_iff]
    cases s with
    | nil => simp
    | cons c s => simp
  constructor
  · intro h
    -- what is lost on one side cannot be made up for on the other
    have hlen := congrArg List.length h
    have hleft : (s.dropWhile p).length ≤ s.length := (List.dropWhile_suffix p).length_le
    have hright := (List.rdropWhile_prefix p (s.dropWhile p)).length_le
    rw [stripBy] at h hlen
    have hs : s.dropWhile p = s := (List.dropWhile_suffix p).eq_of_length (by omega)
    rw [hs] at h
    exact ⟨hstart.mp hs, hend.mp h⟩
  · rintro ⟨hs, he⟩
    rw [stripBy, hstart.mpr hs, hend.mpr he]

theorem stripBy_stripBy (p : Char → Bool) (s : Text) : stripBy p (stripBy p s) = stripBy p s := by
  have hleft : (stripBy p s).dropWhile p = stripBy p s := by
    obtain ⟨r, hr⟩ := List.rdropWhile_prefix p (s.dropWhile p)
    have hidem := List.dropWhile_idempotent p s
    rw [stripBy]
    cases hu : (s.dropWhile p).rdropWhile p with
    | nil => rfl
    | cons c u =>
      -- the first character is the one that stopped the stripping
      rw [hu, List.cons_append] at hr
      rw [← hr] at hidem
      have hc := List.dropWhile_eq_self_iff.mp hidem (by simp)
      exact List.dropWhile_cons_of_neg hc
  conv_lhs => rw [stripBy, hleft]
  exact List.rdropWhile_idempotent p _

/-- What is left by stripping has nothing to strip at its ends. -/
theorem stripBy_ends (p : Char → Bool) (s : Text) :
    (∀ c, (stripBy p s).head? = some c → p c = false) ∧
      ∀ c, (stripBy p s).getLast? = some c → p c = false :=
  stripBy_eq_self_iff.mp (stripBy_stripBy p s)

theorem partition_append {d : Char} {a : Text} (h : d ∉ a) (b : Text) :
    partition d (a ++ d :: b) = (a, b) := by
  rw [partition, cut_append_cons h]
  rfl

theorem mem_of_mem_partition {d c : Char} {s : Text} (h : c ∈ (partition d s).2) : c ∈ s := by
  cases hb : (cut d s).2 with
  | none => simp [partition, hb] at h
  | some b =>
    obtain ⟨-, hs⟩ := cut_eq_some (d := d) (s := s) (a := (cut d s).1) (Prod.ext rfl hb)
    have hc : c ∈ b := by simpa [partition, hb] using h
    rw [hs]
    exact List.mem_append_right _ (List.mem_cons_of_mem _ hc)

/-- Nothing that would be stripped stands at either end. -/
theorem stripBy_cons_append {p : Char → Bool} {a b : Char} (ha : p a = false) (hb : p b = false)
    (s : Text) : stripBy p (a :: (s ++ [b])) = a :: (s ++ [b]) := by
  rw [stripBy_eq_self_iff]
  constructor
  · intro c hc
    obtain rfl := Option.some.inj hc
    exact ha
  · intro c hc
    rw [← List.cons_append, List.getLast?_concat] at hc
    obtain rfl := Option.some.inj hc
    exact hb

/-- Delimiters around a text that has none are stripped. -/
theorem stripBy_enclosed {p : Char → Bool} {a b : Char} {s : Text} (ha : p a = true)
    (hb : p b = true) (hs : ∀ c ∈ s, p c = false) : stripBy p (a :: (s ++ [b])) = s := by
  rw [stripBy_cons ha]
  cases s with
  | nil => rw [List.nil_append, stripBy_cons hb]; rfl
  | cons c s =>
    have hc : ¬p c = true := by simp [hs c List.mem_cons_self]
    have hself : stripBy p (c :: s) = c :: s := stripBy_append_of_none hs
    rw [stripBy, List.dropWhile_cons_of_neg hc] at hself
    rw [List.cons_append, stripBy, List.dropWhile_cons_of_neg hc, ← List.cons_append,
      List.rdropWhile_concat_pos _ _ _ hb, hself]

theorem eqIgnoreAsciiCase_iff {a b : Text} :
    eqIgnoreAsciiCase a b = true ↔ a.map Char.toLower = b.map Char.toLower := beq_iff_eq

end Pyureq
