import Pyureq.Base.PercentCoding

/-! Base64 with the standard alphabet and padding: three bytes are four digits, and the last
group is padded with `=`. -/

namespace Base64

/-- `A`–`Z`, `a`–`z`, `0`–`9`, `+`, `/`. -/
def digit (n : ℕ) : Char :=
  if n < 26 then Char.ofNat (65 + n)
  else if n < 52 then Char.ofNat (71 + n)
  else if n < 62 then Char.ofNat (n - 4)
  else if n = 62 then '+' else '/'

def value (c : Char) : Option ℕ :=
  if 'A' ≤ c ∧ c ≤ 'Z' then some (c.toNat - 65)
  else if 'a' ≤ c ∧ c ≤ 'z' then some (c.toNat - 71)
  else if '0' ≤ c ∧ c ≤ '9' then some (c.toNat + 4)
  else if c = '+' then some 62
  else if c = '/' then some 63
  else none

def encode : List UInt8 → List Char
  | [] => []
  | [a] => [digit (a.toNat / 4), digit (a.toNat % 4 * 16), '=', '=']
  | [a, b] =>
    [digit (a.toNat / 4), digit (a.toNat % 4 * 16 + b.toNat / 16), digit (b.toNat % 16 * 4), '=']
  | a :: b :: c :: rest =>
    digit (a.toNat / 4) :: digit (a.toNat % 4 * 16 + b.toNat / 16) ::
      digit (b.toNat % 16 * 4 + c.toNat / 64) :: digit (c.toNat % 64) :: encode rest

/-- The bytes of the values of a group; only the first `n` of them are meant. -/
def bytes (n p q r s : ℕ) : List UInt8 :=
  [UInt8.ofNat (4 * p + q / 16), UInt8.ofNat (q % 16 * 16 + r / 4),
    UInt8.ofNat (r % 4 * 64 + s)].take n

/-- A group that ends in `=`: one byte or two, and no bit is set beyond them. -/
def lastGroup (w x y : Char) : Option (List UInt8) := do
  let p ← value w
  let q ← value x
  if y = '=' then
    if q % 16 = 0 then some (bytes 1 p q 0 0) else none
  else
    let r ← value y
    if r % 4 = 0 then some (bytes 2 p q r 0) else none

def decode : List Char → Option (List UInt8)
  | [] => some []
  | w :: x :: y :: z :: rest =>
    if z = '=' then
      if rest = [] then lastGroup w x y else none
    else do
      let p ← value w
      let q ← value x
      let r ← value y
      let s ← value z
      let bs ← decode rest
      pure (bytes 3 p q r s ++ bs)
  | _ => none

theorem value_digit : ∀ n < 64, value (digit n) = some n := by decide

theorem digit_ne_pad : ∀ n < 64, digit n ≠ '=' := by decide

/-- What an encoding consists of. -/
def Char64 (c : Char) : Prop := c = '=' ∨ ∃ n < 64, c = digit n

/-- Printable ASCII, and no blank. -/
theorem Char64.visible {c : Char} (h : Char64 c) : 33 ≤ c.toNat ∧ c.toNat < 127 := by
  have htable : ∀ n < 64, 33 ≤ (digit n).toNat ∧ (digit n).toNat < 127 := by decide
  rcases h with rfl | ⟨n, hn, rfl⟩
  · decide
  · exact htable n hn

section Bytes
variable (a b c : UInt8)

theorem high_lt : a.toNat / 4 < 64 := by
  have h := a.toNat_lt
  omega

theorem middle_lt : a.toNat % 4 * 16 + b.toNat / 16 < 64 := by
  have h := b.toNat_lt
  omega

theorem low_lt : b.toNat % 16 * 4 + c.toNat / 64 < 64 := by
  have h := c.toNat_lt
  omega

/-- The three bytes come back from the four values. -/
theorem bytes_values : bytes 3 (a.toNat / 4) (a.toNat % 4 * 16 + b.toNat / 16)
    (b.toNat % 16 * 4 + c.toNat / 64) (c.toNat % 64) = [a, b, c] := by
  have ha := a.toNat_lt
  have hb := b.toNat_lt
  have hc := c.toNat_lt
  have h1 : 4 * (a.toNat / 4) + (a.toNat % 4 * 16 + b.toNat / 16) / 16 = a.toNat := by omega
  have h2 : (a.toNat % 4 * 16 + b.toNat / 16) % 16 * 16 +
      (b.toNat % 16 * 4 + c.toNat / 64) / 4 = b.toNat := by omega
  have h3 : (b.toNat % 16 * 4 + c.toNat / 64) % 4 * 64 + c.toNat % 64 = c.toNat := by omega
  simp only [bytes, h1, h2, h3, UInt8.ofNat_toNat, List.take_succ_cons, List.take_zero]

end Bytes

theorem decode_encode (bs : List UInt8) : decode (encode bs) = some bs := by
  induction bs using encode.induct with
  | case1 => rfl
  | case2 a =>
    have hmid := middle_lt a 0
    have hbytes := congrArg (List.take 1) (bytes_values a 0 0)
    have hlow : a.toNat % 4 * 16 % 16 = 0 := by omega
    simp only [UInt8.toNat_zero, Nat.zero_div, Nat.add_zero] at hmid hbytes
    simp only [encode, decode, lastGroup, value_digit _ (high_lt a), value_digit _ hmid, hlow,
      if_true, bind, Option.bind]
    exact congrArg some hbytes
  | case3 a b =>
    have hlow := low_lt b 0
    have hbytes := congrArg (List.take 2) (bytes_values a b 0)
    have hlast : b.toNat % 16 * 4 % 4 = 0 := by omega
    simp only [UInt8.toNat_zero, Nat.zero_div, Nat.add_zero] at hlow hbytes
    simp only [encode, decode, lastGroup, value_digit _ (high_lt a), value_digit _ (middle_lt a b),
      value_digit _ hlow, if_neg (digit_ne_pad _ hlow), hlast, if_true, bind, Option.bind]
    exact congrArg some hbytes
  | case4 a b c rest ih =>
    have hlast : c.toNat % 64 < 64 := Nat.mod_lt _ (by decide)
    simp only [encode, decode, value_digit _ (high_lt a), value_digit _ (middle_lt a b),
      value_digit _ (low_lt b c), value_digit _ hlast, if_neg (digit_ne_pad _ hlast), ih,
      bytes_values, bind, Option.bind]
    rfl

theorem encode_chars (bs : List UInt8) : ∀ c ∈ encode bs, Char64 c := by
  have hdigit : ∀ n, n < 64 → Char64 (digit n) := fun n hn => Or.inr ⟨n, hn, rfl⟩
  have hpad : Char64 '=' := Or.inl rfl
  induction bs using encode.induct with
  | case1 => simp [encode]
  | case2 a =>
    have hmid := middle_lt a 0
    simp only [UInt8.toNat_zero, Nat.zero_div, Nat.add_zero] at hmid
    simp only [encode, List.forall_mem_cons, List.not_mem_nil, false_implies, implies_true,
      and_true]
    exact ⟨hdigit _ (high_lt a), hdigit _ hmid, hpad, hpad⟩
  | case3 a b =>
    have hlow := low_lt b 0
    simp only [UInt8.toNat_zero, Nat.zero_div, Nat.add_zero] at hlow
    simp only [encode, List.forall_mem_cons, List.not_mem_nil, false_implies, implies_true,
      and_true]
    exact ⟨hdigit _ (high_lt a), hdigit _ (middle_lt a b), hdigit _ hlow, hpad⟩
  | case4 a b c rest ih =>
    simp only [encode, List.forall_mem_cons]
    exact ⟨hdigit _ (high_lt a), hdigit _ (middle_lt a b), hdigit _ (low_lt b c),
      hdigit _ (Nat.mod_lt _ (by decide)), ih⟩

end Base64
