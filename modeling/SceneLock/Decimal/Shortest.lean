import SceneLock.Decimal.Binary64

/-!
The shortest decimal of a binary64 number: of the decimals that are nearer to it than to any other
such number, one with the fewest digits, and of those the nearest.
-/

namespace SceneLock

/-- Stands for `digits * 10 ^ exponent`. -/
structure Decimal where
  digits : Nat
  exponent : Int
  deriving DecidableEq, Repr

namespace Decimal

/-- Whether `a / b ≤ c / d`. -/
def ratioLe (a b c d : Nat) : Bool := a * d ≤ c * b

/-- The bounds of the decimals that read as the number, over the denominator four. -/
def bounds (x : Binary64) : Nat × Nat :=
  let low := if x.mantissa = Nat.pow 2 52 ∧ x.exponent > Binary64.leastExponent then 1 else 2
  (4 * x.mantissa - low, 4 * x.mantissa + 2)

/-- A quarter of the last binary place, as a fraction. -/
def quarter (x : Binary64) : Nat × Nat :=
  let e := x.exponent - 2
  if 0 ≤ e then (Nat.pow 2 e.toNat, 1) else (1, Nat.pow 2 (-e).toNat)

/-- Whether a multiple of the decimal unit reads as the number. The bounds themselves do if the
mantissa is even. -/
def reads (x : Binary64) (num den : Nat) : Bool :=
  let (low, high) := bounds x
  let (q, r) := quarter x
  let (low, high) := (low * q, high * q)
  if x.mantissa % 2 = 0 then ratioLe low r num den && ratioLe num den high r
  else !ratioLe num den low r && !ratioLe high r num den

/-- A decimal as a fraction. -/
def ratio (d : Decimal) : Nat × Nat :=
  if 0 ≤ d.exponent then (d.digits * Nat.pow 10 d.exponent.toNat, 1)
  else (d.digits, Nat.pow 10 (-d.exponent).toNat)

def readsAs (d : Decimal) (x : Binary64) : Bool := reads x d.ratio.1 d.ratio.2

/-- The two decimals around the number with the given last place, the nearer one first, and
halfway the one with the even last digit. -/
def neighbours (x : Binary64) (exponent : Int) : List Decimal :=
  let (num, den) := x.ratio
  let (n, d) := if 0 ≤ exponent then (num, den * Nat.pow 10 exponent.toNat)
    else (num * Nat.pow 10 (-exponent).toNat, den)
  let floor := n / d
  let rest := n % d
  let below : Decimal := ⟨floor, exponent⟩
  let above : Decimal := ⟨floor + 1, exponent⟩
  if 2 * rest < d ∨ (2 * rest = d ∧ floor % 2 = 0) then [below, above] else [above, below]

/-- The place of the first digit: the power of ten that the number reaches and tenfold exceeds. -/
def leadingPlace (x : Binary64) : Int :=
  let (num, den) := x.ratio
  let guess : Int := ((Nat.log2 num : Int) - Nat.log2 den) * 1233 / 4096
  let reached (k : Int) : Bool :=
    if 0 ≤ k then den * Nat.pow 10 k.toNat ≤ num else den ≤ num * Nat.pow 10 (-k).toNat
  if reached (guess + 1) then guess + 1
  else if reached guess then guess
  else if reached (guess - 1) then guess - 1
  else guess - 2

def dropZeros (d : Decimal) : Decimal :=
  if h : d.digits ≠ 0 ∧ d.digits % 10 = 0 then dropZeros ⟨d.digits / 10, d.exponent + 1⟩ else d
termination_by d.digits
decreasing_by omega

/-- Tries decimals of `digits` digits, then of one more, up to seventeen, which always suffice. -/
def search (x : Binary64) (place : Int) : (left : Nat) → (digits : Nat) → Decimal
  | 0, _ => ⟨0, 0⟩
  | left + 1, digits =>
    match (neighbours x (place - digits + 1)).find? (·.readsAs x) with
    | some d => d.dropZeros
    | none => search x place left (digits + 1)

def shortest (x : Binary64) : Decimal :=
  if x.mantissa = 0 then ⟨0, 0⟩ else search x (leadingPlace x) 17 1

end Decimal

end SceneLock
