import Mathlib.Algebra.Group.Int.Defs
import Mathlib.Algebra.Group.Nat.Defs
import Mathlib.Data.Nat.Log
import Mathlib.Tactic.Common

/-!
Numbers written in decimal, as integers of a bounded range and as binary floating point.

A floating-point number is its bit pattern. A decimal literal becomes the pattern of the
nearest number of the format, ties going to the even pattern, and that of infinity where the
literal is too large.
-/

namespace Moulars.Lib.Number

/-! ### Integers -/

/-- The value of a nonempty string of digits, most significant first. -/
def ofDigits (cs : List Char) : Option ℕ :=
  if cs ≠ [] ∧ cs.all Char.isDigit then
    some (cs.foldl (fun n c => n * 10 + (c.toNat - '0'.toNat)) 0)
  else none

def parseUnsigned (max : ℕ) (s : String) : Option ℕ := do
  let n ← ofDigits (match s.toList with
    | '+' :: cs => cs
    | cs => cs)
  if n ≤ max then some n else none

def parseSigned (min max : ℤ) (s : String) : Option ℤ := do
  let n ← match s.toList with
    | '-' :: cs => (ofDigits cs).map fun n => -(n : ℤ)
    | '+' :: cs => (ofDigits cs).map fun n => (n : ℤ)
    | cs => (ofDigits cs).map fun n => (n : ℤ)
  if min ≤ n ∧ n ≤ max then some n else none

/-! ### Floating point -/

/-- A binary format: the digits of its significand and the width of its exponent. -/
structure FloatFormat where
  precision : ℕ
  exponentBits : ℕ

namespace FloatFormat

def single : FloatFormat := ⟨24, 8⟩
def double : FloatFormat := ⟨53, 11⟩

/-- The exponent of the smallest positive number. -/
def leastExponent (f : FloatFormat) : ℤ := 3 - 2 ^ (f.exponentBits - 1) - (f.precision : ℤ)

def infinity (f : FloatFormat) : ℕ := (2 ^ f.exponentBits - 1) * 2 ^ (f.precision - 1)

def signBit (f : FloatFormat) : ℕ := 2 ^ (f.exponentBits + f.precision - 1)

/-- `n / d` to the nearest integer, ties to even. -/
def divRound (n d : ℕ) : ℕ :=
  let q := n / d
  let r := n % d
  if d < 2 * r ∨ (2 * r = d ∧ q % 2 = 1) then q + 1 else q

/-- `n / d` as a multiple of `2 ^ e`, rounded. -/
def scaled (n d : ℕ) (e : ℤ) : ℕ :=
  if 0 ≤ e then divRound n (d * 2 ^ e.toNat) else divRound (n * 2 ^ (-e).toNat) d

/-- The pattern of the number nearest to `n / d`. -/
def round (f : FloatFormat) (n d : ℕ) : ℕ :=
  if n = 0 then 0
  else
    -- With this exponent the quotient has one digit too many, or just as many as there are.
    let e₀ : ℤ := (Nat.log 2 n : ℤ) - Nat.log 2 d - f.precision
    let fits : Bool := if 0 ≤ e₀ then n < d * 2 ^ e₀.toNat * 2 ^ f.precision
      else n * 2 ^ (-e₀).toNat < d * 2 ^ f.precision
    let e := max f.leastExponent (if fits then e₀ else e₀ + 1)
    -- A significand that rounds up to the next power of two carries into the exponent.
    min f.infinity ((e - f.leastExponent).toNat * 2 ^ (f.precision - 1) + scaled n d e)

/-- The pattern of a literal of digits with at most one point. -/
def parse (f : FloatFormat) (s : String) : Option ℕ :=
  let (sign, cs) : ℕ × List Char := match s.toList with
    | '-' :: cs => (f.signBit, cs)
    | '+' :: cs => (0, cs)
    | cs => (0, cs)
  let whole := cs.takeWhile (· ≠ '.')
  let fraction := (cs.drop whole.length).tail
  (ofDigits (whole ++ fraction)).map fun n => sign + f.round n (10 ^ fraction.length)

end FloatFormat

example : FloatFormat.single.parse "3.14" = some 0x4048F5C3 := by decide +kernel
example : FloatFormat.double.parse "-0.1" = some 0xBFB999999999999A := by decide +kernel

end Moulars.Lib.Number
