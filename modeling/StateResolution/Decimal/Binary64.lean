/-!
# Binary floating point numbers

The finite numbers of the 64-bit binary format, as exact values
`± significand · 2 ^ exponent`, with rounding to nearest and ties to even.
Everything is natural number arithmetic, so a result can be computed in a proof
as well as in a run.
-/

namespace StateResolution.Decimal

/-- A finite float: `significand · 2 ^ exponent` under a sign.  The significand
has at most 53 bits and all of them above the least exponent. -/
structure Binary64 where
  /-- Whether the sign is set; a zero may have it too. -/
  negative : Bool
  /-- The integral significand. -/
  significand : Nat
  /-- The power of two it is scaled by. -/
  exponent : Int
deriving DecidableEq

/-- The exponent of the smallest positive float. -/
def leastExponent : Int := -1074

/-- The exponent of the largest floats. -/
def greatestExponent : Int := 971

/-- Half to even: the integer nearest to `num / den`. -/
def roundDivide (num den : Nat) : Nat :=
  let quotient := num / den
  let twice := 2 * (num % den)
  if twice < den then quotient
  else if den < twice then quotient + 1
  else quotient + quotient % 2

/-- The fraction `num / den` divided by `2 ^ e`. -/
def scaled (num den : Nat) (e : Int) : Nat × Nat :=
  if e < 0 then (num * Nat.pow 2 e.natAbs, den) else (num, den * Nat.pow 2 e.natAbs)

/-- The float nearest to the positive fraction `num / den` under a sign, or
nothing when that lies beyond the largest float. -/
def nearest? (negative : Bool) (num den : Nat) : Option Binary64 :=
  if num = 0 then some ⟨negative, 0, leastExponent⟩
  else
    let first := (Nat.log2 num : Int) - Nat.log2 den - 52
    let (n, d) := scaled num den first
    let fitted := if n / d < Nat.pow 2 52 then first - 1 else first
    let e := max fitted leastExponent
    let (n, d) := scaled num den e
    let m := roundDivide n d
    let (m, e) := if m = Nat.pow 2 53 then (Nat.pow 2 52, e + 1) else (m, e)
    if greatestExponent < e then none else some ⟨negative, m, e⟩

namespace Binary64

/-- The absolute value as a fraction. -/
def magnitude (x : Binary64) : Nat × Nat :=
  if x.exponent < 0 then (x.significand, Nat.pow 2 x.exponent.natAbs)
  else (x.significand * Nat.pow 2 x.exponent.natAbs, 1)

/-- The zero of a sign. -/
def zero (negative : Bool) : Binary64 := ⟨negative, 0, leastExponent⟩

/-- Whether the value is a zero. -/
def isZero (x : Binary64) : Bool := x.significand == 0

/-- The product, rounded; its sign is the first factor's. -/
def times? (x y : Binary64) : Option Binary64 :=
  nearest? x.negative (x.magnitude.1 * y.magnitude.1) (x.magnitude.2 * y.magnitude.2)

/-- The quotient, rounded; its sign is the dividend's. -/
def dividedBy? (x y : Binary64) : Option Binary64 :=
  nearest? x.negative (x.magnitude.1 * y.magnitude.2) (x.magnitude.2 * y.magnitude.1)

/-- The float nearest to a natural number. -/
def ofNat? (negative : Bool) (n : Nat) : Option Binary64 := nearest? negative n 1

/-- The float nearest to a power of ten. -/
def powerOfTen? (k : Nat) : Option Binary64 := nearest? false (Nat.pow 10 k) 1

end Binary64

end StateResolution.Decimal
