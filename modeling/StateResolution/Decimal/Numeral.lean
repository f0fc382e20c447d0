import StateResolution.Decimal.Binary64
import StateResolution.Text.Integer

/-!
# Numerals

A number as it is written, and its value.  A whole numeral within the signed or
unsigned 64-bit range is that integer.  Any other is a float: its digits are
gathered into an unsigned word as far as they fit, further digits before the
point only raise the exponent, further digits behind it are dropped, and the
word is then multiplied or divided by a power of ten, rounding each time.
-/

namespace StateResolution.Decimal

open Text (maxUnsigned)

/-- A number as it is written. -/
structure Numeral where
  /-- Whether a minus sign leads. -/
  negative : Bool
  /-- The digits before the point. -/
  whole : List Nat
  /-- The digits behind the point, when there is one. -/
  fraction : Option (List Nat)
  /-- The exponent's sign and digits, when there is one. -/
  power : Option (Bool × List Nat)
deriving DecidableEq

/-- The value of a number. -/
inductive Number
  /-- An integer of the signed or the unsigned 64-bit range. -/
  | integer (value : Int)
  /-- Any other number. -/
  | float (value : Binary64)
deriving DecidableEq

/-- Digits gathered into a word, and the digits left over from the first that
no longer fits. -/
def gather : Nat → List Nat → Nat × List Nat
  | word, [] => (word, [])
  | word, d :: ds =>
    if word * 10 + d ≤ maxUnsigned then gather (word * 10 + d) ds else (word, d :: ds)

/-- The largest exponent that is told apart from larger ones. -/
def maxPower : Nat := Nat.pow 2 31 - 1

/-- The exponent a row of digits writes, or nothing when it is too large. -/
def powerFrom? : Nat → List Nat → Option Nat
  | value, [] => some value
  | value, d :: ds => if value * 10 + d ≤ maxPower then powerFrom? (value * 10 + d) ds else none

/-- `x · 10 ^ e`: below `10 ^ -308` in steps of at most that size. -/
def scaleTen? : Nat → Binary64 → Int → Option Binary64
  | 0, x, _ => some (Binary64.zero x.negative)
  | n + 1, x, e =>
    if x.isZero then some x
    else if e < -308 then do
      let x ← x.dividedBy? (← Binary64.powerOfTen? 308)
      scaleTen? n x (e + 308)
    else if e < 0 then do x.dividedBy? (← Binary64.powerOfTen? e.natAbs)
    else if e ≤ 308 then do x.times? (← Binary64.powerOfTen? e.natAbs)
    else none

/-- A word times a power of ten.  Three steps of `10 ^ -308` take any word to
zero. -/
def scaledWord? (negative : Bool) (word : Nat) (e : Int) : Option Binary64 := do
  scaleTen? 4 (← Binary64.ofNat? negative word) e

/-- The value of a numeral, or nothing when it is too large for a float. -/
def Numeral.value? (n : Numeral) : Option Number :=
  let (word, rest) := gather 0 n.whole
  match n.fraction, n.power with
  | none, none =>
    if rest.isEmpty then
      if !n.negative then some (.integer word)
      else if 0 < word ∧ word ≤ Nat.pow 2 63 then some (.integer (-word))
      else (Binary64.ofNat? true word).map .float
    else (scaledWord? n.negative word rest.length).map .float
  | fraction, power =>
    let behind := fraction.getD []
    let (word, dropped) := gather word behind
    let start := (rest.length : Int) - (behind.length - dropped.length : Nat)
    match power with
    | none => (scaledWord? n.negative word start).map .float
    | some (down, digits) =>
      match powerFrom? 0 digits with
      | some e => (scaledWord? n.negative word (if down then start - e else start + e)).map .float
      | none =>
        if word ≠ 0 ∧ down = false then none else some (.float (Binary64.zero n.negative))

end StateResolution.Decimal
