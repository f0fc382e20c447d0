/-!
# Signed and unsigned integers in text

Decimal integers as they stand in texts: an optional single sign, then ASCII
digits and nothing else.  Reading is bounded by the width of the word the
number is meant for.
-/

namespace StateResolution.Text

/-- The value of a digit in a base up to sixteen; letters count in either case. -/
def baseDigit? (base : Nat) (c : Char) : Option Nat :=
  let value :=
    if '0' ≤ c && c ≤ '9' then some (c.toNat - '0'.toNat)
    else if 'a' ≤ c && c ≤ 'f' then some (c.toNat - 'a'.toNat + 10)
    else if 'A' ≤ c && c ≤ 'F' then some (c.toNat - 'A'.toNat + 10)
    else none
  value.filter (· < base)

/-- The value of a row of digits, after a value already read. -/
def digitsFrom? (base : Nat) : Nat → List Char → Option Nat
  | value, [] => some value
  | value, c :: cs =>
    match baseDigit? base c with
    | some d => digitsFrom? base (value * base + d) cs
    | none => none

/-- The value of a non-empty row of digits. -/
def natural? (base : Nat) : List Char → Option Nat
  | [] => none
  | c :: cs => digitsFrom? base 0 (c :: cs)

/-- The largest unsigned 64-bit integer. -/
def maxUnsigned : Nat := Nat.pow 2 64 - 1

/-- The largest signed 64-bit integer. -/
def maxSigned : Int := Int.pow 2 63 - 1

/-- The smallest signed 64-bit integer. -/
def minSigned : Int := -Int.pow 2 63

/-- Whether an integer is a signed 64-bit one. -/
def fitsSigned (n : Int) : Bool := minSigned ≤ n && n ≤ maxSigned

/-- An unsigned integer of at most a given size; a single plus sign may lead. -/
def unsigned? (largest : Nat) : List Char → Option Nat
  | '+' :: cs => (natural? 10 cs).filter (· ≤ largest)
  | cs => (natural? 10 cs).filter (· ≤ largest)

/-- A signed 64-bit integer; a single sign may lead. -/
def signed? : List Char → Option Int
  | '+' :: cs => ((natural? 10 cs).map Int.ofNat).filter fitsSigned
  | '-' :: cs => ((natural? 10 cs).map fun n => -Int.ofNat n).filter fitsSigned
  | cs => ((natural? 10 cs).map Int.ofNat).filter fitsSigned

/-- The digits of a number in base sixteen, lower case, without padding. -/
def hexadecimal (n : Nat) : String := String.ofList (Nat.toDigits 16 n)

/-- The lower case digit of a number below sixteen. -/
def hexDigit (n : Nat) : Char := Nat.digitChar (n % 16)

end StateResolution.Text
