import StateResolution.Decimal.Binary64

/-!
# The shortest decimal text of a float

Of all decimals that read back as a given float, the one with the fewest digits,
and of those the nearest.  For one digit, two digits and so on up to seventeen,
the value's two neighbours on that decimal grid are tried against the interval
of reals that round to the float.
-/

namespace StateResolution.Decimal

/-- A positive decimal `digits · 10 ^ exponent`. -/
structure Digits where
  /-- The digits as a number. -/
  digits : Nat
  /-- The power of ten they are scaled by. -/
  exponent : Int
deriving DecidableEq

namespace Binary64

/-- The interval of reals that round to a positive float: its lower end, its
value and its upper end as numerators over one denominator, and whether the
ends belong to it. -/
structure Interval where
  /-- The lower end. -/
  lower : Nat
  /-- The value itself. -/
  value : Nat
  /-- The upper end. -/
  upper : Nat
  /-- The common denominator. -/
  denominator : Nat
  /-- Ties go to even, so the ends of an even significand round to it. -/
  closed : Bool

/-- The rounding interval of a positive float.  Below a power of two the next
float is only half as far. -/
def interval (x : Binary64) : Interval :=
  let near := x.significand == Nat.pow 2 52 && leastExponent < x.exponent
  let m := 4 * x.significand
  let lower := if near then m - 1 else m - 2
  let scale := Nat.pow 2 x.exponent.natAbs
  let closed := x.significand % 2 == 0
  if x.exponent < 0 then ⟨lower, m, m + 2, 4 * scale, closed⟩
  else ⟨lower * scale, m * scale, (m + 2) * scale, 4, closed⟩

/-- Whether `q · num / den` lies in a rounding interval. -/
def Interval.covers (i : Interval) (q num den : Nat) : Bool :=
  let point := q * num * i.denominator
  if i.closed then i.lower * den ≤ point && point ≤ i.upper * den
  else i.lower * den < point && point < i.upper * den

/-- The multiple of `10 ^ p` that reads back, nearest to the value, if a
neighbour of the value on that grid does; a tie goes to the even one. -/
def Interval.onGrid? (i : Interval) (p : Int) : Option Digits :=
  let num := if p < 0 then 1 else Nat.pow 10 p.natAbs
  let den := if p < 0 then Nat.pow 10 p.natAbs else 1
  let top := i.value * den
  let unit := num * i.denominator
  let below := top / unit
  let gap := 2 * (top % unit)
  match i.covers below num den && below != 0, i.covers (below + 1) num den with
  | true, true =>
    if gap < unit || (gap == unit && below % 2 == 0) then some ⟨below, p⟩ else some ⟨below + 1, p⟩
  | true, false => some ⟨below, p⟩
  | false, true => some ⟨below + 1, p⟩
  | false, false => none

/-- The first grid with a hit, from a coarse one to ever finer ones. -/
def Interval.search (i : Interval) : Nat → Int → Option Digits
  | 0, _ => none
  | n + 1, p =>
    match i.onGrid? p with
    | some d => some d
    | none => search i n (p - 1)

/-- The shortest digits of a positive float. -/
def shortest (x : Binary64) : Digits :=
  let i := x.interval
  let bits := (Nat.log2 x.significand : Int) + x.exponent
  -- A power of ten that is surely above the value.
  let above := bits * 30103 / 100000 + 2
  (i.search 21 above).getD ⟨0, 0⟩

/-- The text of a float: positional from `0.00001` up to below `10 ^ 16`, with
`.0` when whole, and otherwise one digit, the rest after a point, and an
exponent with its sign. -/
def text (x : Binary64) : String :=
  let sign := if x.negative then "-" else ""
  if x.isZero then sign ++ "0.0"
  else
    let d := x.shortest
    let ds := Nat.toDigits 10 d.digits
    let point := (ds.length : Int) + d.exponent
    let body :=
      if 0 < point ∧ point ≤ 16 then
        if 0 ≤ d.exponent then ds ++ List.replicate d.exponent.natAbs '0' ++ ['.', '0']
        else ds.take point.natAbs ++ '.' :: ds.drop point.natAbs
      else if -5 < point ∧ point ≤ 0 then '0' :: '.' :: List.replicate point.natAbs '0' ++ ds
      else
        let mantissa := match ds with
          | [] => []
          | [c] => [c]
          | c :: rest => c :: '.' :: rest
        let power := point - 1
        mantissa ++ 'e' :: (if power < 0 then '-' else '+') :: Nat.toDigits 10 power.natAbs
    sign ++ String.ofList body

end Binary64

end StateResolution.Decimal
