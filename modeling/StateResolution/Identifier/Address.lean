import StateResolution.Text.Integer

/-!
# Numeric addresses

The text forms of network addresses that a server name may hold in brackets:
eight groups of up to four hexadecimal digits, of which one run of zeros may be
written as `::`, and the last two may be written as four decimal numbers.

Only whether a text is an address matters here, so a step gives the characters
behind what it recognises.
-/

namespace StateResolution.Identifier

open Text (baseDigit? natural?)

/-- The characters behind a number of one to `most` digits in a base. -/
def skipNumber? (base most : Nat) (cs : List Char) : Option (List Char × List Char) :=
  let isDigit := fun c => (baseDigit? base c).isSome
  let digits := cs.takeWhile isDigit
  if digits.isEmpty || most < digits.length then none else some (digits, cs.dropWhile isDigit)

/-- One number of a decimal address: at most 255, without a leading zero. -/
def skipOctet? (cs : List Char) : Option (List Char) := do
  let (digits, rest) ← skipNumber? 10 3 cs
  let value ← natural? 10 digits
  if 255 < value || (digits.head? == some '0' && 1 < digits.length) then none else pure rest

/-- A given character. -/
def skipChar? (c : Char) : List Char → Option (List Char)
  | d :: cs => if c = d then some cs else none
  | [] => none

/-- Four decimal numbers with points between them. -/
def skipDecimalAddress? (cs : List Char) : Option (List Char) := do
  let cs ← skipOctet? cs
  let cs ← skipOctet? (← skipChar? '.' cs)
  let cs ← skipOctet? (← skipChar? '.' cs)
  skipOctet? (← skipChar? '.' cs)

/-- The characters where the next group starts: a colon stands before every
group but the first. -/
def nextGroup? (first : Bool) (cs : List Char) : Option (List Char) :=
  if first then some cs else skipChar? ':' cs

/-- What a row of groups takes up. -/
structure Groups where
  /-- How many groups were recognised; a decimal address counts as two. -/
  count : Nat
  /-- Whether the row ends in a decimal address. -/
  decimal : Bool
  /-- The characters behind the row. -/
  rest : List Char

/-- The longest row of at most a number of groups, after some already read.  A
decimal address needs room for two. -/
def takeGroups (count : Nat) : Nat → List Char → Groups
  | 0, cs => ⟨count, false, cs⟩
  | room + 1, cs =>
    let start := nextGroup? (count == 0) cs
    match (if room = 0 then none else start.bind skipDecimalAddress?) with
    | some rest => ⟨count + 2, true, rest⟩
    | none =>
      match start.bind (skipNumber? 16 4) with
      | some (_, rest) => takeGroups (count + 1) room rest
      | none => ⟨count, false, cs⟩

/-- Whether a text is an address of eight groups. -/
def isAddress (cs : List Char) : Bool :=
  let head := takeGroups 0 8 cs
  if head.count = 8 then head.rest.isEmpty
  else if head.decimal then false
  else
    match (skipChar? ':' head.rest).bind (skipChar? ':') with
    | some cs => (takeGroups 0 (7 - head.count) cs).rest.isEmpty
    | none => false

end StateResolution.Identifier
