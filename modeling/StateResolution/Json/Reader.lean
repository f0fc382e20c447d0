import StateResolution.Json.Document

/-!
# Reading JSON text

The strict grammar: no leading zeros, no characters below U+0020 inside a
string, no text behind the value.  Spaces are the four that the grammar names.

A step of the reader takes what it reads off the front of the remaining
characters.  Nesting is the only recursion that the characters alone do not
bound by shape, so it runs under a bound that is twice their number.
-/

namespace StateResolution.Document

open Decimal (Numeral)
open Text (baseDigit?)

/-- The characters behind leading spaces. -/
def skipSpace (cs : List Char) : List Char :=
  cs.dropWhile fun c => c == ' ' || c == '\t' || c == '\n' || c == '\r'

/-- The values of leading decimal digits, and the characters behind them. -/
def takeDigits : List Char → List Nat × List Char
  | [] => ([], [])
  | c :: cs =>
    match baseDigit? 10 c with
    | some d =>
      let (ds, rest) := takeDigits cs
      (d :: ds, rest)
    | none => ([], c :: cs)

/-- The digits before the point: one zero, or a row that does not start with
one. -/
def takeWhole? (cs : List Char) : Option (List Nat × List Char) :=
  match takeDigits cs with
  | ([], _) => none
  | ([d], rest) => some ([d], rest)
  | (0 :: _, _) => none
  | (ds, rest) => some (ds, rest)

/-- The fraction, when a point comes next. -/
def takeFraction? : List Char → Option (Option (List Nat) × List Char)
  | '.' :: cs =>
    match takeDigits cs with
    | ([], _) => none
    | (ds, rest) => some (some ds, rest)
  | cs => some (none, cs)

/-- The sign of an exponent; it goes down after a minus sign. -/
def takeSign : List Char → Bool × List Char
  | '-' :: cs => (true, cs)
  | '+' :: cs => (false, cs)
  | cs => (false, cs)

/-- The exponent, when its mark comes next. -/
def takePower? : List Char → Option (Option (Bool × List Nat) × List Char)
  | c :: cs =>
    if c = 'e' ∨ c = 'E' then
      let (down, cs) := takeSign cs
      match takeDigits cs with
      | ([], _) => none
      | (ds, rest) => some (some (down, ds), rest)
    else some (none, c :: cs)
  | [] => some (none, [])

/-- A numeral behind its sign. -/
def takeNumeral? (negative : Bool) (cs : List Char) : Option (Numeral × List Char) := do
  let (whole, cs) ← takeWhole? cs
  let (fraction, cs) ← takeFraction? cs
  let (power, cs) ← takePower? cs
  pure (⟨negative, whole, fraction, power⟩, cs)

/-- The part of a string that has been read. -/
structure Scanned where
  /-- The characters so far, last first. -/
  chars : List Char := []
  /-- Half of a surrogate pair has been seen alone. -/
  broken : Bool := false
  /-- The first half of a pair that may still be completed. -/
  half : Option Nat := none

namespace Scanned

/-- Nothing can complete a waiting half any more. -/
def settle (s : Scanned) : Scanned := ⟨s.chars, s.broken || s.half.isSome, none⟩

/-- One more character. -/
def push (s : Scanned) (c : Char) : Scanned := ⟨c :: s.settle.chars, s.settle.broken, none⟩

/-- One more escaped unit of sixteen bits. -/
def pushUnit (s : Scanned) (unit : Nat) : Scanned :=
  if 0xDC00 ≤ unit ∧ unit < 0xE000 then
    match s.half with
    | some high =>
      ⟨Char.ofNat (0x10000 + (high - 0xD800) * 0x400 + (unit - 0xDC00)) :: s.chars, s.broken, none⟩
    | none => ⟨s.chars, true, none⟩
  else if 0xD800 ≤ unit ∧ unit < 0xDC00 then ⟨s.settle.chars, s.settle.broken, some unit⟩
  else s.push (Char.ofNat unit)

/-- The text, unless it is broken. -/
def text? (s : Scanned) : Option String :=
  if s.settle.broken then none else some (String.ofList s.settle.chars.reverse)

end Scanned

/-- The character that a simple escape stands for. -/
def simpleEscape? : Char → Option Char
  | '"' => some '"'
  | '\\' => some '\\'
  | '/' => some '/'
  | 'b' => some '\x08'
  | 'f' => some '\x0c'
  | 'n' => some '\n'
  | 'r' => some '\r'
  | 't' => some '\t'
  | _ => none

/-- A string behind its opening quote. -/
def takeString? (s : Scanned) : List Char → Option (Option String × List Char)
  | [] => none
  | '"' :: cs => some (s.text?, cs)
  | '\\' :: 'u' :: a :: b :: c :: d :: cs =>
    match Text.natural? 16 [a, b, c, d] with
    | some unit => takeString? (s.pushUnit unit) cs
    | none => none
  | '\\' :: c :: cs =>
    match simpleEscape? c with
    | some e => takeString? (s.push e) cs
    | none => none
  | c :: cs => if c.toNat < 0x20 || c = '\\' then none else takeString? (s.push c) cs

/-- A word of the grammar at the front of the characters. -/
def takeWord? (word : List Char) (cs : List Char) : Option (List Char) :=
  if word.isPrefixOf cs then some (cs.drop word.length) else none

mutual

/-- A value at the front of the characters. -/
def takeValue? : Nat → List Char → Option (Document × List Char)
  | 0, _ => none
  | fuel + 1, cs =>
    match skipSpace cs with
    | '\x7b' :: cs =>
      match skipSpace cs with
      | '\x7d' :: cs => some (object [], cs)
      | cs => takeMembers? fuel [] cs
    | '[' :: cs =>
      match skipSpace cs with
      | ']' :: cs => some (array [], cs)
      | cs => takeItems? fuel [] cs
    | '"' :: cs => (takeString? {} cs).map fun (s, cs) => (string s, cs)
    | '-' :: cs => (takeNumeral? true cs).map fun (n, cs) => (number n.value?, cs)
    | 't' :: cs => (takeWord? ['r', 'u', 'e'] cs).map fun cs => (bool true, cs)
    | 'f' :: cs => (takeWord? ['a', 'l', 's', 'e'] cs).map fun cs => (bool false, cs)
    | 'n' :: cs => (takeWord? ['u', 'l', 'l'] cs).map fun cs => (null, cs)
    | cs => (takeNumeral? false cs).map fun (n, cs) => (number n.value?, cs)

/-- The items of a list, the first of them next; those already read are last
first. -/
def takeItems? : Nat → List Document → List Char → Option (Document × List Char)
  | 0, _, _ => none
  | fuel + 1, items, cs =>
    match takeValue? fuel cs with
    | none => none
    | some (d, cs) =>
      match skipSpace cs with
      | ',' :: cs => takeItems? fuel (d :: items) cs
      | ']' :: cs => some (array (d :: items).reverse, cs)
      | _ => none

/-- The members of an object, the first of them next; those already read are
last first. -/
def takeMembers? : Nat → List (Option String × Document) → List Char → Option (Document × List Char)
  | 0, _, _ => none
  | fuel + 1, members, cs =>
    match skipSpace cs with
    | '"' :: cs =>
      match takeString? {} cs with
      | none => none
      | some (name, cs) =>
        match skipSpace cs with
        | ':' :: cs =>
          match takeValue? fuel cs with
          | none => none
          | some (d, cs) =>
            match skipSpace cs with
            | ',' :: cs => takeMembers? fuel ((name, d) :: members) cs
            | '\x7d' :: cs => some (object ((name, d) :: members).reverse, cs)
            | _ => none
        | _ => none
    | _ => none

end

/-- The document a text holds, with nothing but spaces around it. -/
def ofText? (text : String) : Option Document :=
  let cs := text.toList
  match takeValue? (2 * cs.length + 2) cs with
  | some (d, rest) => if (skipSpace rest).isEmpty then some d else none
  | none => none

end StateResolution.Document
