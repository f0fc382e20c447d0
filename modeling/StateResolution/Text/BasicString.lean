import StateResolution.Text.Integer

/-!
# Basic strings

Strings between double quotes as they stand in settings: the usual escapes of
one letter, `\u` with four digits and `\U` with eight.  No control character
but the tab may stand in one, so a string never leaves its line.
-/

namespace StateResolution.Text

/-- The character with a number, unless the number is a surrogate or too large. -/
def scalar? (n : Nat) : Option Char :=
  if n < 0xD800 ∨ (0xDFFF < n ∧ n < 0x110000) then some (Char.ofNat n) else none

/-- The character that a one-letter escape stands for. -/
def letterEscape? : Char → Option Char
  | '"' => some '"'
  | '\\' => some '\\'
  | 'b' => some '\x08'
  | 't' => some '\t'
  | 'n' => some '\n'
  | 'f' => some '\x0c'
  | 'r' => some '\r'
  | _ => none

/-- A character that may stand on a line of settings. -/
def isOnLine (c : Char) : Bool := c == '\t' || (0x20 ≤ c.toNat && c.toNat ≠ 0x7F)

/-- A string behind its opening quote; what has been read of it is last first. -/
def takeBasicString? (read : List Char) : List Char → Option (String × List Char)
  | [] => none
  | '"' :: cs => some (String.ofList read.reverse, cs)
  | '\\' :: 'u' :: a :: b :: c :: d :: cs =>
    match (natural? 16 [a, b, c, d]).bind scalar? with
    | some e => takeBasicString? (e :: read) cs
    | none => none
  | '\\' :: 'U' :: a :: b :: c :: d :: e :: f :: g :: h :: cs =>
    match (natural? 16 [a, b, c, d, e, f, g, h]).bind scalar? with
    | some e => takeBasicString? (e :: read) cs
    | none => none
  | '\\' :: c :: cs =>
    match letterEscape? c with
    | some e => takeBasicString? (e :: read) cs
    | none => none
  | c :: cs => if c ≠ '\\' ∧ isOnLine c then takeBasicString? (c :: read) cs else none

end StateResolution.Text
