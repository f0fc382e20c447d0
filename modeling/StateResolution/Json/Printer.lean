import StateResolution.Decimal.Shortest
import StateResolution.Json.Value
import StateResolution.Text.Integer

/-!
# Writing JSON

Two forms of one value: compact, without any space, and indented by two spaces
a level.  Members stand in the order the value holds them.  A string escapes
the quote, the backslash and the first 32 characters, and nothing else.
-/

namespace StateResolution.Json

open Decimal (Number)
open Text (hexDigit)

/-- One character of a string. -/
def escaped (c : Char) : List Char :=
  if c = '"' then ['\\', '"']
  else if c = '\\' then ['\\', '\\']
  else if c.toNat < 0x20 then
    match c.toNat with
    | 0x08 => ['\\', 'b']
    | 0x09 => ['\\', 't']
    | 0x0A => ['\\', 'n']
    | 0x0C => ['\\', 'f']
    | 0x0D => ['\\', 'r']
    | n => ['\\', 'u', '0', '0', hexDigit (n / 16), hexDigit n]
  else [c]

/-- A string between quotes. -/
def stringText (s : String) : String :=
  String.ofList ('"' :: s.toList.flatMap escaped ++ ['"'])

/-- The text of a number. -/
def numberText : Number → String
  | .integer n => toString n
  | .float x => x.text

mutual

/-- The value without spaces. -/
def compact : Json → String
  | null => "null"
  | bool true => "true"
  | bool false => "false"
  | number n => numberText n
  | string s => stringText s
  | array items => "[" ++ String.intercalate "," (compactItems items) ++ "]"
  | object members => "\x7b" ++ String.intercalate "," (compactMembers members) ++ "\x7d"

/-- The items of a list without spaces. -/
def compactItems : List Json → List String
  | [] => []
  | j :: rest => j.compact :: compactItems rest

/-- The members of an object without spaces. -/
def compactMembers : List (String × Json) → List String
  | [] => []
  | (name, j) :: rest => (stringText name ++ ":" ++ j.compact) :: compactMembers rest

end

/-- Lines put between brackets, each one level deeper; nothing stands between
the brackets of an empty value. -/
def block (opening closing : String) (depth : Nat) (lines : List String) : String :=
  if lines.isEmpty then opening ++ closing
  else
    let margin := "\n" ++ String.ofList (List.replicate (2 * depth) ' ')
    let inner := margin ++ "  "
    opening ++ inner ++ String.intercalate ("," ++ inner) lines ++ margin ++ closing

mutual

/-- The value over several lines, at a depth of indentation. -/
def indented (depth : Nat) : Json → String
  | array items => block "[" "]" depth (indentedItems (depth + 1) items)
  | object members => block "\x7b" "\x7d" depth (indentedMembers (depth + 1) members)
  | null => "null"
  | bool true => "true"
  | bool false => "false"
  | number n => numberText n
  | string s => stringText s

/-- The items of a list, each over several lines. -/
def indentedItems (depth : Nat) : List Json → List String
  | [] => []
  | j :: rest => j.indented depth :: indentedItems depth rest

/-- The members of an object, each over several lines. -/
def indentedMembers (depth : Nat) : List (String × Json) → List String
  | [] => []
  | (name, j) :: rest => (stringText name ++ ": " ++ j.indented depth) :: indentedMembers depth rest

end

/-- The value over several lines, without a final line end. -/
def pretty (j : Json) : String := j.indented 0

end StateResolution.Json
