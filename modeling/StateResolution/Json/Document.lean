import StateResolution.Json.Value

/-!
# JSON documents

What a JSON text says before anybody asks for a value: members in their order
with repetitions, numbers that may be too large, strings that may hold half of a
surrogate pair.  A reader of a record judges only the fields it knows, so a
fault inside an unknown field is no fault of the record.

The nesting of the part that is read as a value is bounded.  The bound counts
from the root of the text, so a reader says how many levels are left where it
stands.

An object may stand for the value of a text that a string in it holds.  Its
first member says so by its name, and must be its only one.
-/

namespace StateResolution

open Decimal (Number)

/-- The content of a JSON text. -/
inductive Document
  /-- The null value. -/
  | null
  /-- A truth value. -/
  | bool (value : Bool)
  /-- A number; nothing when it is too large for a float. -/
  | number (value : Option Number)
  /-- A string; nothing when half of a surrogate pair stands in it alone. -/
  | string (value : Option String)
  /-- A list. -/
  | array (items : List Document)
  /-- Members as they were written. -/
  | object (members : List (Option String × Document))

namespace Document

/-- How many levels of lists and objects a text may nest where it is read. -/
def maxLevels : Nat := 127

/-- The name that the written form of values gives to the one member of an object
that stands for the value of a text. -/
def embeddedName : String := "$serde_json::private::RawValue"

/-- Whether members start with the mark of an embedded text. -/
def isEmbedding : List (Option String × Document) → Bool
  | (name, _) :: _ => name == some embeddedName
  | [] => false

/-- The text of the only member. -/
def onlyText? : List (Option String × Document) → Option String
  | [(_, string text)] => text
  | _ => none

mutual

/-- The value of a document that nests at most a number of levels, where `read`
gives the value of an embedded text. -/
def toJsonWith? (read : String → Option Json) : Nat → Document → Option Json
  | _, null => some .null
  | _, bool b => some (.bool b)
  | _, number n => n.map .number
  | _, string s => s.map .string
  | 0, array _ => none
  | n + 1, array items => (toItems? read n items).map .array
  | 0, object _ => none
  | n + 1, object members =>
    if isEmbedding members then (onlyText? members).bind read
    else (toMembers? read n members).map fun ms => .object (SortedMap.ofList ms).toList

/-- The values of a list of documents. -/
def toItems? (read : String → Option Json) : Nat → List Document → Option (List Json)
  | _, [] => some []
  | n, d :: rest => do
    let j ← toJsonWith? read n d
    let js ← toItems? read n rest
    pure (j :: js)

/-- The values of the members of an object. -/
def toMembers? (read : String → Option Json) :
    Nat → List (Option String × Document) → Option (List (String × Json))
  | _, [] => some []
  | n, (name, d) :: rest => do
    let name ← name
    let j ← toJsonWith? read n d
    let js ← toMembers? read n rest
    pure ((name, j) :: js)

end

mutual

/-- The document that says what a value says. -/
def ofJson : Json → Document
  | .null => null
  | .bool b => bool b
  | .number n => number (some n)
  | .string s => string (some s)
  | .array items => array (ofItems items)
  | .object members => object (ofMembers members)

/-- The documents of a list of values. -/
def ofItems : List Json → List Document
  | [] => []
  | j :: rest => ofJson j :: ofItems rest

/-- The members that say what named values say. -/
def ofMembers : List (String × Json) → List (Option String × Document)
  | [] => []
  | (name, j) :: rest => (some name, ofJson j) :: ofMembers rest

end

/-- The last member of an object with a name. -/
def field? (name : String) : Document → Option Document
  | object members => (members.reverse.find? (·.1 == some name)).map Prod.snd
  | _ => none

/-- The text of a string. -/
def string? : Document → Option String
  | string s => s
  | _ => none

/-- An integer that fits an unsigned 64-bit word. -/
def unsigned? : Document → Option Nat
  | number (some (.integer n)) => if 0 ≤ n ∧ n ≤ Text.maxUnsigned then some n.natAbs else none
  | _ => none

/-- An integer that fits a signed 64-bit word. -/
def signed? : Document → Option Int
  | number (some (.integer n)) => if Text.fitsSigned n then some n else none
  | _ => none

/-- The items of a list. -/
def items? : Document → Option (List Document)
  | array items => some items
  | _ => none

/-- The known fields among the members of an object: nothing when a name is
broken or a known one is repeated. -/
def knownFields? (names : List String) :
    SortedMap String Document → List (Option String × Document) → Option (SortedMap String Document)
  | fields, [] => some fields
  | _, (none, _) :: _ => none
  | fields, (some name, d) :: rest =>
    if !names.contains name then knownFields? names fields rest
    else if fields.contains name then none
    else knownFields? names (fields.insert name d) rest

/-- The fields of a record with a fixed list of names.  An object gives them by
name and may hold others; a list gives them in order and may stop early. -/
def record? (names : List String) : Document → Option (SortedMap String Document)
  | object members => knownFields? names .empty members
  | array items =>
    if items.length ≤ names.length then some (SortedMap.ofList (names.zip items)) else none
  | _ => none

end Document

end StateResolution
