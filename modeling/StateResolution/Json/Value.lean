import StateResolution.Decimal.Numeral
import StateResolution.SortedMap

/-!
# JSON values

Event content is JSON of any shape.  An object is kept as its members in the
order they were written; reading a member goes through `Json.members?`, where
of two members with one name the last counts.  `Json.canonical` sorts the
members of every object and keeps the last of each name, and a value that was
read from a text is in that form.
-/

namespace StateResolution

open Decimal (Number)

/-- A JSON value. -/
inductive Json
  /-- The null value. -/
  | null
  /-- A truth value. -/
  | bool (value : Bool)
  /-- A number. -/
  | number (value : Number)
  /-- A string. -/
  | string (value : String)
  /-- A list of values. -/
  | array (items : List Json)
  /-- Named values in the order they were written. -/
  | object (members : List (String × Json))

namespace Json

instance : Inhabited Json := ⟨null⟩

/-- An integer as a value. -/
def integer (n : Int) : Json := number (.integer n)

/-- The members of an object by name. -/
def members? : Json → Option (SortedMap String Json)
  | object members => some (SortedMap.ofList members)
  | _ => none

/-- The member of an object with a name; nothing for any other value. -/
def field? (j : Json) (name : String) : Option Json := j.members?.bind (·.get? name)

/-- The items of a list. -/
def items? : Json → Option (List Json)
  | array items => some items
  | _ => none

/-- The text of a string. -/
def string? : Json → Option String
  | string s => some s
  | _ => none

/-- The truth of a truth value. -/
def bool? : Json → Option Bool
  | bool b => some b
  | _ => none

/-- The text of a string member. -/
def stringField? (j : Json) (name : String) : Option String := (j.field? name).bind string?

mutual

/-- The same value with the members of every object sorted by name, the last of
each name kept. -/
def canonical : Json → Json
  | array items => array (canonicalItems items)
  | object members => object (SortedMap.ofList (canonicalMembers members)).toList
  | null => null
  | bool b => bool b
  | number n => number n
  | string s => string s

/-- Every item of a list in canonical form. -/
def canonicalItems : List Json → List Json
  | [] => []
  | j :: rest => j.canonical :: canonicalItems rest

/-- Every member of an object in canonical form. -/
def canonicalMembers : List (String × Json) → List (String × Json)
  | [] => []
  | (name, j) :: rest => (name, j.canonical) :: canonicalMembers rest

end

end Json

end StateResolution
