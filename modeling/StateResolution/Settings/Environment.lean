import StateResolution.Configuration
import StateResolution.Settings.Layer
import StateResolution.Text.BasicString
import StateResolution.Text.Blank

/-!
# Settings from environment variables

A variable with the tool's name in front sets the setting that the rest of its
name spells, in any case.  Dots lead into objects.  The limits of the resolver
may be named without the object they stand in.

The value is read as a list between brackets, an object between braces, a
string between double quotes, a character between single quotes, or a bare word.
A bare word may be a truth value or a number.  What cannot be read in this way
to its end is a string as it stands.

A string with an escape keeps less than what stands before the first escape: as
many bytes as that has characters.  Where this cuts a character in two, no
settings can be read at all.
-/

namespace StateResolution.Environment

open Text (takeBasicString?)

/-! ## Values -/

/-- The characters behind leading ASCII white space. -/
def skipSpace (cs : List Char) : List Char := cs.dropWhile fun c => c.isWhitespace || c == '\x0c'

/-- A character that ends no bare word. -/
def isBare (c : Char) : Bool :=
  c ≠ ',' && c ≠ '\x7b' && c ≠ '\x7d' && c ≠ '[' && c ≠ ']'

/-- A character of a name inside braces. -/
def isNameChar (c : Char) : Bool := c.isAlphanum || c == '_' || c == '-'

/-- Characters without a leading sign. -/
def withoutSign : List Char → List Char
  | '+' :: cs => cs
  | '-' :: cs => cs
  | cs => cs

/-- Whether characters are an exponent, or nothing. -/
def isPower : List Char → Bool
  | [] => true
  | c :: cs => (c == 'e' || c == 'E') && (Text.natural? 10 (withoutSign cs)).isSome

/-- Whether a word is a number with a decimal point; digits may be missing on
one side of it. -/
def isPointed (cs : List Char) : Bool :=
  let (whole, rest) := (withoutSign cs).span Char.isDigit
  match rest with
  | '.' :: rest =>
    let (fraction, rest) := rest.span Char.isDigit
    !(whole.isEmpty && fraction.isEmpty) && isPower rest
  | _ => false

/-- The value of a bare word.  A number with a point is of no use in any
setting, so its value is not kept. -/
def word (cs : List Char) : Document :=
  if isPointed cs then .number none
  else
    match Text.unsigned? Text.maxUnsigned cs, Text.signed? cs with
    | some n, _ => .number (some (.integer n))
    | none, some n => .number (some (.integer n))
    | none, none => .string (some (String.ofList cs))

/-! ## Strings -/

/-- Why nothing is taken from the characters. -/
inductive Stop
  /-- They do not go on as they should. -/
  | unreadable
  /-- A string is cut inside a character. -/
  | cut (text : String)
deriving DecidableEq

/-- What was taken, if anything. -/
def orUnreadable {α : Type} : Option α → Except Stop α
  | some taken => .ok taken
  | none => .error .unreadable

/-- What stands before the closing quote of a string; a character behind a
backslash closes none. -/
def inside? : List Char → Option (List Char)
  | [] => none
  | '"' :: _ => some []
  | '\\' :: c :: cs => (inside? cs).map fun inner => '\\' :: c :: inner
  | c :: cs => (inside? cs).map (c :: ·)

/-- The characters at the front that take a number of bytes; nothing when the
number ends inside a character. -/
def frontOfSize? : Nat → List Char → Option (List Char)
  | 0, _ => some []
  | _, [] => some []
  | size, c :: cs =>
    if c.utf8Size ≤ size then (frontOfSize? (size - c.utf8Size) cs).map (c :: ·) else none

/-- A string behind its opening quote. -/
def takeString (cs : List Char) : Except Stop (String × List Char) :=
  let (front, rest) := cs.span fun c => c ≠ '"' && c ≠ '\\'
  match inside? cs with
  | none => .error .unreadable
  | some inner =>
    if !front.all Text.isOnLine then .error .unreadable
    else if rest.head? = some '"' then .ok (String.ofList front, rest.drop 1)
    else
      match frontOfSize? front.length front with
      | some kept => orUnreadable (takeBasicString? kept.reverse rest)
      | none => .error (.cut (String.ofList inner))

/-! ## Lists and objects -/

/-- A name inside braces, with the space around it. -/
def takeName (cs : List Char) : Except Stop (String × List Char) := do
  let (name, cs) ← match skipSpace cs with
    | '"' :: cs => takeString cs
    | cs =>
      let (name, rest) := cs.span isNameChar
      if name.isEmpty then .error .unreadable else .ok (String.ofList name, rest)
  pure (name, skipSpace cs)

mutual

/-- A value at the front of the characters, with the space around it. -/
def takeValue : Nat → List Char → Except Stop (Document × List Char)
  | 0, _ => .error .unreadable
  | fuel + 1, cs => do
    let (d, cs) ← match skipSpace cs with
      | 't' :: 'r' :: 'u' :: 'e' :: cs => .ok (.bool true, cs)
      | 'f' :: 'a' :: 'l' :: 's' :: 'e' :: cs => .ok (.bool false, cs)
      | '\x7b' :: cs => takeMembers fuel [] cs
      | '[' :: cs => takeItems fuel [] cs
      | '"' :: cs => (takeString cs).map fun (s, cs) => (.string (some s), cs)
      | '\'' :: c :: '\'' :: cs => .ok (.string (some (String.singleton c)), cs)
      | '\'' :: _ => .error .unreadable
      | cs => .ok (word (Text.trim (cs.takeWhile isBare)), cs.dropWhile isBare)
    pure (d, skipSpace cs)

/-- The rest of a list; the items already read are last first. -/
def takeItems : Nat → List Document → List Char → Except Stop (Document × List Char)
  | 0, _, _ => .error .unreadable
  | _, items, ']' :: cs => .ok (.array items.reverse, cs)
  | fuel + 1, items, cs => do
    match ← takeValue fuel cs with
    | (d, ',' :: cs) => takeItems fuel (d :: items) cs
    | (d, ']' :: cs) => pure (.array (d :: items).reverse, cs)
    | _ => .error .unreadable

/-- The rest of an object; the members already read are last first. -/
def takeMembers :
    Nat → List (Option String × Document) → List Char → Except Stop (Document × List Char)
  | 0, _, _ => .error .unreadable
  | _, members, '\x7d' :: cs => .ok (.object members.reverse, cs)
  | fuel + 1, members, cs => do
    match ← takeName cs with
    | (name, '=' :: cs) =>
      match ← takeValue fuel cs with
      | (d, ',' :: cs) => takeMembers fuel ((some name, d) :: members) cs
      | (d, '\x7d' :: cs) => pure (.object ((some name, d) :: members).reverse, cs)
      | _ => .error .unreadable
    | _ => .error .unreadable

end

/-- The value that the text of a variable stands for. -/
def value (text : String) : Except ConfigFault Document :=
  let cs := text.toList
  match takeValue (2 * cs.length + 2) cs with
  | .ok (d, []) => .ok d
  | .error (.cut inner) => .error (.cutString inner)
  | _ => .ok (.string (some text))

/-! ## Names -/

/-- What a name starts with that sets a setting. -/
def namePrefix : String := "MATRIXON_STATERES_"

/-- The object that the limits of the resolver stand in. -/
def limitsName : String := "state_res"

/-- ASCII letters in lower case. -/
def lower (cs : List Char) : List Char := cs.map Char.toLower

/-- The names that lead to the setting that a variable sets.  Blanks around a
name do not count.  A name with an empty part sets nothing. -/
def path? (name : String) : Option (List String) :=
  let (front, key) := (Text.trim name.toList).splitAt namePrefix.length
  if lower front ≠ lower namePrefix.toList then none
  else if Configuration.settingNames.contains (String.ofList (lower key)) then
    some [limitsName, String.ofList (lower key)]
  else
    let path := (String.ofList (lower (Text.trim key))).splitOn "."
    if path.contains "" then none else some path

/-- The settings of some variables; of two that set one setting the later
counts. -/
def layer (environment : List (String × String)) : Except ConfigFault Document := do
  let layers ← environment.mapM fun (name, text) =>
    match path? name with
    | some path => (value text).map (.under path)
    | none => .ok .noMembers
  pure (.ofLayers layers)

end StateResolution.Environment
