import StateResolution.Settings.Layer
import StateResolution.Text.BasicString

/-!
# TOML settings files

A line of a settings file is blank, names the table that the next lines fill,
or gives a key a value.  A comment may end any line.  A value is a string, an
integer, another number or a truth value; lists, tables on one line, dates and
strings over several lines have no place among settings.

No place is filled twice.  A table has one heading at most, a heading cannot
reopen a table that dotted keys made, and dotted keys reach into no table that
a heading made.
-/

namespace StateResolution.Toml

open Text (isOnLine takeBasicString?)

/-- What a line says. -/
inductive Statement
  /-- The next entries go into this table. -/
  | heading (path : List String)
  /-- A key below the current table has a value. -/
  | entry (path : List String) (value : Document)

/-! ## Values -/

/-- The characters behind leading spaces and tabs. -/
def skipBlank (cs : List Char) : List Char := cs.dropWhile fun c => c == ' ' || c == '\t'

/-- Digits without the underscores that group them; one stands between two
digits. -/
def ungroup? : List Char → Option (List Char)
  | [] => some []
  | [c] => if c = '_' then none else some [c]
  | c :: d :: cs =>
    if c ≠ '_' then (ungroup? (d :: cs)).map (c :: ·)
    else if d ≠ '_' then ungroup? (d :: cs)
    else none

/-- A row of digits in a base, grouped or not. -/
def row? (base : Nat) (cs : List Char) : Option Nat :=
  if cs.head? = some '_' then none else (ungroup? cs).bind (Text.natural? base)

/-- A row of decimal digits that starts with a zero only when that is all. -/
def whole? (cs : List Char) : Option Nat :=
  if cs.head? = some '0' ∧ cs ≠ ['0'] then none else row? 10 cs

/-- An integer; only a decimal one may have a sign. -/
def integer? : List Char → Option Int
  | '0' :: 'x' :: cs => (row? 16 cs).map Int.ofNat
  | '0' :: 'o' :: cs => (row? 8 cs).map Int.ofNat
  | '0' :: 'b' :: cs => (row? 2 cs).map Int.ofNat
  | '+' :: cs => (whole? cs).map Int.ofNat
  | '-' :: cs => (whole? cs).map fun n => -Int.ofNat n
  | cs => (whole? cs).map Int.ofNat

/-- Characters without a leading sign. -/
def unsigned : List Char → List Char
  | '+' :: cs => cs
  | '-' :: cs => cs
  | cs => cs

/-- Whether an exponent ends a number. -/
def isPower : List Char → Bool
  | c :: cs => (c == 'e' || c == 'E') && (row? 10 (unsigned cs)).isSome
  | [] => false

/-- Whether a fraction, and perhaps an exponent, ends a number. -/
def isFraction : List Char → Bool
  | '.' :: cs =>
    let (digits, rest) := cs.span fun c => c.isDigit || c == '_'
    (row? 10 digits).isSome && (rest.isEmpty || isPower rest)
  | _ => false

/-- Whether characters write a number that is no integer. -/
def isFloat (cs : List Char) : Bool :=
  let (digits, rest) := (unsigned cs).span fun c => c.isDigit || c == '_'
  unsigned cs = ['i', 'n', 'f'] || unsigned cs = ['n', 'a', 'n']
    || ((whole? digits).isSome && (isFraction rest || isPower rest))

/-- The value of a word without quotes.  A number that is no integer is of no
use in any setting, so its value is not kept. -/
def word? (cs : List Char) : Option Document :=
  if cs = ['t', 'r', 'u', 'e'] then some (.bool true)
  else if cs = ['f', 'a', 'l', 's', 'e'] then some (.bool false)
  else if isFloat cs then some (.number none)
  else ((integer? cs).filter Text.fitsSigned).map fun n => .number (some (.integer n))

/-- A string between single quotes, behind the first: nothing is escaped. -/
def takeLiteral? (cs : List Char) : Option (String × List Char) :=
  let (inner, rest) := cs.span (· ≠ '\'')
  match rest with
  | _ :: rest => if inner.all isOnLine then some (String.ofList inner, rest) else none
  | [] => none

/-- A character of a word without quotes. -/
def isWordChar (c : Char) : Bool := c.isAlphanum || c == '_' || c == '-' || c == '+' || c == '.'

/-- A value at the front of the characters. -/
def takeValue? : List Char → Option (Document × List Char)
  | '"' :: cs => (takeBasicString? [] cs).map fun (s, cs) => (.string (some s), cs)
  | '\'' :: cs => (takeLiteral? cs).map fun (s, cs) => (.string (some s), cs)
  | cs => (word? (cs.takeWhile isWordChar)).map fun d => (d, cs.dropWhile isWordChar)

/-! ## Keys -/

/-- A character of a key without quotes. -/
def isKeyChar (c : Char) : Bool := c.isAlphanum || c == '_' || c == '-'

/-- One part of a key. -/
def takeKeyPart? : List Char → Option (String × List Char)
  | '"' :: cs => takeBasicString? [] cs
  | '\'' :: cs => takeLiteral? cs
  | cs =>
    let (word, rest) := cs.span isKeyChar
    if word.isEmpty then none else some (String.ofList word, rest)

/-- How many parts a key may have. -/
def maxKeyParts : Nat := 79

/-- At most a number of parts of a key with dots between them, and what follows
behind blanks. -/
def takeKey? : Nat → List Char → Option (List String × List Char)
  | 0, _ => none
  | most + 1, cs => do
    let (part, cs) ← takeKeyPart? (skipBlank cs)
    match skipBlank cs with
    | '.' :: cs => do
      let (parts, cs) ← takeKey? most cs
      pure (part :: parts, cs)
    | cs => pure ([part], cs)

/-! ## Lines -/

/-- Whether only blanks and a comment are left of a line. -/
def isEnd (cs : List Char) : Bool :=
  match skipBlank cs with
  | [] => true
  | '#' :: cs => cs.all isOnLine
  | _ => false

/-- A heading behind its opening bracket. -/
def heading? (cs : List Char) : Option Statement := do
  match ← takeKey? maxKeyParts cs with
  | (path, ']' :: cs) => if isEnd cs then some (.heading path) else none
  | _ => none

/-- A key with its value. -/
def assignment? (cs : List Char) : Option Statement := do
  match ← takeKey? maxKeyParts cs with
  | (path, '=' :: cs) => do
    let (value, cs) ← takeValue? (skipBlank cs)
    if isEnd cs then some (.entry path value) else none
  | _ => none

/-- What a line says, which may be nothing. -/
def line? (cs : List Char) : Option (List Statement) :=
  if isEnd cs then some []
  else
    match skipBlank cs with
    | '[' :: cs => (heading? cs).map ([·])
    | cs => (assignment? cs).map ([·])

/-- What the lines of a text say; a byte order mark may lead. -/
def statements? (text : String) : Option (List Statement) := do
  let lines := (text.replace "\r\n" "\n").splitOn "\n"
  let chars := match lines.map String.toList with
    | ('\ufeff' :: first) :: rest => first :: rest
    | lines => lines
  let said ← chars.mapM line?
  pure said.flatten

/-! ## Places -/

/-- What stands at a place. -/
inductive Place
  | value
  /-- A table with a heading. -/
  | headed
  /-- A table without a heading, above one that has a heading. -/
  | implied
  /-- A table that dotted keys made. -/
  | dotted
deriving DecidableEq

/-- What the lines so far have said. -/
structure Outline where
  /-- What stands where, the latest first. -/
  places : List (List String × Place) := []
  current : List String := []
  settings : Document := Document.noMembers

namespace Outline

/-- What stands at a place. -/
def at? (o : Outline) (path : List String) : Option Place := o.places.lookup path

/-- Something new, or something else than before, at a place. -/
def put (o : Outline) (path : List String) (p : Place) : Outline :=
  { o with places := (path, p) :: o.places }

/-- The tables above a heading; those that are not there yet are implied. -/
def climb? (o : Outline) (path : List String) : Option Outline :=
  match o.at? path with
  | none => some (o.put path .implied)
  | some .value => none
  | some _ => some o

/-- The tables that a dotted key goes through; those that are not there yet are
made. -/
def descend? (o : Outline) (path : List String) : Option Outline :=
  match o.at? path with
  | none => some (o.put path .dotted)
  | some .value => none
  | some .headed => none
  | some _ => some o

/-- The settings so far with a value or table laid over them. -/
def lay (o : Outline) (path : List String) (d : Document) : Outline :=
  { o with settings := o.settings.overlay (.under path d) }

/-- The proper beginnings of a path, behind a place, the shortest first. -/
def beginnings (above path : List String) : List (List String) :=
  ((List.range path.length).drop 1).map fun n => above ++ path.take n

/-- A further statement, unless it fills a place again. -/
def add? (o : Outline) : Statement → Option Outline
  | .heading path => do
    let o ← (beginnings [] path).foldlM climb? o
    match o.at? path with
    | none | some .implied =>
      some { (o.put path .headed).lay path Document.noMembers with current := path }
    | some _ => none
  | .entry path value => do
    let above := beginnings o.current path
    let full := o.current ++ path
    let o ← above.foldlM descend? o
    -- A dotted key adds only to a table that dotted keys made.
    let isOpen := match above.getLast? with
      | some table => o.at? table == some .dotted
      | none => true
    if isOpen && (o.at? full).isNone then some ((o.put full .value).lay full value) else none

end Outline

/-- The settings that a text holds. -/
def read? (text : String) : Option Document := do
  let outline ← (← statements? text).foldlM Outline.add? {}
  pure outline.settings

end StateResolution.Toml
