import StateResolution.Json.Document

/-!
# Layers of settings

Settings are documents: objects that hold values by name, and objects in them.
They come in layers.  A later layer is laid over an earlier one.  Where both
hold an object, the members of the two are joined, and anywhere else the later
value replaces the earlier one as a whole.
-/

namespace StateResolution.Document

/-- The empty object. -/
def noMembers : Document := object []

/-- A document inside one object for each name of a path. -/
def under : List String → Document → Document
  | [], d => d
  | name :: path, d => object [(some name, under path d)]

/-- The value that members hold under a name. -/
def memberNamed? (name : Option String) (members : List (Option String × Document)) :
    Option Document :=
  (members.find? (·.1 == name)).map Prod.snd

mutual

/-- A document with another laid over it. -/
def overlay (base : Document) : Document → Document
  | object members =>
    match base with
    | object old => object (overlayMembers old members)
    | _ => object (overlayMembers [] members)
  | array items => array items
  | null => null
  | bool b => bool b
  | number n => number n
  | string s => string s

/-- Members with others laid over them, one after the other. -/
def overlayMembers (old : List (Option String × Document)) :
    List (Option String × Document) → List (Option String × Document)
  | [] => old
  | (name, d) :: rest =>
    let laid := overlay ((memberNamed? name old).getD null) d
    overlayMembers ((name, laid) :: old.filter (·.1 != name)) rest

end

/-- Layers over one another, the first at the bottom. -/
def ofLayers (layers : List Document) : Document := layers.foldl overlay noMembers

end StateResolution.Document
