/-!
# Files

What the tool finds under the paths it is given.

A path is walked part by part, and each part but the last must lead to a
directory, also before a part that leads back.  An empty part and `.` stay, and
`..` goes up.  Nothing is known of what lies above the folder.
-/

namespace StateResolution.CommandLine

/-- What is found under a path. -/
inductive FileEntry
  | text (content : String)
  | directory
  | absent
  /-- Nothing, since a part of the path is a file. -/
  | throughFile
  /-- Nothing, since no path or name may be so long. -/
  | tooLong
  /-- Something that cannot be read, for a reason. -/
  | unreadable (reason : String)
deriving DecidableEq

/-- What is found under every path. -/
abbrev Folder := String → FileEntry

namespace FileEntry

/-- The text of a file, or why there is none. -/
def content : FileEntry → Except String String
  | text content => .ok content
  | directory => .error "Is a directory (os error 21)"
  | absent => .error "No such file or directory (os error 2)"
  | throughFile => .error "Not a directory (os error 20)"
  | tooLong => .error "File name too long (os error 36)"
  | unreadable reason => .error reason

end FileEntry

/-! ## A folder that holds some files only -/

namespace Folder

/-- How many bytes a path may have. -/
def maxPathSize : Nat := 4095

/-- How many bytes one name in a path may have. -/
def maxNameSize : Nat := 255

/-- A place that a path leads to. -/
inductive Place
  /-- A directory above the folder. -/
  | above
  /-- Down from the folder, along names of which the last is first. -/
  | below (names : List String)
deriving DecidableEq

/-- The place to start from. -/
def Place.start (path : String) : Place := if path.startsWith "/" then .above else .below []

/-- The place that one part of a path leads to from a directory. -/
def Place.next : Place → String → Place
  | place, "" => place
  | place, "." => place
  | .below (_ :: names), ".." => .below names
  | .below names, part => if part = ".." then .above else .below (part :: names)
  | .above, _ => .above

/-- Files, each with the names that lead to it, the last name first. -/
abbrev Listing := List (List String × String)

/-- What stands at a place. -/
def entryAt (files : Listing) : Place → FileEntry
  | .above => .directory
  | .below names =>
    match files.lookup names with
    | some content => .text content
    | none =>
      if names.isEmpty || files.any (names.isSuffixOf ·.1) then .directory else .absent

/-- What is found behind the parts of a path. -/
def walk (files : Listing) : Place → List String → FileEntry
  | place, [] => entryAt files place
  | place, part :: rest =>
    match entryAt files place with
    | .text _ => .throughFile
    | .directory =>
      if maxNameSize < part.utf8ByteSize then .tooLong
      else if place = .above && part ∉ ["", ".", ".."] then .absent
      else walk files (place.next part) rest
    | entry => entry

/-- The names that lead to the file of a path; nothing above the folder. -/
def names? (path : String) : Option (List String) :=
  match (path.splitOn "/").foldl Place.next (Place.start path) with
  | .below names => some names
  | .above => none

/-- The folder with files under some paths; of two with one place the later
counts. -/
def ofFiles (files : List (String × String)) : Folder := fun path =>
  if maxPathSize < path.utf8ByteSize then .tooLong
  else
    let listing := files.reverse.filterMap fun (path, content) => (names? path).map (·, content)
    walk listing (.start path) (path.splitOn "/")

end Folder

end StateResolution.CommandLine
