import StateResolution.Settings.Environment
import StateResolution.Settings.Toml

/-!
# Settings

What the tool is told by its settings file and its environment.  Variables
override the file, and what neither says has its default.  Settings nobody
knows are ignored, also those of a log, which must be text all the same.
-/

namespace StateResolution

namespace Configuration

/-- The limits without what a list of them holds behind the last. -/
def withoutExcess : Document → Document
  | .array items => .array (items.take settingNames.length)
  | limits => limits

/-- The configuration in a document of settings, unless a setting has a value of
another kind than it should. -/
def ofSettings? (settings : Document) : Option Configuration :=
  let log := match settings.field? "log" with
    | some d => d.string?.isSome
    | none => true
  match log, settings.field? Environment.limitsName with
  | true, some limits => ofDocument? (withoutExcess limits)
  | true, none => some {}
  | false, _ => none

/-- The configuration that the text of a settings file, if there is one, and
some environment variables ask for.  A string that is cut is found first. -/
def ofLayers (file : Option String) (environment : List (String × String)) :
    Except Error Configuration := do
  let upper ← (Environment.layer environment).mapError .config
  let settings? := (Toml.read? (file.getD "")).bind fun lower =>
    ofSettings? (.ofLayers [lower, upper])
  match settings? with
  | some c => do
    c.validate
    pure c
  | none => .error (.config .malformed)

end Configuration

end StateResolution
