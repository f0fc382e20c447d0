import StateResolution.CommandLine.Basic

/-!
# The program

Reads the files that a call names and the environment, and prints what the
library answers.
-/

namespace StateResolution

open CommandLine (FileEntry)

/-- What is found under a path. -/
def readEntry (path : String) : IO FileEntry := do
  try
    pure (.text (← IO.FS.readFile path))
  catch
    | .noFileOrDirectory .. => pure .absent
    | .inappropriateType _ code _ => pure (if code = 21 then .directory else .throughFile)
    | e@(.invalidArgument _ code _) =>
      -- The code comes with either sign.
      pure (if code = 36 || code = -36 then .tooLong else .unreadable (toString e))
    | e => pure (.unreadable (toString e))

/-- The names and values of the environment variables. -/
def readVariables : IO (List (String × String)) := do
  let text ← try IO.FS.readFile "/proc/self/environ" catch _ => pure ""
  pure <| (text.splitOn "\x00").filterMap fun line =>
    match line.splitOn "=" with
    | name :: value => some (name, "=".intercalate value)
    | [] => none

end StateResolution

/-- Answers one call. -/
def main (arguments : List String) : IO UInt32 := do
  let files ← (StateResolution.CommandLine.filesOf arguments).mapM fun path => do
    pure (path, ← StateResolution.readEntry path)
  let report := StateResolution.CommandLine.run arguments (← StateResolution.readVariables)
    fun path => (files.lookup path).getD .absent
  IO.print report.output
  IO.eprint report.complaint
  pure report.exitCode.toUInt32
