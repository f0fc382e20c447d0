/-!
# Durations

A stretch of time as people read it: milliseconds below a minute, whole seconds
below an hour, and hours with minutes from there on.
-/

namespace StateResolution.Text

/-- The text of a number of milliseconds. -/
def duration (millis : Nat) : String :=
  let seconds := millis / 1000
  if seconds < 60 then s!"{millis}ms"
  else if seconds < 3600 then s!"{seconds}s"
  else s!"{seconds / 3600}h {seconds % 3600 / 60}m"

end StateResolution.Text
