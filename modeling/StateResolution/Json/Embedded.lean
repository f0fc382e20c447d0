import StateResolution.Json.Reader

/-!
# Embedded texts

A value may be written as a text inside a string, in an object that marks it as
such.  The text follows the strict grammar, starts a count of levels of its own,
and may embed further texts.

An embedded text is shorter than the text around it, which holds its quotes too.
So the length of a text bounds how deep texts nest in it.
-/

namespace StateResolution.Document

/-- The value of a text in which texts nest less deep than a bound. -/
def valueWithin? : Nat → String → Option Json
  | 0, _ => none
  | depth + 1, text => (ofText? text).bind (toJsonWith? (valueWithin? depth) maxLevels)

/-- The value of an embedded text. -/
def embeddedValue? (text : String) : Option Json := valueWithin? (text.length + 1) text

/-- The value of a document that nests at most a number of levels, with embedded
texts read. -/
def toJson? (levels : Nat) (d : Document) : Option Json := d.toJsonWith? embeddedValue? levels

end StateResolution.Document
