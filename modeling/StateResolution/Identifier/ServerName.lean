import StateResolution.Identifier.Address

/-!
# Server names

A server name is a host, optionally followed by a colon and a port.  The host
is an address in brackets or a run, possibly empty, of ASCII letters, digits,
hyphens and points.
-/

namespace StateResolution.Identifier

/-- The text before the first colon and the text behind it. -/
def splitColon? : List Char → Option (List Char × List Char)
  | [] => none
  | ':' :: cs => some ([], cs)
  | c :: cs => (splitColon? cs).map fun (before, behind) => (c :: before, behind)

/-- The server part of an identifier: what stands behind its first colon,
unless that is empty. -/
def serverOf? (id : String) : Option String :=
  match splitColon? id.toList with
  | some (_, server) => if server.isEmpty then none else some (String.ofList server)
  | none => none

/-- A character of a host that is not an address. -/
def isHostChar (c : Char) : Bool := c.isAlphanum || c == '-' || c == '.'

/-- Nothing, or a colon and a port. -/
def isPortPart : List Char → Bool
  | [] => true
  | ':' :: cs => (Text.unsigned? 65535 cs).isSome
  | _ => false

/-- Whether a text is a server name. -/
def isServerName (cs : List Char) : Bool :=
  match cs with
  | [] => false
  | '[' :: cs =>
    let address := cs.takeWhile (· ≠ ']')
    match cs.dropWhile (· ≠ ']') with
    | _ :: rest => isAddress address && isPortPart rest
    | [] => false
  | cs => (cs.takeWhile (· ≠ ':')).all isHostChar && isPortPart (cs.dropWhile (· ≠ ':'))

end StateResolution.Identifier
