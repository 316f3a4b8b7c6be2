import SolidityServer.Text.Blank

/-! Parts of a text around marks in it. -/

namespace SolidityServer.Text

/-- Where `sought` first occurs. -/
def indexOf? (sought : List Char) : List Char → Option Nat
  | [] => if sought.isEmpty then some 0 else none
  | c :: cs =>
    if sought.isPrefixOf (c :: cs) then some 0 else (indexOf? sought cs).map (· + 1)

/-- What stands before the first `mark`, all of it if there is none. -/
def before (mark cs : List Char) : List Char :=
  match indexOf? mark cs with
  | some n => cs.take n
  | none => cs

/-- What stands after the first `mark`, nothing if there is none. -/
def after (mark cs : List Char) : List Char :=
  match indexOf? mark cs with
  | some n => cs.drop (n + mark.length)
  | none => []

/-- The text without `start` if it starts with it. -/
def dropStart (start cs : List Char) : List Char :=
  if start.isPrefixOf cs then cs.drop start.length else cs

/-- The first word between blanks, empty if there is none. -/
def firstWord (cs : List Char) : List Char := (cs.dropWhile isBlank).takeWhile (!isBlank ·)

/-- The inside of a quoted text; any other text as it is. -/
def unquote (cs : List Char) : List Char :=
  match cs with
  | first :: rest =>
    if (first == '\x22' || first == '\x27') && rest.getLast? == some first then rest.dropLast
    else cs
  | [] => cs

end SolidityServer.Text
