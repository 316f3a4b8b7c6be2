import SolidityServer.Editor.Position
import SolidityServer.Text.Lines
import SolidityServer.Uri

/-! A document's text, with the positions of its offsets and the offsets of its positions. -/

namespace SolidityServer

structure Buffer where
  uri : String
  /-- None for a document that is no file. -/
  path : Option String
  text : String
  encoding : Encoding
deriving Repr, DecidableEq, Inhabited

namespace Buffer

/-- A buffer with the path that its address stands for. -/
def ofUri (uri text : String) (encoding : Encoding) : Buffer :=
  { uri, path := Uri.toPath? uri, text, encoding }

def chars (b : Buffer) : List Char := b.text.toList

def lines (b : Buffer) : List (List Char) := Text.splitLines b.chars

/-- Whether one more line starts after these: the last of them ends with a return. -/
def openEnded (lines : List (List Char)) : Bool :=
  ((lines.getLast?.bind (·.getLast?)).map Text.isReturn).getD false

/-- The line that an offset is on, counted from `line`, and the characters before it there. Past the
last line the offset is at its end, or at the start of the line after it. -/
def locate (line : Nat) : List (List Char) → Nat → Nat × List Char
  | [], _ => (line, [])
  | [last], offset =>
    if offset < last.length || !openEnded [last] then (line, last.take offset)
    else (line + 1, [])
  | first :: lines, offset =>
    if offset < first.length then (line, first.take offset)
    else locate (line + 1) lines (offset - first.length)

/-- The position of an offset. One before or after the text counts as that end. -/
def positionAt (b : Buffer) (offset : Int) : Position :=
  let (line, before) := locate 0 b.lines (min offset.toNat b.chars.length)
  { line, character := b.encoding.units before }

/-- A line with a line feed for the return that ends it, as editors count it. -/
def counted (line : List Char) : List Char := Text.unifyReturns line

/-- How many characters of a line stand before a client's character. One past the end of the line
counts as the last unit of it. -/
def charactersBefore (e : Encoding) (line : List Char) (character : Nat) : Nat :=
  let total := e.units line
  e.reach (if total < character then total - 1 else character) line

/-- The line that a client's position is on, and how many characters of it stand before. A line past
the last one counts as the end of the last. -/
def place (e : Encoding) (lines : List (List Char)) (p : Position) : Nat × Nat :=
  match lines[p.line]? with
  | some line => (p.line, charactersBefore e (counted line) p.character)
  | none =>
    match lines.getLast? with
    | some last => (lines.length - 1, e.units last)
    | none => (0, 0)

/-- The offset at which a line starts. -/
def lineStart (lines : List (List Char)) (line : Nat) : Nat := (lines.take line).flatten.length

/-- The offset of a position. A character past the end of its line counts as the end of the line. -/
def offsetAt (b : Buffer) (p : Position) : Nat :=
  let (line, column) := place b.encoding b.lines p
  lineStart b.lines line + min column (Text.lineBody (b.lines.getD line [])).length

def rangeOf (b : Buffer) (start stop : Int) : Range :=
  { start := b.positionAt start, stop := b.positionAt stop }

/-- An end of a slice. Negative ones count from the end of the text. -/
def bound (length : Nat) (offset : Int) : Nat :=
  if offset < 0 then (offset + length).toNat else min offset.toNat length

/-- The text between two offsets. -/
def slice (b : Buffer) (start stop : Int) : List Char :=
  let cs := b.chars
  let first := bound cs.length start
  (cs.drop first).take (bound cs.length stop - first)

end Buffer

end SolidityServer
