/-! A source text with the character that each byte of its UTF-8 form belongs to. -/

namespace SolidityServer

/-- A half-open interval of character offsets. -/
structure Span where
  start : Nat
  stop : Nat
deriving Repr, DecidableEq, Inhabited

structure SourceText where
  chars : Array Char
  /-- The index of the character that each byte belongs to, and the length of the text for the end.
  A text in which every character is one byte needs no table. -/
  table : Option (Array Nat)
deriving Repr, Inhabited

namespace SourceText

/-- Each byte's character, counted from `index`, and the index after the last one. -/
def byteTable (index : Nat) : List Char → List Nat
  | [] => [index]
  | c :: cs => List.replicate c.utf8Size index ++ byteTable (index + 1) cs

def ofChars (cs : List Char) : SourceText :=
  { chars := cs.toArray
    table := if cs.all (·.utf8Size == 1) then none else some (byteTable 0 cs).toArray }

def ofText (text : String) : SourceText := ofChars text.toList

def length (s : SourceText) : Nat := s.chars.size

/-- The character offset of a byte offset. -/
def charOffset (s : SourceText) (byte : Nat) : Nat :=
  match s.table with
  | none => byte
  | some table => table.getD byte s.length

def slice (s : SourceText) (span : Span) : List Char :=
  (s.chars.extract span.start span.stop).toList

end SourceText

end SolidityServer
