import SolidityServer.Editor.Buffer
import SolidityServer.Syntax.Node

/-! Where something is defined. -/

namespace SolidityServer

structure Location where
  uri : String
  range : Range
  selection : Range
  /-- The text that was asked about, if it is not just the name under the cursor. -/
  origin : Option Range := none
deriving Repr, DecidableEq, Inhabited

namespace Location

def ofSpan (b : Buffer) (start stop : Int) : Location :=
  let range := b.rangeOf start stop
  { uri := b.uri, range, selection := range }

def ofNode (b : Buffer) (n : Node) : Location := ofSpan b n.start n.stop

/-- The first position of a document. -/
def origo : Range :=
  { start := { line := 0, character := 0 }, stop := { line := 0, character := 0 } }

/-- The start of a document. -/
def startOf (uri : String) (origin : Option Range) : Location :=
  { uri, range := origo, selection := origo, origin }

/-- Whether two locations are the same place, whatever was asked about. -/
def samePlace (a b : Location) : Bool := a.uri == b.uri && a.range == b.range

/-- Drop each location whose place came before. -/
def unique : List Location → List Location
  | [] => []
  | l :: ls => l :: (unique ls).filter (!l.samePlace ·)

/-- The range of the path in an import that spans from `start` to `stop`: where that text first
occurs. -/
def specifierRange? (b : Buffer) (start stop : Int) (specifier : String) : Option Range :=
  if specifier.isEmpty then none
  else
    (Text.indexOf? specifier.toList (b.slice start stop)).map fun (index : Nat) =>
      b.rangeOf (start + index) (start + index + specifier.length)

end Location

end SolidityServer
