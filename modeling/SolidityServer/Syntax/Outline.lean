import SolidityServer.Syntax.Schema
import SolidityServer.Syntax.SourceText

/-! Outlines: what a source says, as plain data. Every node has a kind, the characters it spans and
the fields of its kind. -/

namespace SolidityServer

inductive Outline where
  | null
  | flag (b : Bool)
  | text (s : String)
  | list (items : List Outline)
  | node (kind : Kind) (span : Span) (fields : List (Field × Outline))
deriving Repr, Inhabited

namespace Outline

def orNull : Option Outline → Outline
  | some o => o
  | none => .null

def chars (cs : List Char) : Outline := .text (String.ofList cs)

def chars? : Option (List Char) → Outline
  | some cs => .chars cs
  | none => .null

def texts (ss : List (List Char)) : Outline := .list (ss.map chars)

def span? : Outline → Option Span
  | .node _ span _ => some span
  | _ => none

def field? : Outline → Field → Option Outline
  | .node _ _ fields, f => fields.lookup f
  | _, _ => none

/-- Whether this is a node of the unknown kind. -/
def isUnknown : Outline → Bool
  | .node .base _ _ => true
  | _ => false

end Outline

/-- The name of a kind in an outline; what has no kind of its own is a plain node. -/
def Kind.tag : Kind → String
  | .base => "Node"
  | k => k.name

mutual

def Outline.toJson : Outline → Json
  | .null => .null
  | .flag b => .bool b
  | .text s => .str s
  | .list items => .arr (Outline.itemsToJson items)
  | .node kind span fields =>
    .obj ((Field.key .tag, .str kind.tag) :: Outline.fieldsToJson fields
      ++ [(Field.key .start, .int span.start), (Field.key .stop, .int span.stop)])

def Outline.itemsToJson : List Outline → List Json
  | [] => []
  | o :: items => o.toJson :: Outline.itemsToJson items

def Outline.fieldsToJson : List (Field × Outline) → List (String × Json)
  | [] => []
  | (f, o) :: fields => (f.key, o.toJson) :: Outline.fieldsToJson fields

end

end SolidityServer
