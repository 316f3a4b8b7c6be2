import SolidityServer.Syntax.Concrete
import SolidityServer.Syntax.Outline
import SolidityServer.Text.Cut

/-! What a concrete node means is read bottom up: the reading of a node holds what it stands for as
an expression, a type, a statement and so on, and is a plain function of the node's label and its
children's readings. -/

namespace SolidityServer

/-- A type name before it becomes a node: `Owner.Member[3]` has the literal `Owner`, the member
`Member` and one array part. -/
structure TypeForm where
  span : Span
  literal : Outline
  members : List (List Char) := []
  arrayParts : List Outline := []
deriving Repr, Inhabited

def TypeForm.toOutline (t : TypeForm) : Outline :=
  .node .type t.span [(.literal, t.literal), (.members, .texts t.members),
    (.arrayParts, .list t.arrayParts), (.storageLocation, .null)]

structure Reading where
  label : Label
  span : Span
  /-- The span of the node without the wrappers around it. -/
  core : Span
  /-- The texts of its identifiers. -/
  names : List (List Char)
  expression : Option Outline
  type : Option TypeForm
  statement : Option Outline
  /-- The statements in it, as a block. -/
  block : Option Outline
  /-- The expression of its first part. -/
  headExpression : Option Outline
  /-- What it adds to the parts of a file, to the members of a contract, to the statements of a
  block. -/
  units : List Outline
  members : List Outline
  statements : List Outline
  /-- The members of a contract that are in it. -/
  body : List Outline
  /-- What it adds to a parameter list, and the parameter list in it. -/
  parameter : List Outline
  parameters : List Outline
  /-- What it adds to the arguments of a call. -/
  arguments : List Outline
  namedValue : List Outline
  inheritance : List Outline
  modifierCall : List Outline
  structMembers : List Outline
  enumValues : List (List Char)
  /-- The variable it declares, and the variables declared in it. -/
  declared : List Outline
  declarations : List Outline
  catchClause : List Outline
deriving Inhabited

/-- A concrete node whose children have been read. -/
structure Site where
  source : SourceText
  label : Label
  children : List Reading

namespace Site

def spanOf (source : SourceText) (l : Label) : Span :=
  { start := source.charOffset l.start, stop := source.charOffset l.stop }

def span (s : Site) : Span := spanOf s.source s.label

def kind (s : Site) : String := s.label.kind

def text (s : Site) : List Char := s.source.slice s.span

/-- The named children, comments left out. -/
def named (s : Site) : List Reading :=
  s.children.filter fun c => c.label.named && !c.label.isComment

/-- The first child in a role. -/
def field (s : Site) (role : String) : Option Reading :=
  s.children.find? (·.label.field == some role)

def hasToken (s : Site) (kind : String) : Bool := s.children.any (·.label.kind == kind)

/-- The first named child of one of the kinds. -/
def firstOf (s : Site) (kinds : List String) : Option Reading :=
  s.children.find? fun c => c.label.named && kinds.contains c.label.kind

def ofKind (s : Site) (kind : String) : List Reading := s.named.filter (·.label.kind == kind)

/-- The text of a child, empty if there is none. -/
def textOf (s : Site) (c : Option Reading) : List Char :=
  match c with
  | some c => s.source.slice c.span
  | none => []

def textOf? (s : Site) (c : Option Reading) : Option (List Char) := c.map (s.source.slice ·.span)

def name (s : Site) : Outline := .chars (s.textOf (s.field "name"))

/-- The only child that a wrapper groups. -/
def wrapped? (s : Site) : Option Reading :=
  if Concrete.isWrapper s.kind then
    match s.named with
    | [c] => some c
    | _ => none
  else none

/-- A node that spans the whole site. -/
def node (s : Site) (kind : Kind) (fields : List (Field × Outline)) : Outline :=
  .node kind s.span fields

/-- Convert a sequence of siblings: `ERROR` nodes are replaced by what they hold, comments and
missing nodes give nothing. -/
def contribution (s : Site) (inside : Reading → List Outline) (own : Option Outline) :
    List Outline :=
  if s.label.isComment || s.label.missing then []
  else if s.label.isError then s.named.flatMap inside
  else own.toList

def names (s : Site) : List (List Char) := (s.ofKind "identifier").map (s.source.slice ·.span)

def parameters (s : Site) : List Outline := s.named.flatMap Reading.parameter

def callArguments (s : Site) : List Outline := s.named.flatMap Reading.arguments

end Site

/-- The names of a path with points between them, or the whole text if there are none. -/
def Reading.pathName (source : SourceText) (r : Reading) : List Char :=
  if r.names.isEmpty then source.slice r.span else ['.'].intercalate r.names

def identifierNode (span : Span) (name : List Char) : Outline :=
  .node .identifier span [(.name, .chars name)]

/-- A name of its own at the start of a site, such as a keyword that is called like a function. -/
def Site.keywordNode (s : Site) (word : String) : Outline :=
  identifierNode { start := s.span.start, stop := s.span.start + word.length } word.toList

end SolidityServer
