import SolidityServer.Syntax.Reading.Declaration

/-! The reading of a whole tree, and the outline of a program. -/

namespace SolidityServer

def Site.core (s : Site) : Span := (s.wrapped?.map Reading.core).getD s.span

/-- Everything that a site means. -/
def Site.read (s : Site) : Reading where
  label := s.label
  span := s.span
  core := s.core
  names := s.names
  expression := s.expression
  type := s.type
  statement := s.statement
  block := s.block
  headExpression := s.named.head?.bind Reading.expression
  units := s.contribution Reading.units s.unit
  members := s.contribution Reading.members s.member
  statements := s.contribution Reading.statements s.statement
  body := s.named.flatMap Reading.members
  parameter := s.parameter
  parameters := s.parameters
  arguments := s.arguments
  namedValue := s.namedValue
  inheritance := s.inheritance
  modifierCall := s.modifierCall
  structMembers := s.structMembers
  enumValues := s.enumValues
  declared := s.declared
  declarations := s.declarations
  catchClause := s.catchClause

mutual

def Concrete.read (source : SourceText) : Concrete → Reading
  | .node label children =>
    Site.read { source, label, children := Concrete.readAll source children }

def Concrete.readAll (source : SourceText) : List Concrete → List Reading
  | [] => []
  | c :: cs => c.read source :: Concrete.readAll source cs

end

/-- The parts of a file, in order. -/
def Concrete.body (source : SourceText) (root : Concrete) : List Outline :=
  (Site.mk source root.label (Concrete.readAll source root.children)).named.flatMap Reading.units

/-- A program spans the whole text. -/
def programNode (source : SourceText) (body : List Outline) : Outline :=
  .node .program { start := 0, stop := source.length } [(.body, .list body)]

/-- The outline of a whole tree. -/
def Concrete.program (source : SourceText) (root : Concrete) : Outline :=
  programNode source (root.body source)

end SolidityServer
