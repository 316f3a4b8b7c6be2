/-! Concrete syntax trees: every token and grouping of a source as a labelled node. Syntax errors
are part of a tree, as `ERROR` nodes, as tokens that had to be made up, or as a mark on a node. -/

namespace SolidityServer

/-- What a concrete node says about itself. Offsets count the bytes of the UTF-8 text; `field` is
the role of the node in its parent. -/
structure Label where
  kind : String
  named : Bool
  start : Nat
  stop : Nat
  field : Option String := none
  missing : Bool := false
  marked : Bool := false
deriving Repr, DecidableEq, Inhabited

def Label.isError (l : Label) : Bool := l.kind == "ERROR"

def Label.isComment (l : Label) : Bool := l.kind == "comment"

inductive Concrete where
  | node (label : Label) (children : List Concrete)
deriving Repr, Inhabited

namespace Concrete

def label : Concrete → Label
  | .node l _ => l

def children : Concrete → List Concrete
  | .node _ cs => cs

/-- The node in the role `f` of its parent. -/
def inField (f : String) : Concrete → Concrete
  | .node l cs => .node { l with field := some f } cs

/-- A node around `children`, from the start of the first to the end of the last. -/
def around (kind : String) (children : List Concrete) : Concrete :=
  .node { kind, named := true, start := (children.head?.map (·.label.start)).getD 0,
          stop := (children.getLast?.map (·.label.stop)).getD 0 } children

mutual

/-- Whether a syntax error lies anywhere in the tree. -/
def hasError : Concrete → Bool
  | .node l cs => l.isError || l.missing || l.marked || anyHasError cs

def anyHasError : List Concrete → Bool
  | [] => false
  | c :: cs => c.hasError || anyHasError cs

end

mutual

/-- The first `ERROR` or missing node, parents before children. What has no error is not
searched. -/
def firstError? : Concrete → Option Label
  | .node l cs =>
    if l.isError || l.missing then some l
    else if (node l cs).hasError then firstErrorOf? cs
    else none

def firstErrorOf? : List Concrete → Option Label
  | [] => none
  | c :: cs => c.firstError?.or (firstErrorOf? cs)

end

/-- Kinds that only group a single child. -/
def isWrapper (kind : String) : Bool :=
  kind == "expression" || kind == "statement" || kind == "parenthesized_expression"

end Concrete

end SolidityServer
