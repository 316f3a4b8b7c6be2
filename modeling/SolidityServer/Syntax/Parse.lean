import SolidityServer.Syntax.Grammar.SourceFile
import SolidityServer.Syntax.Node
import SolidityServer.Syntax.Outcome

/-! Parsing a source text. Where its concrete tree comes from is left open, and so is how deep the
stack is. Three recursions go down a source: one outlines its tree, one searches the tree for its
first error, and one converts the outline to a typed tree. Where one of the first two runs out of
stack, the source counts as one that nests too deep; where the third does, the parse breaks off. -/

namespace SolidityServer

/-- The concrete tree of each text, none for a text that nests too deep to have one. -/
abbrev Trees := String → Option Concrete

/-- The frames that a stack has room for, and the frames that each recursion takes. -/
structure Stack where
  room : Nat
  outlining : Concrete → Nat
  searching : Concrete → Nat
  converting : Outline → Nat

/-- Whether there is room to outline a tree, and to search it if it has errors. -/
def Stack.admits (stack : Stack) (root : Concrete) : Bool :=
  stack.outlining root ≤ stack.room && (!root.hasError || stack.searching root ≤ stack.room)

namespace Trees

def grammar : Trees := Grammar.sourceFile?

/-- Known trees come first. -/
def knowing (known : List (String × Concrete)) : Trees := fun text =>
  match known.lookup text with
  | some tree => some tree
  | none => grammar text

/-- The trees that the stack has room for. -/
def within (trees : Trees) (stack : Stack) : Trees := fun text => (trees text).filter stack.admits

end Trees

def parseOutline (trees : Trees) (text : String) : Outcome Outline :=
  match trees text with
  | some root => root.outcome (SourceText.ofText text)
  | none => .failed { complaint := .nestsTooDeeply, offset := 0 }

/-- The typed node of an outline. -/
def Outline.toNode (o : Outline) : Except NodeError Node :=
  match o.toJson with
  | .obj fields => Node.ofJson fields
  | _ => .error .noType

def Outline.toNode? (o : Outline) : Option Node := o.toNode.toOption

/-- The typed tree of a text, also one recovered around errors, given room to convert it. -/
def parseProgram (trees : Trees) (text : String) : Option Node :=
  (parseOutline trees text).tree?.bind Outline.toNode?

/-- Why a conversion broke off. -/
inductive ConversionError where
  | outOfRoom
  | malformed (cause : NodeError)
deriving Repr, DecidableEq, Inhabited

def ConversionError.message : ConversionError → String
  | .outOfRoom => "maximum recursion depth exceeded"
  | .malformed cause => cause.message

def Stack.convert (stack : Stack) (o : Outline) : Except ConversionError Node :=
  if stack.converting o ≤ stack.room then o.toNode.mapError .malformed else .error .outOfRoom

/-- What parsing a text on a stack comes to, with the trees typed. -/
def parseTyped (stack : Stack) (trees : Trees) (text : String) :
    Except ConversionError (Outcome Node) :=
  match parseOutline (trees.within stack) text with
  | .clean o => (stack.convert o).map .clean
  | .recovered fault o => (stack.convert o).map (.recovered fault)
  | .failed fault => .ok (.failed fault)

/-- The typed tree of a text, also one recovered around errors, unless its conversion breaks off. -/
def parseSource (stack : Stack) (trees : Trees) (text : String) :
    Except ConversionError (Option Node) :=
  (parseTyped stack trees text).map Outcome.tree?

/-- What there is to note about a parse. -/
def Outcome.notes {α : Type} (o : Outcome α) : List String :=
  let first (f : Fault) : List String :=
    if f.complaint == .nestsTooDeeply then []
    else ["Parsed with syntax errors, first: " ++ f.complaint.message ++ " at "
      ++ toString f.offset]
  match o with
  | .clean _ => []
  | .recovered f _ => first f ++ ["Using partial tree after syntax error: " ++ f.message]
  | .failed f => first f ++ ["Parse failed: " ++ f.message]

end SolidityServer
