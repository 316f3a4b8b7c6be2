import SolidityServer.Syntax.Reading

/-! What parsing a source comes to: its tree, a tree recovered around syntax errors, or nothing. -/

namespace SolidityServer

/-- What is wrong with a source. -/
inductive Complaint where
  | expected (kind : String)
  | unexpected (snippet : List Char)
  | syntaxError
  | nestsTooDeeply
deriving Repr, DecidableEq, Inhabited

def Complaint.message : Complaint → String
  | .expected kind => "Expected '" ++ kind ++ "'"
  | .unexpected snippet => "Unexpected '" ++ String.ofList snippet ++ "'"
  | .syntaxError => "Syntax error"
  | .nestsTooDeeply => "Source nests too deeply"

/-- A complaint and the character offset it is about. -/
structure Fault where
  complaint : Complaint
  offset : Nat
deriving Repr, DecidableEq, Inhabited

def Fault.message (f : Fault) : String :=
  f.complaint.message ++ " (offset " ++ toString f.offset ++ ")"

inductive Outcome (α : Type) where
  | clean (tree : α)
  | recovered (fault : Fault) (tree : α)
  | failed (fault : Fault)
deriving Repr, Inhabited

namespace Outcome

variable {α β : Type}

def map (f : α → β) : Outcome α → Outcome β
  | .clean tree => .clean (f tree)
  | .recovered fault tree => .recovered fault (f tree)
  | .failed fault => .failed fault

/-- The tree, recovered or not. -/
def tree? : Outcome α → Option α
  | .clean tree => some tree
  | .recovered _ tree => some tree
  | .failed _ => none

def fault? : Outcome α → Option Fault
  | .clean _ => none
  | .recovered fault _ => some fault
  | .failed fault => some fault

end Outcome

/-- The first line of a text, twenty characters of it at most. -/
def snippet (cs : List Char) : List Char := (cs.takeWhile (· != '\n')).take 20

/-- The fault of a tree with errors: its first `ERROR` or missing node, or none in particular. -/
def Concrete.fault (source : SourceText) (root : Concrete) : Fault :=
  match root.firstError? with
  | none => { complaint := .syntaxError, offset := 0 }
  | some l =>
    let span := Site.spanOf source l
    { offset := span.start
      complaint :=
        if l.missing then .expected l.kind else .unexpected (snippet (source.slice span)) }

/-- The outline of a concrete tree of `source`. -/
def Concrete.outcome (source : SourceText) (root : Concrete) : Outcome Outline :=
  let body := root.body source
  if !root.hasError then .clean (programNode source body)
  else if body.isEmpty then .failed (root.fault source)
  else .recovered (root.fault source) (programNode source body)

end SolidityServer
