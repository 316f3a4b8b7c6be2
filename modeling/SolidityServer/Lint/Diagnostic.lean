import SolidityServer.Editor.Position
import SolidityServer.Lint.Report

/-! Findings as an editor shows them. -/

namespace SolidityServer

inductive Diagnostic.Severity where
  | error | warning | information | hint
deriving Repr, DecidableEq, Inhabited

structure Diagnostic where
  range : Range
  message : String
  severity : Diagnostic.Severity
  source : String
  code : Json
deriving Repr, Inhabited

namespace Diagnostic

/-- The number of a severity in the protocol of editors. -/
def Severity.number : Severity → Nat
  | .error => 1
  | .warning => 2
  | .information => 3
  | .hint => 4

/-- A range of lines and columns counted from zero. Without an end it is one character long. -/
def rangeOf (line column : Int) (endLine endColumn : Option Int) :
    Except Position.OutOfRange Range := do
  return { start := ← Position.ofInts line column
           stop := ← Position.ofInts (endLine.getD line) (endColumn.getD (column + 1)) }

/-- A report of the linter `source` as a diagnostic. Lines and columns before the first count as the
first. -/
def ofReport (source : String) (r : Lint.Report) : Except Position.OutOfRange Diagnostic := do
  return { range := ← rangeOf (max 0 (r.line - 1)) (max 0 (r.column - 1)) none none
           message := r.message
           severity := match r.severity with
             | .error => .error
             | .warning => .warning
           source
           code := r.rule }

end Diagnostic

end SolidityServer
