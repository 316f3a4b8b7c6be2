import SolidityServer.Json.Basic

/-! Findings of a linter. -/

namespace SolidityServer.Lint

inductive Severity where
  | error | warning
deriving Repr, DecidableEq, Inhabited

/-- A severity by its name; all but errors are warnings. -/
def Severity.ofName (name : List Char) : Severity :=
  if name.map Char.toLower == "error".toList then .error else .warning

structure Report where
  severity : Severity
  /-- Lines and columns count from one. -/
  line : Int
  column : Int
  message : String
  /-- What the linter calls the rule that was broken. -/
  rule : Json
deriving Repr, Inhabited

end SolidityServer.Lint
