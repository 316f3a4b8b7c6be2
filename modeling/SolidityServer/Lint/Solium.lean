import SolidityServer.Lint.Report
import SolidityServer.Text.Lines
import SolidityServer.Text.Scan
import SolidityServer.Text.Word

/-! Reading the output of solium: each finding is a line `file:line:column: type: message`. -/

namespace SolidityServer.Lint

open Text

/-- The finding on a line without blanks around it. Its columns count from zero. -/
def finding : Scan Report := do
  let _ ← Scan.many (· != ':')
  Scan.mark ':'
  let line ← Scan.number
  Scan.mark ':'
  let column ← Scan.number
  Scan.mark ':'
  let _ ← Scan.many isBlank
  let type ← Scan.many1 isWord
  Scan.mark ':'
  let _ ← Scan.many isBlank
  let message ← get
  let message := String.ofList (trim message)
  return { severity := .ofName type, line, column := column + 1, message, rule := .null }

/-- The findings among the lines of an output. -/
def readSolium (output : List Char) : List Report :=
  (splitLines output).filterMap fun line => (finding (trim line)).map (·.1)

end SolidityServer.Lint
