import SolidityServer.Json.Display
import SolidityServer.Json.Reader
import SolidityServer.Lint.Report
import SolidityServer.Text.Integer

/-! Reading the JSON output of solhint: a list of findings, or of files with a list of findings
each. -/

namespace SolidityServer.Lint

/-- Why an output is no list of findings. -/
inductive ReportError where
  | notJson (error : Json.ReadError)
  /-- Neither findings nor files can be in such a value. -/
  | notList (output : Json)
  /-- No severity has a list or an object for its name. -/
  | badSeverity (value : Json)
  | badNumber (text : String)
  | noNumber (value : Json)
  | notANumber
  | infiniteNumber
deriving Repr, Inhabited

/-- What a value is called in messages. -/
def kindName : Json → String
  | .null => "NoneType"
  | .bool _ => "bool"
  | .int _ => "int"
  | .real _ => "float"
  | .str _ => "str"
  | .arr _ => "list"
  | .obj _ => "dict"

def ReportError.message : ReportError → String
  | .notJson e => e.message
  | .notList j => "'" ++ kindName j ++ "' object is not iterable"
  | .badSeverity j => "unhashable type: '" ++ kindName j ++ "'"
  | .badNumber text =>
    "invalid literal for int() with base 10: " ++ String.ofList ((Text.quoted text).toList.take 200)
  | .noNumber j =>
    "int() argument must be a string, a bytes-like object or a real number, not '" ++ kindName j
      ++ "'"
  | .notANumber => "cannot convert float NaN to integer"
  | .infiniteNumber => "cannot convert float infinity to integer"

/-- The severity that a value stands for. Two is an error; it may have a fraction of zero. -/
def severityOf : Json → Except ReportError Severity
  | .str name => .ok (.ofName name.toList)
  | .int n => .ok (if n == 2 then .error else .warning)
  | .real d => .ok (if d.equals 2 then .error else .warning)
  | .arr items => .error (.badSeverity (.arr items))
  | .obj fields => .error (.badSeverity (.obj fields))
  | _ => .ok .warning

/-- A value as a whole number; a fraction is cut off. -/
def wholeOf : Json → Except ReportError Int
  | .int n => .ok n
  | .bool b => .ok (if b then 1 else 0)
  | .real (.finite negative mantissa exponent) => .ok (Double.truncate negative mantissa exponent)
  | .real .nan => .error .notANumber
  | .real (.infinite _) => .error .infiniteNumber
  | .str s =>
    match Text.integer? s with
    | some n => .ok n
    | none => .error (.badNumber s)
  | j => .error (.noNumber j)

/-- The entries of one item of an output. -/
def entriesOf (item : Json) : List Json :=
  match item with
  | .obj fields =>
    match fields.lookup "messages" with
    | some (.arr messages) => messages.filter fun
      | .obj _ => true
      | _ => false
    | _ => [item]
  | _ => []

/-- The items of an output. A text has items, but none that count. -/
def itemsOf : Json → Except ReportError (List Json)
  | .obj fields => .ok [.obj fields]
  | .arr items => .ok items
  | .str _ => .ok []
  | j => .error (.notList j)

/-- The finding of an entry, none if it names no line. Its columns count from zero. -/
def reportOf (entry : Json) : Except ReportError (Option Report) := do
  match entry.get? "line" with
  | none => return none
  | some line =>
    let severity ← severityOf (.ofOption (entry.get? "severity"))
    let line ← wholeOf line
    let column ← wholeOf ((entry.get? "column").getD (.int 0))
    return some
      { severity, line, column := column + 1
        message := ((entry.get? "message").getD (.str "")).display
        rule := .ofOption (entry.get? "ruleId") }

def reportsOf (output : Json) : Except ReportError (List Report) := do
  let reports ← ((← itemsOf output).flatMap entriesOf).mapM reportOf
  return reports.filterMap id

def readSolhint (output : String) : Except ReportError (List Report) :=
  match Json.read output with
  | .ok j => reportsOf j
  | .error e => .error (.notJson e)

end SolidityServer.Lint
