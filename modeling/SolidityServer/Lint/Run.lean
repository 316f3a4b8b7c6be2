import SolidityServer.Lint.Diagnostic
import SolidityServer.Lint.ErrorLocation
import SolidityServer.Lint.Solhint
import SolidityServer.Lint.Solium
import SolidityServer.Settings

/-! Linting a source: how the linter is started, and what its ending means. -/

namespace SolidityServer.Lint

inductive Argument where
  | text (s : String)
  /-- The path of the configuration file written for this run. -/
  | configFile
deriving Repr, DecidableEq, Inhabited

/-- How a linter is started. -/
structure Run where
  executable : String
  arguments : List Argument
  config : Json
  input : String
deriving Repr, Inhabited

/-- The seconds that a linter may take. -/
def timeout : Nat := 30

/-- How a run ends. -/
inductive Ending where
  | finished (output errors : String) (code : Int)
  | notFound
  | timedOut
  | denied
deriving Repr, DecidableEq, Inhabited

/-- What a linter does when it is started. -/
abbrev Process := Run → Ending

inductive Failure where
  | badReport (error : ReportError)
  | denied (executable : String)
  | outOfRange (error : Position.OutOfRange)
deriving Repr, Inhabited

def Failure.message : Failure → String
  | .badReport e => e.message
  | .denied executable => "[Errno 13] Permission denied: " ++ Text.quoted executable
  | .outOfRange e => e.message

/-- The rules on top of the recommended ones. -/
def solhintRules (settings : Settings) : List (String × Json) :=
  [("avoid-suicide", .str "error"), ("avoid-sha3", .str "warning"),
      ("no-unused-vars", .str "warning"), ("reentrancy", .str "warning")]
    ++ match settings.solcVersion with
      | some version =>
        if version.isEmpty then [] else [("compiler-version", .arr [.str "error", .str version])]
      | none => []

def soliumRules : List (String × Json) :=
  [("quotes", .arr [.str "warning", .str "double"]), ("no-unused-vars", .str "warning")]

def solhintRun (settings : Settings) (source path : String) : Run :=
  { executable := settings.solhintPath
    arguments := [.text "stdin", .text "--filename", .text (Path.lastName path),
      .text "--formatter", .text "json", .text "--config", .configFile]
    config := .obj [("extends", .str "solhint:recommended"),
      ("rules", .obj (solhintRules settings))]
    input := source }

def soliumRun (settings : Settings) (source : String) : Run :=
  { executable := settings.soliumPath
    arguments := [.text "--stdin", .text "--reporter", .text "gcc", .text "--config", .configFile]
    config := .obj [("extends", .str "solium:recommended"), ("rules", .obj soliumRules)]
    input := source }

/-- What linting comes to: findings or a failure, and what is logged on the way. -/
structure Result where
  reports : Except Failure (List Report)
  /-- The run of the linter, if one was started. -/
  run : Option Run := none
  log : List Record := []
deriving Inhabited

def Result.empty : Result := { reports := .ok [] }

def Result.warn (message : String) : Result :=
  { reports := .ok [], log := [{ level := Level.warning, message }] }

/-- A linter that gave up: one finding where its message points into the source, a warning
otherwise. -/
def crash (errors path : String) (code : Int) : Result :=
  let message := Text.trim errors.toList
  match namedLocation? message with
  | none =>
    let shown := if message.isEmpty then "no output" else String.ofList message
    .warn ("Linter produced no report for " ++ path ++ " (exit code " ++ toString code ++ "): "
      ++ shown)
  | some _ =>
    let (line, column) := errorLocation message
    let first := Text.trimEnd Text.isLineBreak ((Text.splitLines message).headD [])
    { reports := .ok [{ severity := .error, line := line + 1, column := column + 1,
                        message := String.ofList first, rule := .null }] }

def solhintResult (output errors path : String) (code : Int) : Result :=
  match readSolhint output with
  | .ok reports => { reports := .ok reports }
  | .error (.notJson _) => crash errors path code
  | .error e => { reports := .error (.badReport e) }

def soliumResult (output errors path : String) (code : Int) : Result :=
  let reports := readSolium output.toList
  if !reports.isEmpty || code == 0 then { reports := .ok reports }
  else crash (if errors.isEmpty then output else errors) path code

/-- Start a linter and make of its ending what `finish` says. -/
def start (process : Process) (run : Run) (path : String)
    (finish : String → String → String → Int → Result) : Result :=
  let result := match process run with
    | .finished output errors code => finish output errors path code
    | .notFound => .warn ("Linter executable not found: " ++ run.executable)
    | .timedOut => .warn ("Linter timed out on " ++ path)
    | .denied => { reports := .error (.denied run.executable) }
  { result with run := some run }

/-- Lint a source with the linter of the settings, if it is a known one. -/
def lint (process : Process) (settings : Settings) (source path : String) : Result :=
  match settings.linter with
  | "solhint" => start process (solhintRun settings source path) path solhintResult
  | "solium" => start process (soliumRun settings source) path soliumResult
  | _ => .empty

/-- The diagnostics of a result, named for the linter. -/
def Result.diagnostics (r : Result) (linter : String) : Except Failure (List Diagnostic) :=
  match r.reports with
  | .error e => .error e
  | .ok reports =>
    match reports.mapM (Diagnostic.ofReport linter) with
    | .ok diagnostics => .ok diagnostics
    | .error e => .error (.outOfRange e)

end SolidityServer.Lint
