import SolidityServer.Editor.Change
import SolidityServer.Lint.Run
import SolidityServer.Log.Logger
import SolidityServer.Query.Definition
import SolidityServer.Server.Timer

/-! A session of the server with one client. -/

namespace SolidityServer

/-- What the server does to the world around it. -/
inductive Event where
  | ran (run : Lint.Run)
  | logged (message : LogMessage)
  | published (uri : String) (diagnostics : List Diagnostic)
deriving Repr, Inhabited

structure Session where
  settings : Settings
  /-- Records below this level are dropped. -/
  level : Level
  rootPath : Option String
  workspace : Workspace
  trees : Trees
  /-- What the linters do when they are started. -/
  process : Lint.Process
  /-- Milliseconds since the session began. -/
  clock : Nat := 0
  timers : List Timer := []

namespace Session

/-- Log records of at least the level of the session. -/
def logged (s : Session) (records : List Record) : List Event :=
  (records.filter fun r => s.level ≤ r.level).map fun r => .logged r.toMessage

def debug (s : Session) (message : String) : List Event :=
  s.logged [{ level := Level.debug, message }]

def complain (s : Session) (message : String) : List Event :=
  s.logged [{ level := Level.error, message }]

/-- Begin a session. -/
def start (environment : List (String × String)) (rootUri : Option String) (workspace : Workspace)
    (trees : Trees) (process : Lint.Process) : Session × List Event :=
  let settings := Settings.ofEnvironment environment
  let s : Session :=
    { settings, level := settings.level, rootPath := rootUri.bind Uri.toPath?, workspace, trees,
      process }
  (s, s.logged [{ level := Level.info, message := "Solidity Language Server starting..." }])

/-- Lay a client's options over the settings. -/
def configure (s : Session) (options : Json) : Session × List Event :=
  let settings := s.settings.overlay options
  let warnings := s.logged (settings.problems.map fun p =>
    { level := Level.warning, message := "Invalid setting: " ++ p.message })
  let s := { s with settings, level := settings.level }
  (s, warnings ++ s.debug ("Settings: " ++ settings.display))

/-- The project of a document: the workspace, or else the directory of the document. -/
def projectFor (s : Session) (path : String) : Project :=
  let root := match s.rootPath with
    | some root => if root.isEmpty then Path.parent path else root
    | none => Path.parent path
  .rootedAt root s.settings.dependencyDirectory

/-- Schedule a lint run for the document at an address. -/
def schedule (s : Session) (uri : String) : Session :=
  match s.workspace.document? uri with
  | some d => { s with timers := Timer.schedule s.clock d.uri (some d.text) s.timers }
  | none => { s with timers := Timer.schedule s.clock uri none s.timers }

def didOpen (s : Session) (uri text : String) : Session × List Event :=
  let s := { s with workspace := s.workspace.put { uri, text } }
  (s.schedule uri, s.debug ("Document opened: " ++ uri))

/-- The text of a document after some changes; none if it is not open. -/
def changed? (s : Session) (uri : String) (changes : List Change) : Option Document :=
  (s.workspace.document? uri).map fun d =>
    { d with text := changes.foldl (Change.apply s.workspace.encoding) d.text }

/-- A change to a document that is not open is lost. -/
def didChange (s : Session) (uri : String) (changes : List Change) : Session × List Event :=
  match s.changed? uri changes with
  | none => (s, [])
  | some d =>
    let s := { s with workspace := s.workspace.put d }
    (s.schedule uri, s.debug ("Document changed: " ++ uri))

def didSave (s : Session) (uri : String) : Session × List Event := (s.schedule uri, [])

/-- Closing a document drops its lint run and its diagnostics. -/
def didClose (s : Session) (uri : String) : Session × List Event :=
  ({ s with workspace := s.workspace.close uri, timers := Timer.cancel uri s.timers },
    [.published uri []])

def lintFailed (s : Session) (uri message : String) : List Event :=
  s.complain ("Linting failed for " ++ uri ++ ": " ++ message)

/-- Lint a text and publish what the linter finds. -/
def lintText (s : Session) (uri text : String) : List Event :=
  let result := Lint.lint s.process s.settings text (Uri.documentPath uri)
  let started : List Event := result.run.toList.map .ran ++ s.logged result.log
  match result.diagnostics s.settings.linter with
  | .error e => started ++ s.lintFailed uri e.message
  | .ok diagnostics =>
    started ++ [.published uri diagnostics]
      ++ s.debug ("Published " ++ toString diagnostics.length ++ " diagnostics for " ++ uri)

/-- What a timer does when it is due. -/
def fire (s : Session) (t : Timer) : List Event :=
  let text : Except Failure String := match t.text with
    | some text => .ok text
    | none => s.workspace.disk.read (Uri.documentPath t.uri)
  s.debug ("Linting " ++ t.uri) ++
    match text with
    | .error e => s.lintFailed t.uri e.message
    | .ok text => s.lintText t.uri text

/-- Let time pass. The timers that are due run one after the other. -/
def elapse (s : Session) (milliseconds : Nat) : Session × List Event :=
  let now := s.clock + milliseconds
  ({ s with clock := now, timers := Timer.finish now s.timers },
    (s.timers.filter (·.isDue now)).flatMap s.fire)

/-- What happens to a session. -/
inductive Notification where
  | opened (uri text : String)
  | changed (uri : String) (changes : List Change)
  | saved (uri : String)
  | closed (uri : String)
  | elapsed (milliseconds : Nat)
deriving Repr, DecidableEq, Inhabited

def step (s : Session) : Notification → Session × List Event
  | .opened uri text => s.didOpen uri text
  | .changed uri changes => s.didChange uri changes
  | .saved uri => s.didSave uri
  | .closed uri => s.didClose uri
  | .elapsed milliseconds => s.elapse milliseconds

/-- The definitions of what stands at a position of a document, none if there are none. Only a
document that cannot be read is a failure; any other is logged. -/
def definition (s : Session) (uri : String) (p : Position) :
    Except Failure (Option (List Location)) × List Event :=
  let requested := s.debug ("Definition requested: " ++ uri)
  match s.workspace.buffer uri with
  | .error e => (.error e, requested)
  | .ok b =>
    let world : World :=
      { project := s.projectFor (b.path.getD ""), workspace := s.workspace, trees := s.trees }
    let (result, context) := (Query.definition b (b.offsetAt p)).run world {}
    let events := requested ++ s.logged context.log
    match result with
    | .error e =>
      (.ok none, events ++ s.complain ("Definition failed for " ++ b.uri ++ ": " ++ e.message))
    | .ok [] => (.ok none, events)
    | .ok locations => (.ok (some locations), events)

end Session

end SolidityServer
