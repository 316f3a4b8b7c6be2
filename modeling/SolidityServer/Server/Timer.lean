import SolidityServer.Editor.Workspace

/-! Lint runs that wait for a pause in typing. There is one timer for each address; scheduling a run
replaces the one before. -/

namespace SolidityServer

/-- A run that is due at some time. -/
structure Timer where
  uri : String
  /-- The text to lint; that of a document that is not open is read from disk when the run starts.
  -/
  text : Option String
  due : Nat
  finished : Bool := false
deriving Repr, DecidableEq, Inhabited

namespace Timer

/-- The milliseconds without a change before a document is linted. -/
def delay : Nat := 1000

def isDue (now : Nat) (t : Timer) : Bool := !t.finished && t.due ≤ now

/-- The timers without the one of an address. -/
def cancel (uri : String) (timers : List Timer) : List Timer := timers.filter (·.uri != uri)

/-- Schedule a run, in place of the one for the same address. Timers stand in the order of their due
times. -/
def schedule (now : Nat) (uri : String) (text : Option String) (timers : List Timer) : List Timer :=
  cancel uri timers ++ [{ uri, text, due := now + delay }]

/-- The timers after those that are due have run. -/
def finish (now : Nat) (timers : List Timer) : List Timer :=
  timers.map fun t => if t.isDue now then { t with finished := true } else t

end Timer

end SolidityServer
