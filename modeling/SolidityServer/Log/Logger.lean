import SolidityServer.Log.Basic

/-! A logger that writes to a console and to the client of the server. -/

namespace SolidityServer

/-- How a client shows a message. -/
inductive MessageType where
  | error | warning | info | log
deriving Repr, DecidableEq, Inhabited

namespace MessageType

def number : MessageType → Nat
  | .error => 1
  | .warning => 2
  | .info => 3
  | .log => 4

def ofLevel (level : Level) : MessageType :=
  if Level.error ≤ level then .error
  else if Level.warning ≤ level then .warning
  else if Level.info ≤ level then .info
  else .log

end MessageType

/-- A message as the client gets it. -/
structure LogMessage where
  type : MessageType
  text : String
deriving Repr, DecidableEq, Inhabited

def Record.toMessage (r : Record) : LogMessage :=
  { type := .ofLevel r.level, text := r.level.name ++ " - " ++ r.message }

inductive Outlet where
  | console | client
deriving Repr, DecidableEq, Inhabited

structure Handler where
  outlet : Outlet
  level : Level
deriving Repr, DecidableEq, Inhabited

structure Client where
  /-- Whether sending to it fails. -/
  deaf : Bool
  received : List LogMessage := []
deriving Repr, DecidableEq, Inhabited

structure Logger where
  level : Level := Level.critical
  /-- Whether records go on to loggers above this one. -/
  propagate : Bool := true
  handlers : List Handler := []
  /-- The clients in the order in which they came; only the last one gets messages. -/
  clients : List Client := []
deriving Repr, DecidableEq, Inhabited

namespace Logger

/-- Set the level of the logger and of all its handlers. -/
def setLevel (l : Logger) (level : Level) : Logger :=
  { l with level, handlers := l.handlers.map fun h => { h with level } }

/-- Attach a client. The handlers are made with the first one and then kept. -/
def attach (l : Logger) (client : Client) (level : Level) : Logger :=
  let handlers :=
    if l.handlers.any (·.outlet == .client) then l.handlers
    else l.handlers ++ [{ outlet := .console, level := 0 }, { outlet := .client, level := 0 }]
  setLevel { l with propagate := false, handlers, clients := l.clients ++ [client] } level

/-- The level that records must reach. A logger without one of its own takes that of the loggers
above it. -/
def threshold (l : Logger) : Level := if l.level = 0 then Level.warning else l.level

/-- Whether records of a level are logged. Those of no positive level never are. -/
def admits (l : Logger) (level : Level) : Bool := 0 < level && l.threshold ≤ level

def Client.receive (c : Client) (m : LogMessage) : Client :=
  if c.deaf then c else { c with received := c.received ++ [m] }

/-- Give a message to the last client. -/
def deliver (m : LogMessage) : List Client → List Client
  | [] => []
  | [c] => [Client.receive c m]
  | c :: cs => c :: deliver m cs

/-- Log a record: each handler for the client passes it on if it reaches the level of the handler.
-/
def log (l : Logger) (r : Record) : Logger :=
  if l.admits r.level then
    l.handlers.foldl
      (fun l h =>
        if h.outlet == .client && h.level ≤ r.level then
          { l with clients := deliver r.toMessage l.clients }
        else l) l
  else l

end Logger

end SolidityServer
