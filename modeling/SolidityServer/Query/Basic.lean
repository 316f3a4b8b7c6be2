import SolidityServer.Editor.Workspace
import SolidityServer.Log.Basic
import SolidityServer.Project
import SolidityServer.Syntax.Parse

/-! Queries: what they can look at, and what they learn while they run. A query that fails keeps
what it has learnt. -/

namespace SolidityServer

/-- What a query can look at. -/
structure World where
  project : Project
  workspace : Workspace
  trees : Trees

/-- A source file as a query sees it. Its buffer is opened and its tree built on first use. -/
structure Module where
  path : String
  buffer : Option Buffer := none
  /-- The tree once the text is parsed, if there is a usable one. -/
  program : Option (Option Node) := none
deriving Inhabited

/-- A module's number in the order in which modules came up. -/
abbrev ModuleId := Nat

/-- A search for a declaration among the imports of a file. -/
structure Search where
  path : String
  name : Option String
  kind : String
deriving Repr, DecidableEq, Inhabited

structure Context where
  modules : Array Module := #[]
  /-- The module of each path that was loaded. -/
  known : List (String × ModuleId) := []
  active : List Search := []
  /-- The paths asked for, in order. -/
  opened : List String := []
  log : List Record := []
deriving Inhabited

namespace Context

def moduleOf (c : Context) (m : ModuleId) : Module := c.modules.getD m default

def known? (c : Context) (path : String) : Option ModuleId := c.known.lookup path

/-- Add a module under its path, in place of the one known there. -/
def add (c : Context) (m : Module) : ModuleId × Context :=
  (c.modules.size,
    { c with
      modules := c.modules.push m
      known := (m.path, c.modules.size) :: c.known.filter (·.1 != m.path) })

/-- The module known under a path, a new one if there is none. -/
def register (c : Context) (path : String) : ModuleId × Context :=
  match c.known? path with
  | some m => (m, c)
  | none => c.add { path }

def update (c : Context) (m : ModuleId) (f : Module → Module) : Context :=
  { c with modules := c.modules.modify m f }

end Context

abbrev Query := ReaderT World (ExceptT Failure (StateM Context))

namespace Query

variable {α : Type}

def run (q : Query α) (w : World) (c : Context) : Except Failure α × Context := (q w).run c

def note (message : String) : Query Unit :=
  modify fun c => { c with log := c.log ++ [{ level := Level.debug, message }] }

/-- The outcome of a query, of a failed one too. -/
def attempt (q : Query α) : Query (Except Failure α) :=
  tryCatch (do return .ok (← q)) fun e => return .error e

def lift (r : Except Failure α) : Query α :=
  match r with
  | .ok a => pure a
  | .error e => throw e

def moduleOf (m : ModuleId) : Query Module := return (← get).moduleOf m

def isFile (path : String) : Query Bool := do lift ((← read).workspace.disk.isFile path)

/-- Open the file at a path. -/
def openFile (path : String) : Query Buffer := do
  modify fun c => { c with opened := c.opened ++ [path] }
  let b ← lift ((← read).workspace.bufferAt path)
  note ("Opened buffer " ++ b.uri)
  return b

/-- Run a query while a search counts as active. -/
def during (s : Search) (q : Query α) : Query α := fun w c =>
  let (result, c) := q.run w { c with active := c.active ++ [s] }
  (result, { c with active := c.active.filter (· != s) })

end Query

end SolidityServer
