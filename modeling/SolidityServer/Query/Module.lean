import SolidityServer.Query.Basic

/-! Modules: their text and tree, their imports, and the module set that a query searches. -/

namespace SolidityServer.Query

/-- The module of a buffer that is open already. -/
def ofBuffer (b : Buffer) : Query ModuleId := do
  let (m, c) := (← get).add { path := Path.normalize (b.path.getD ""), buffer := some b }
  set c
  return m

def buffer (m : ModuleId) : Query Buffer := do
  let self ← moduleOf m
  match self.buffer with
  | some b => return b
  | none =>
    let b ← openFile self.path
    modify fun c => c.update m fun self => { self with buffer := some b }
    return b

/-- The tree of a text, with what there is to note about its parse. -/
def parse (text : String) : Query (Option Node) := do
  let outcome := parseOutline (← read).trees text
  outcome.notes.forM note
  return outcome.tree?.bind Outline.toNode?

/-- The tree of a module, also one recovered around errors. -/
def program (m : ModuleId) : Query (Option Node) := do
  match (← moduleOf m).program with
  | some program => return program
  | none =>
    let program ← parse (← buffer m).text
    modify fun c => c.update m fun self => { self with program := some program }
    if program.isNone then note ("No usable syntax tree for " ++ (← moduleOf m).path)
    return program

/-- The top-level statements of a module, none if it has no usable tree. -/
def statements (m : ModuleId) : Query (Option (List Node)) := do
  return (← program m).map fun n => (n.get .body).nodes

/-- The specifiers of the imports among some statements. -/
def importsOf (statements : List Node) : List String :=
  (statements.filter (·.kind == .importStatement)).map fun n => (n.get .source).text?.getD ""

def imports (m : ModuleId) : Query (List String) := do
  return importsOf ((← statements m).getD [])

/-- The module that an import means, none if there is no such file. -/
def load (specifier importer : String) : Query (Option ModuleId) := do
  let path := (← read).project.importTarget specifier importer
  match (← get).known? path with
  | some m => return some m
  | none =>
    if ← isFile path then
      let (m, c) := (← get).register path
      set c
      return some m
    else
      note ("Import " ++ Text.quoted specifier ++ " from " ++ importer ++ " is not a file: "
        ++ path)
      return none

/-- Drop the modules whose path was seen before. -/
def distinct (c : Context) (seen : List String) : List ModuleId → List ModuleId
  | [] => []
  | m :: ms =>
    let path := (c.moduleOf m).path
    if seen.contains path then distinct c seen ms else m :: distinct c (path :: seen) ms

/-- A module and its direct imports, in the order of the import statements. The imports are loaded
side by side, so one that fails keeps none from being loaded. -/
def moduleSet (m : ModuleId) : Query (List ModuleId) := do
  let path := (← moduleOf m).path
  let loads ← (← imports m).mapM fun specifier => attempt (load specifier path)
  let found ← loads.mapM lift
  return m :: distinct (← get) [path] (found.filterMap id)

end SolidityServer.Query
