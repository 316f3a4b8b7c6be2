import SolidityServer.Editor.Location
import SolidityServer.Query.Module

/-! Finding declarations by name. There is no type inference: every declaration with the name and a
fitting kind counts. -/

namespace SolidityServer.Query

/-- What can be invoked like a function. -/
def calleeKinds : List Kind := [.function, .event, .struct, .enum, .modifier, .error]

def typeKinds : List Kind := [.struct, .enum]

/-- The declarations whose members are searched by name. -/
def memberScopes : List Kind := [.contract, .library]

def containerKinds : List Kind := [.contract, .library, .interface]

def body (n : Node) : List Node := (n.get .body).nodes

/-- The first statement of a kind with a name. -/
def findStatement (statements : List Node) (name : Option String) (kind : Kind) : Option Node :=
  statements.find? fun n => n.kind.isA kind && n.name? == name

/-- Where a search among the imports of a module ended: the module that declares the name with its
statements and the declaration, or the module itself without one. -/
structure DirectImport where
  owner : ModuleId
  statements : List Node
  node : Option Node := none
  location : Option Location := none
deriving Inhabited

/-- The declaration of a name in a module. -/
def declaration (m : ModuleId) (statements : List Node) (n : Node) : Query DirectImport := do
  return { owner := m, statements, node := some n, location := some (.ofNode (← buffer m) n) }

/-- Search the files of some specifiers one after the other, each file once. -/
def searchImports (importer : String) (name : Option String) (kind : Kind) (visited : List String) :
    List String → Query (Option DirectImport)
  | [] => return none
  | specifier :: specifiers => do
    match ← load specifier importer with
    | none => searchImports importer name kind visited specifiers
    | some m =>
      let path := (← moduleOf m).path
      if visited.contains path then searchImports importer name kind visited specifiers
      else
        match ← statements m with
        | none => searchImports importer name kind (path :: visited) specifiers
        | some found =>
          match findStatement found name kind with
          | none => searchImports importer name kind (path :: visited) specifiers
          | some n => return some (← declaration m found n)

/-- Find a top-level declaration in a module or else in one of its direct imports. -/
def directImport (m : ModuleId) (name : Option String) (kind : Kind) : Query DirectImport := do
  let own := (← statements m).getD []
  match findStatement own name kind with
  | some n => declaration m own n
  | none =>
    let path := (← moduleOf m).path
    let search : Search := { path, name, kind := kind.name }
    if (← get).active.contains search then
      note ("Import cycle while looking up " ++ kind.name ++ " " ++ name.getD "None")
      return { owner := m, statements := own }
    else
      let found ← during search do searchImports path name kind [path] (← imports m)
      return found.getD { owner := m, statements := own }

/-- The locations of what `extract` picks from the contracts and libraries of some modules. -/
def members (modules : List ModuleId) (extract : Node → List Node) : Query (List Location) := do
  let found ← modules.mapM fun m => do
    let scopes := ((← statements m).getD []).filter (memberScopes.contains ·.kind)
    match scopes.flatMap extract with
    | [] => return []
    | picked =>
      let b ← buffer m
      return picked.map (Location.ofNode b)
  return Location.unique found.flatten

/-- The members of some kinds with a name. -/
def membersNamed (kinds : List Kind) (name : Option String) (scope : Node) : List Node :=
  (body scope).filter fun n => kinds.contains n.kind && n.name? == name

/-- The invocable members of a contract or library with a name, and a contract of that name. -/
def calleesNamed (name : Option String) (scope : Node) : List Node :=
  membersNamed calleeKinds name scope
    ++ if scope.kind == .contract && scope.name? == name then [scope] else []

def resolveCallee (modules : List ModuleId) (name : Option String) : Query (List Location) :=
  members modules (calleesNamed name)

def resolveVariable (modules : List ModuleId) (name : Option String) : Query (List Location) :=
  members modules (membersNamed [.stateVariable] name)

/-- A type name to resolve: a simple name, or an owner with the names of members after it. -/
structure TypeRef where
  name : Option String
  members : List String
  /-- Where the name stands. -/
  start : Int
deriving Repr, DecidableEq, Inhabited

/-- The scopes in which a simple type name is looked up, the innermost first. -/
def typeScopes (statements : List Node) (start : Int) (fileLevel : Bool) : List (List Node) :=
  let enclosing := match nodeAt? statements start with
    | some n => if containerKinds.contains n.kind then [body n] else []
    | none => []
  if fileLevel then enclosing ++ [statements] else enclosing

/-- The struct, or else the enum, with a name in the first scope that has one. -/
def findType (scopes : List (List Node)) (name : Option String) : Option Node :=
  scopes.findSome? fun scope => typeKinds.findSome? (findStatement scope name)

/-- Resolve a simple type name: in the declaration around it, among the file-level declarations, and
else in all modules. -/
def resolveSimpleType (m : ModuleId) (statements : List Node) (name : Option String) (start : Int)
    (modules : List ModuleId) (fileLevel : Bool) : Query (List Location) := do
  match findType (typeScopes statements start fileLevel) name with
  | some n => return [.ofNode (← buffer m) n]
  | none => members modules (membersNamed typeKinds name)

/-- Resolve a type name. The owner of a member is a contract or else a library. -/
def resolveType (m : ModuleId) (statements : List Node) (ref : TypeRef) (modules : List ModuleId)
    (fileLevel : Bool) : Query (List Location) := do
  match ref.members with
  | [] => resolveSimpleType m statements ref.name ref.start modules fileLevel
  | member :: _ =>
    let asContract ← directImport m ref.name .contract
    let found ← if asContract.node.isSome then pure asContract else directImport m ref.name .library
    match found.node with
    | none => return []
    | some n => resolveSimpleType found.owner found.statements (some member) n.start modules false

end SolidityServer.Query
