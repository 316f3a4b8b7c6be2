import SolidityServer.Query.Reference

/-! Definitions of what is under the cursor. -/

namespace SolidityServer.Query

/-- The first of some kinds as which a name is declared at top level. -/
def resolveTop (m : ModuleId) (name : Option String) : List Kind → Query (List Location)
  | [] => return []
  | kind :: kinds => do
    match (← directImport m name kind).location with
    | some l => return [l]
    | none => resolveTop m name kinds

/-- Where a reference in a module leads. -/
def resolve (m : ModuleId) (statements : List Node) (modules : List ModuleId) :
    Reference → Query (List Location)
  | .nothing => return []
  | .ancestor name => resolveTop m name [.contract, .interface]
  | .library name => resolveTop m name [.library]
  | .type ref => resolveType m statements ref modules true
  | .callee name => resolveCallee modules name
  | .variable name => resolveVariable modules name
  | .member name => do
    let found ← resolveVariable modules name
    return found ++ (← resolveCallee modules name)

/-- The file that an import statement means. -/
def resolveImport (b : Buffer) (n : Node) : Query (List Location) := do
  let specifier := (n.get .source).text?.getD ""
  let path := (← read).project.importTarget specifier (b.path.getD "")
  if ← isFile path then
    match Uri.ofPath? path with
    | none => throw (.noAddress path)
    | some uri =>
      return [.startOf uri (Location.specifierRange? b n.start n.stop specifier)]
  else
    note ("Import target is not a file: " ++ path)
    return []

/-- The declarations that the element at an offset of a document refers to. -/
def definition (b : Buffer) (offset : Int) : Query (List Location) := do
  let m ← ofBuffer b
  match ← statements m with
  | none =>
    note ("No syntax tree for " ++ b.uri)
    return []
  | some statements =>
    match nodeAt? statements offset with
    | none => return []
    | some n =>
      if n.kind == .importStatement then resolveImport b n
      else if containerKinds.contains n.kind then
        resolve m statements (← moduleSet m) (containerReference offset n)
      else return []

end SolidityServer.Query
