import SolidityServer.Syntax.Grammar.Statement

/-! Declarations and whole source files. Comments are left out of the trees: nothing that is read
off a tree depends on them. -/

namespace SolidityServer.Grammar

open Phrase

def nameRole : Phrase Concrete := role "name" identifier

def pragmaDirective : Phrase Concrete := do
  return leaf "pragma_directive" true (← token fun t => t.cls == .pragma)

def aliasPart : Phrase (List Concrete) :=
  (do return [← keyword "as", ← role "alias" identifier]) <|> pure []

def importName : Phrase (List Concrete) := do
  return (← role "import_name" identifier) :: (← aliasPart)

def importClause : Phrase (List Concrete) := do
  match ← next with
  | "*" => return (← mark "*") :: (← aliasPart)
  | "\x7b" => return [← mark "\x7b"] ++ (← commaList? importName) ++ [← mark "\x7d"]
  | _ => importName

def sourceString : Phrase Concrete := role "source" stringNode

def importDirective : Phrase Concrete := do
  let head ← keyword "import"
  let whole : Phrase (List Concrete) := do return (← sourceString) :: (← aliasPart)
  let parts : Phrase (List Concrete) := do
    return (← importClause) ++ [← keyword "from", ← sourceString]
  return .around "import_directive" ([head] ++ (← whole <|> parts) ++ [← mark ";"])

def usingAlias : Phrase Concrete := do
  let operator : Phrase (List Concrete) := do
    let as ← keyword "as"
    let t ← token fun t => t.cls == .symbol
    return [as, .around "user_definable_operator" [leaf t.text false t]]
  return .around "using_alias" ([← userDefinedType] ++ (← operator <|> pure []))

def usingDirective (inner : Inner) : Phrase Concrete := do
  let head ← keyword "using"
  let many : Phrase (List Concrete) := do
    return [← mark "\x7b"] ++ (← commaList (single usingAlias)) ++ [← mark "\x7d"]
  let one : Phrase (List Concrete) := do return [.around "type_alias" (← dottedNames)]
  let used ← many <|> one
  let connective ← keyword "for"
  let anything : Phrase Concrete := do return .around "any_source_type" [← mark "*"]
  let target ← role "source" (anything <|> inner.typeName)
  return .around "using_directive"
    ([head] ++ used ++ [connective, target] ++ (← maybe (keyword "global")) ++ [← mark ";"])

def structDeclaration (inner : Inner) : Phrase Concrete := do
  let member : Phrase Concrete := do
    return .around "struct_member" [← role "type" inner.typeName, ← nameRole, ← mark ";"]
  let body : Phrase Concrete := do return .around "struct_body" (← braced member)
  return .around "struct_declaration" [← keyword "struct", ← nameRole, ← role "body" body]

def enumDeclaration : Phrase Concrete := do
  let value : Phrase Concrete := do return leaf "enum_value" true (← token fun t => t.cls == .word)
  let body : Phrase Concrete := do
    return .around "enum_body" ([← mark "\x7b"] ++ (← commaList? (single value)) ++ [← mark "\x7d"])
  return .around "enum_declaration" [← keyword "enum", ← nameRole, ← role "body" body]

def eventDefinition (inner : Inner) : Phrase Concrete := do
  let parameter : Phrase Concrete := do
    return .around "event_parameter"
      ([← role "type" inner.typeName] ++ (← maybe (keyword "indexed")) ++ (← maybe nameRole))
  return .around "event_definition"
    ([← keyword "event", ← nameRole, ← mark "("] ++ (← commaList? (single parameter))
      ++ [← mark ")"] ++ (← maybe (keyword "anonymous")) ++ [← mark ";"])

def errorDeclaration (inner : Inner) : Phrase Concrete := do
  let parameter : Phrase Concrete := do
    return .around "error_parameter" ([← role "type" inner.typeName] ++ (← maybe nameRole))
  return .around "error_declaration"
    ([← keyword "error", ← nameRole, ← mark "("] ++ (← commaList? (single parameter))
      ++ [← mark ")", ← mark ";"])

def userDefinedTypeDefinition : Phrase Concrete := do
  return .around "user_defined_type_definition"
    [← keyword "type", ← nameRole, ← keyword "is", ← primitiveType, ← mark ";"]

def constantDeclaration (inner : Inner) : Phrase Concrete := do
  return .around "constant_variable_declaration"
    ([← role "type" inner.typeName, ← keyword "constant", ← nameRole] ++ (← value inner)
      ++ [← mark ";"])

def overrideSpecifier : Phrase Concrete := do
  let head ← keyword "override"
  let overridden ← (do
    return [← mark "("] ++ (← commaList (single userDefinedType)) ++ [← mark ")"]) <|> pure []
  return .around "override_specifier" ([head] ++ overridden)

def stateVariable (inner : Inner) : Phrase Concrete := do
  let type ← role "type" inner.typeName
  let quality : Phrase Concrete :=
    role "visibility" visibility <|> keyword "constant" <|> overrideSpecifier
      <|> namedKeyword "immutable" <|> role "location" (oneKeyword "state_location" ["transient"])
  let attributes ← many quality
  let name ← nameRole
  let value ← value inner <|> pure []
  return .around "state_variable_declaration"
    ([type] ++ attributes ++ [name] ++ value ++ [← mark ";"])

def modifierInvocation (inner : Inner) : Phrase Concrete := do
  return .around "modifier_invocation" ((← dottedNames) ++ (← callArguments inner <|> pure []))

/-- A word that starts something else in the head of a function, so that no modifier has its name.
-/
def endsHead (word : String) : Bool := word == "returns"

def functionAttribute (inner : Inner) : Phrase Concrete := do
  if endsHead (← next) then failure
  visibility <|> stateMutability <|> namedKeyword "virtual" <|> overrideSpecifier
    <|> modifierInvocation inner

def bodyOrEnd (inner : Inner) : Phrase Concrete := mark ";" <|> role "body" (functionBody inner)

def functionDefinition (inner : Inner) : Phrase Concrete := do
  let head ← keyword "function"
  let name ← nameRole
  let taken ← parameters inner
  let attributes ← many (functionAttribute inner)
  let returned ← maybe (role "return_type" (do
    return .around "return_type_definition" ([← keyword "returns"] ++ (← parameters inner))))
  return .around "function_definition"
    ([head, name] ++ taken ++ attributes ++ returned ++ [← bodyOrEnd inner])

def constructorDefinition (inner : Inner) : Phrase Concrete := do
  let head ← keyword "constructor"
  let taken ← parameters inner
  let quality := keyword "payable" <|> keyword "internal" <|> keyword "public"
    <|> modifierInvocation inner
  let attributes ← many quality
  return .around "constructor_definition"
    ([head] ++ taken ++ attributes ++ [← role "body" (functionBody inner)])

/-- A function that is run when no other fits; in old sources it is a function without a name. -/
def fallbackDefinition (inner : Inner) : Phrase Concrete := do
  let head ← keyword "fallback" <|> keyword "receive" <|> keyword "function"
  let taken ← parameters inner
  let attributes ← many (functionAttribute inner)
  let returned ← (do return [← keyword "returns"] ++ (← parameters inner)) <|> pure []
  return .around "fallback_receive_definition"
    ([head] ++ taken ++ attributes ++ returned ++ [← bodyOrEnd inner])

def modifierDefinition (inner : Inner) : Phrase Concrete := do
  let head ← keyword "modifier"
  let name ← nameRole
  let taken ← parameters inner <|> pure []
  let attributes ← many (namedKeyword "virtual" <|> overrideSpecifier)
  return .around "modifier_definition" ([head, name] ++ taken ++ attributes ++ [← bodyOrEnd inner])

/-- Whether the next word is followed by a parenthesis, as in a function type. -/
def parenthesisFollows : Phrase Bool := do
  match ← get with
  | _ :: t :: _ => return t.cls == .symbol && t.text == "("
  | _ => return false

def contractMember (inner : Inner) : Phrase Concrete := do
  match ← next with
  | "\x7d" => failure
  | "function" =>
    if ← parenthesisFollows then stateVariable inner <|> fallbackDefinition inner
    else functionDefinition inner
  | "modifier" => modifierDefinition inner
  | "constructor" => constructorDefinition inner
  | "fallback" | "receive" => fallbackDefinition inner
  | "struct" => structDeclaration inner
  | "enum" => enumDeclaration
  | "event" => eventDefinition inner
  | "error" => errorDeclaration inner
  | "using" => usingDirective inner
  | "type" => userDefinedTypeDefinition
  | _ => stateVariable inner

def contractBody (inner : Inner) : Phrase Concrete :=
  role "body" (do return .around "contract_body" (← braced (contractMember inner)))

def inheritanceSpecifier (inner : Inner) : Phrase Concrete := do
  let ancestor ← role "ancestor" userDefinedType
  let arguments ← callArguments inner <|> pure []
  return .around "inheritance_specifier"
    (ancestor :: arguments.map (Concrete.inField "ancestor_arguments"))

def heritage (inner : Inner) : Phrase (List Concrete) := do
  return [← keyword "is"] ++ (← commaList (single (inheritanceSpecifier inner)))

def layoutSpecifier (inner : Inner) : Phrase (List Concrete) := do
  return [.around "layout_specifier" [← keyword "layout", ← keyword "at", ← inner.expression false]]

def contractDeclaration (inner : Inner) : Phrase Concrete := do
  let head := (← maybe (keyword "abstract")) ++ [← keyword "contract", ← nameRole]
  let parts ← many (heritage inner <|> layoutSpecifier inner)
  return .around "contract_declaration" (head ++ parts.flatten ++ [← contractBody inner])

def interfaceDeclaration (inner : Inner) : Phrase Concrete := do
  let head := [← keyword "interface", ← nameRole]
  let bases ← heritage inner <|> pure []
  return .around "interface_declaration" (head ++ bases ++ [← contractBody inner])

def libraryDeclaration (inner : Inner) : Phrase Concrete := do
  return .around "library_declaration" [← keyword "library", ← nameRole, ← contractBody inner]

def fileMember (inner : Inner) : Phrase Concrete := do
  match ← next with
  | "" => pragmaDirective
  | "import" => importDirective
  | "using" => usingDirective inner
  | "abstract" | "contract" => contractDeclaration inner
  | "interface" => interfaceDeclaration inner
  | "library" => libraryDeclaration inner
  | "struct" => structDeclaration inner
  | "enum" => enumDeclaration
  | "function" =>
    if ← parenthesisFollows then constantDeclaration inner else functionDefinition inner
  | "error" => errorDeclaration inner
  | "event" => eventDefinition inner
  | "type" => userDefinedTypeDefinition
  | _ => constantDeclaration inner

/-- Readers for constructs that nest at most `n` levels. -/
def within : Nat → Inner
  | 0 => { expression := fun _ => failure, typeName := failure, statement := failure }
  | n + 1 =>
    let inner := within n
    { expression := expression inner, typeName := typeName inner, statement := statement inner }

/-- Deeper brackets are not read. -/
def nestingLimit : Nat := 3000

/-- A tree that is one error, for a text outside the grammar. -/
def unreadable (text : String) : Concrete :=
  .node { kind := "ERROR", named := true, start := 0, stop := text.utf8ByteSize } []

/-- The tree of a source file. There is none if the brackets nest too deep. -/
def sourceFile? (text : String) : Option Concrete :=
  let tokens := Token.ofText text
  if nestingLimit < Token.bracketDepth tokens then none
  else
    let inner := within (min tokens.length (2 * nestingLimit) + 1)
    match (many (fileMember inner)).run tokens with
    | some (members, []) =>
      let label := { kind := "source_file", named := true, start := 0, stop := text.utf8ByteSize }
      some (.node label members)
    | _ => some (unreadable text)

end SolidityServer.Grammar
