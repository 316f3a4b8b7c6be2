import SolidityServer.Syntax.Reading.Statement

/-! Concrete nodes as declarations, in a contract or in a file. -/

namespace SolidityServer.Site

def flagOf (s : Site) (token : String) : Outline := .flag (s.hasToken token)

def flagOfNode (s : Site) (kind : String) : Outline := .flag (s.firstOf [kind]).isSome

def textOfFirst (s : Site) (kind : String) : Outline := .chars? (s.textOf? (s.firstOf [kind]))

/-- What the directive requires, and how. -/
def pragma (s : Site) : Outline :=
  let body := Text.dropStart "pragma".toList (Text.trim s.text)
  let body := Text.trim (Text.trimEnd (· == ';') body)
  s.node .pragma [(.name, .chars (Text.before [' '] body)),
    (.value, .chars (Text.trim (Text.after [' '] body)))]

/-- An imported symbol and the name it is given here. -/
structure Symbol where
  span : Span
  name : List Char
  localName : Option (List Char) := none

def Symbol.toOutline (y : Symbol) : Outline :=
  .node .importSymbol y.span [(.name, .chars y.name), (.alias, .chars? y.localName)]

/-- An import directive as far as it has been read; the last symbol comes first. -/
structure ImportParts where
  path : List Char := []
  localName : Option (List Char) := none
  symbols : List Symbol := []
  inBraces : Bool := false

/-- An alias inside braces belongs to the symbol before it. -/
def ImportParts.withAlias (p : ImportParts) (given : List Char) (stop : Nat) : ImportParts :=
  match p.inBraces, p.symbols with
  | true, last :: earlier =>
    let span := { last.span with stop }
    { p with symbols := { last with localName := some given, span } :: earlier }
  | _, _ => { p with localName := some given }

def ImportParts.add (source : SourceText) (p : ImportParts) (c : Reading) : ImportParts :=
  if c.label.kind == "\x7b" then { p with inBraces := true }
  else if c.label.kind == "\x7d" then { p with inBraces := false }
  else match c.label.field with
  | some "source" => { p with path := Text.unquote (source.slice c.span) }
  | some "import_name" =>
    { p with symbols := { span := c.span, name := source.slice c.span } :: p.symbols }
  | some "alias" => p.withAlias (source.slice c.span) c.span.stop
  | _ => p

def importStatement (s : Site) : Outline :=
  let p := s.children.foldl (ImportParts.add s.source) {}
  s.node .importStatement [(.source, .chars p.path), (.alias, .chars? p.localName),
    (.symbols, .list (p.symbols.reverse.map Symbol.toOutline))]

def inheritance (s : Site) : List Outline :=
  if s.kind == "inheritance_specifier" then
    let ancestor := (s.field "ancestor").or (s.firstOf ["user_defined_type"])
    let name := (ancestor.map (Reading.pathName s.source)).getD []
    [s.node .inheritance [(.name, .chars name), (.params, .list s.callArguments)]]
  else []

/-- The fields that contracts, libraries and interfaces share. -/
def containerFields (s : Site) : List (Field × Outline) :=
  let body := (s.field "body").or (s.firstOf ["contract_body"])
  [(.name, s.name), (.body, .list ((body.map Reading.body).getD [])),
    (.bases, .list (s.named.flatMap Reading.inheritance))]

def contract (s : Site) : Outline :=
  s.node .contract (s.containerFields ++ [(.isAbstract, s.flagOf "abstract")])

def modifierCall (s : Site) : List Outline :=
  if s.kind == "modifier_invocation" then
    let name := if s.names.isEmpty then s.text else ['.'].intercalate s.names
    [s.node .modifierCall [(.name, .chars name), (.params, .list s.callArguments)]]
  else []

/-- What kind of function the site is, and its name. -/
def functionHead (s : Site) : String × Outline :=
  match s.kind with
  | "constructor_definition" => ("constructor", .null)
  | "fallback_receive_definition" => (if s.hasToken "receive" then "receive" else "fallback", .null)
  | _ =>
    match s.textOf (s.field "name") with
    | [] => ("function", .null)
    | name => ("function", .chars name)

def function (s : Site) : Outline :=
  let returned := (s.field "return_type").or (s.firstOf ["return_type_definition"])
  s.node .function [(.name, s.functionHead.2), (.kind, .text s.functionHead.1),
    (.params, .list s.parameters), (.modifiers, .list (s.named.flatMap Reading.modifierCall)),
    (.returnParams, .list ((returned.map Reading.parameters).getD [])), (.body, s.blockIn "body"),
    (.visibility, s.textOfFirst "visibility"), (.stateMutability, s.textOfFirst "state_mutability"),
    (.isVirtual, s.flagOfNode "virtual")]

def modifier (s : Site) : Outline :=
  s.node .modifier [(.name, s.name), (.params, .list s.parameters), (.body, s.blockIn "body")]

def stateVariable (s : Site) : Outline :=
  s.node .stateVariable [(.name, s.name), (.literal, typeOutline (s.field "type")),
    (.visibility, s.textOfFirst "visibility"),
    (.isConstant, .flag (s.kind == "constant_variable_declaration" || s.hasToken "constant")),
    (.isImmutable, s.flagOfNode "immutable"), (.value, s.expressionIn "value")]

/-- Whether members are looked for inside. -/
def isBody (kind : String) : Bool := "_body".toList.isSuffixOf kind.toList || kind == "ERROR"

def structMembers (s : Site) : List Outline :=
  if s.kind == "struct_member" then [s.declarativeNode .null]
  else if isBody s.kind then s.named.flatMap Reading.structMembers
  else []

def enumValues (s : Site) : List (List Char) :=
  if s.kind == "enum_value" then [s.text]
  else if isBody s.kind then s.named.flatMap Reading.enumValues
  else []

def struct (s : Site) : Outline :=
  s.node .struct [(.name, s.name), (.body, .list (s.named.flatMap Reading.structMembers))]

def enum (s : Site) : Outline :=
  s.node .enum [(.name, s.name), (.members, .texts (s.named.flatMap Reading.enumValues))]

def event (s : Site) : Outline :=
  s.node .event [(.name, s.name), (.params, .list s.parameters),
    (.isAnonymous, s.flagOf "anonymous")]

def error (s : Site) : Outline := s.node .error [(.name, s.name), (.params, .list s.parameters)]

def userType (s : Site) : Outline :=
  s.node .userType [(.name, s.name),
    (.literal, typeOutline ((s.field "value").or (s.firstOf ["primitive_type"])))]

/-- A using directive as far as it has been read. -/
structure UsingParts where
  library : Option (List Char) := none
  functions : List (List Char) := []
  target : Option TypeForm := none
  afterFor : Bool := false

def UsingParts.add (source : SourceText) (braces : Bool) (p : UsingParts) (c : Reading) :
    UsingParts :=
  let text := source.slice c.span
  if c.label.kind == "for" then { p with afterFor := true }
  else if !c.label.named || c.label.isComment then p
  else if p.afterFor then
    if p.target.isNone && c.label.kind == "type_name" then { p with target := c.type } else p
  else if c.label.kind == "using_alias" then
    { p with functions := p.functions ++ [Text.trim (Text.before " as ".toList text)] }
  else if braces then { p with functions := p.functions ++ [Text.trim text] }
  else if p.library.isNone then { p with library := some (Text.trim text) }
  else p

def usingDirective (s : Site) : Outline :=
  let p := s.children.foldl (UsingParts.add s.source (s.hasToken "\x7b")) {}
  s.node .using [(.library, .chars? p.library), (.functions, .texts p.functions),
    (.target, .orNull (p.target.map TypeForm.toOutline)), (.isGlobal, s.flagOf "global")]

/-- The site as a member of a contract. -/
def member (s : Site) : Option Outline :=
  match s.kind with
  | "function_definition" | "constructor_definition" | "fallback_receive_definition" =>
    some s.function
  | "modifier_definition" => some s.modifier
  | "state_variable_declaration" | "constant_variable_declaration" => some s.stateVariable
  | "struct_declaration" => some s.struct
  | "enum_declaration" => some s.enum
  | "event_definition" => some s.event
  | "error_declaration" => some s.error
  | "user_defined_type_definition" => some s.userType
  | "using_directive" => some s.usingDirective
  | _ => none

/-- The site as a part of a file. -/
def unit (s : Site) : Option Outline :=
  match s.kind with
  | "pragma_directive" => some s.pragma
  | "import_directive" => some s.importStatement
  | "contract_declaration" => some s.contract
  | "library_declaration" => some (s.node .library s.containerFields)
  | "interface_declaration" => some (s.node .interface s.containerFields)
  | _ => s.member

end SolidityServer.Site
