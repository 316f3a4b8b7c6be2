import SolidityServer.Json.Basic

/-! The schema of syntax nodes: which kinds of node there are, which fields a node of each kind has
with their defaults, and which of those fields hold its children. -/

namespace SolidityServer

/-- Kinds of node. `base` stands for every node of a kind that the schema does not know. -/
inductive Kind where
  | base | program | pragma | importSymbol | importStatement | topLevel | contractLike | contract
  | library | interface | inheritance | using | type | mapping | stateVariable | parameter
  | function | modifier | modifierCall | event | error | declarative | struct | enum | userType
  | block | unchecked | expressionStatement | variableDeclaration | ifStatement | forStatement
  | whileStatement | doWhileStatement | returnStatement | emitStatement | revertStatement
  | tryStatement | catchClause | assembly | placeholder | breakStatement | continueStatement
  | throwStatement | identifier | literal | call | namedArgument | callOptions | member
  | indexRange | newExpression | unary | update | binary | assignment | conditional | sequence
  | array
deriving Repr, DecidableEq, Inhabited

/-- Fields of a node. The first four belong to every kind. -/
inductive Field where
  | tag | start | stop | parent | body | name | value | alias | source | symbols | bases
  | isAbstract | params | library | functions | target | isGlobal | literal | members
  | arrayParts | storageLocation | to | visibility | isConstant | isImmutable | id | isIndexed
  | kind | modifiers | returnParams | stateMutability | isVirtual | isAnonymous | expression
  | declarations | init | test | consequent | alternate | update | argument | catchClauses
  | identifier | subdenomination | callee | arguments | options | object | property | computed
  | base | indexStart | indexEnd | operator | leading | left | right | expressions | elements
deriving Repr, DecidableEq, Inhabited

/-- The name of a field in a typed node. -/
def Field.typedKey : Field → String
  | .tag => "ast_type"
  | .start => "start"
  | .stop => "end"
  | .parent => "parent"
  | .body => "body"
  | .name => "name"
  | .value => "value"
  | .alias => "alias"
  | .source => "from_"
  | .symbols => "symbols"
  | .bases => "is_"
  | .isAbstract => "is_abstract"
  | .params => "params"
  | .library => "library"
  | .functions => "functions"
  | .target => "for_"
  | .isGlobal => "is_global"
  | .literal => "literal"
  | .members => "members"
  | .arrayParts => "array_parts"
  | .storageLocation => "storage_location"
  | .to => "to"
  | .visibility => "visibility"
  | .isConstant => "is_constant"
  | .isImmutable => "is_immutable"
  | .id => "id"
  | .isIndexed => "is_indexed"
  | .kind => "kind"
  | .modifiers => "modifiers"
  | .returnParams => "return_params"
  | .stateMutability => "state_mutability"
  | .isVirtual => "is_virtual"
  | .isAnonymous => "is_anonymous"
  | .expression => "expression"
  | .declarations => "declarations"
  | .init => "init"
  | .test => "test"
  | .consequent => "consequent"
  | .alternate => "alternate"
  | .update => "update"
  | .argument => "argument"
  | .catchClauses => "catch_clauses"
  | .identifier => "identifier"
  | .subdenomination => "subdenomination"
  | .callee => "callee"
  | .arguments => "arguments"
  | .options => "options"
  | .object => "object"
  | .property => "property"
  | .computed => "computed"
  | .base => "base"
  | .indexStart => "index_start"
  | .indexEnd => "index_end"
  | .operator => "operator"
  | .leading => "prefix"
  | .left => "left"
  | .right => "right"
  | .expressions => "expressions"
  | .elements => "elements"

/-- The key of a field in an outline. -/
def Field.key : Field → String
  | .tag => "type"
  | .start => "start"
  | .stop => "end"
  | .parent => "parent"
  | .body => "body"
  | .name => "name"
  | .value => "value"
  | .alias => "alias"
  | .source => "from"
  | .symbols => "symbols"
  | .bases => "is"
  | .isAbstract => "is_abstract"
  | .params => "params"
  | .library => "library"
  | .functions => "functions"
  | .target => "for"
  | .isGlobal => "is_global"
  | .literal => "literal"
  | .members => "members"
  | .arrayParts => "array_parts"
  | .storageLocation => "storage_location"
  | .to => "to"
  | .visibility => "visibility"
  | .isConstant => "is_constant"
  | .isImmutable => "is_immutable"
  | .id => "id"
  | .isIndexed => "is_indexed"
  | .kind => "kind"
  | .modifiers => "modifiers"
  | .returnParams => "return_params"
  | .stateMutability => "state_mutability"
  | .isVirtual => "is_virtual"
  | .isAnonymous => "is_anonymous"
  | .expression => "expression"
  | .declarations => "declarations"
  | .init => "init"
  | .test => "test"
  | .consequent => "consequent"
  | .alternate => "alternate"
  | .update => "update"
  | .argument => "argument"
  | .catchClauses => "catch_clauses"
  | .identifier => "identifier"
  | .subdenomination => "subdenomination"
  | .callee => "callee"
  | .arguments => "arguments"
  | .options => "options"
  | .object => "object"
  | .property => "property"
  | .computed => "computed"
  | .base => "base"
  | .indexStart => "index_start"
  | .indexEnd => "index_end"
  | .operator => "operator"
  | .leading => "prefix"
  | .left => "left"
  | .right => "right"
  | .expressions => "expressions"
  | .elements => "elements"

def Kind.name : Kind → String
  | .base => "BaseNode"
  | .program => "Program"
  | .pragma => "PragmaStatement"
  | .importSymbol => "ImportSymbol"
  | .importStatement => "ImportStatement"
  | .topLevel => "TopLevel"
  | .contractLike => "ContractLike"
  | .contract => "ContractStatement"
  | .library => "LibraryStatement"
  | .interface => "InterfaceStatement"
  | .inheritance => "ModifierName"
  | .using => "UsingStatement"
  | .type => "Type"
  | .mapping => "MappingExpression"
  | .stateVariable => "StateVariableDeclaration"
  | .parameter => "InformalParameter"
  | .function => "FunctionDeclaration"
  | .modifier => "ModifierDeclaration"
  | .modifierCall => "ModifierArgument"
  | .event => "EventDeclaration"
  | .error => "ErrorDeclaration"
  | .declarative => "DeclarativeExpression"
  | .struct => "StructDeclaration"
  | .enum => "EnumDeclaration"
  | .userType => "UserDefinedTypeDeclaration"
  | .block => "BlockStatement"
  | .unchecked => "UncheckedStatement"
  | .expressionStatement => "ExpressionStatement"
  | .variableDeclaration => "VariableDeclaration"
  | .ifStatement => "IfStatement"
  | .forStatement => "ForStatement"
  | .whileStatement => "WhileStatement"
  | .doWhileStatement => "DoWhileStatement"
  | .returnStatement => "ReturnStatement"
  | .emitStatement => "EmitStatement"
  | .revertStatement => "RevertStatement"
  | .tryStatement => "TryStatement"
  | .catchClause => "CatchClause"
  | .assembly => "InlineAssemblyStatement"
  | .placeholder => "PlaceholderStatement"
  | .breakStatement => "BreakStatement"
  | .continueStatement => "ContinueStatement"
  | .throwStatement => "ThrowStatement"
  | .identifier => "Identifier"
  | .literal => "Literal"
  | .call => "CallExpression"
  | .namedArgument => "NamedArgument"
  | .callOptions => "FunctionCallOptions"
  | .member => "MemberExpression"
  | .indexRange => "IndexRangeAccess"
  | .newExpression => "NewExpression"
  | .unary => "UnaryExpression"
  | .update => "UpdateExpression"
  | .binary => "BinaryExpression"
  | .assignment => "AssignmentExpression"
  | .conditional => "ConditionalExpression"
  | .sequence => "SequenceExpression"
  | .array => "ArrayExpression"

/-- The kinds that can be named. -/
def Kind.all : List Kind := [
  .base, .program, .pragma, .importSymbol, .importStatement, .topLevel, .contractLike, .contract,
  .library, .interface, .inheritance, .using, .type, .mapping, .stateVariable, .parameter,
  .function, .modifier, .modifierCall, .event, .error, .declarative, .struct, .enum, .userType,
  .block, .unchecked, .expressionStatement, .variableDeclaration, .ifStatement, .forStatement,
  .whileStatement, .doWhileStatement, .returnStatement, .emitStatement, .revertStatement,
  .tryStatement, .catchClause, .assembly, .placeholder, .breakStatement, .continueStatement,
  .throwStatement, .identifier, .literal, .call, .namedArgument, .callOptions, .member,
  .indexRange, .newExpression, .unary, .update, .binary, .assignment, .conditional, .sequence,
  .array]

/-- The kind with a name, `base` if there is none. -/
def Kind.ofName (name : String) : Kind :=
  (Kind.all.find? (·.name == name)).getD .base

/-- The fields that a kind adds to the common ones, in order, with their defaults. -/
def Kind.fields : Kind → List (Field × Json)
  | .base | .assembly | .placeholder | .breakStatement | .continueStatement | .throwStatement =>
    []
  | .program | .block => [(.body, .arr [])]
  | .pragma => [(.name, .str ""), (.value, .str "")]
  | .importSymbol => [(.name, .str ""), (.alias, .null)]
  | .importStatement => [(.source, .str ""), (.alias, .null), (.symbols, .arr [])]
  | .topLevel | .struct => [(.name, .null), (.body, .arr [])]
  | .contractLike | .library | .interface => [(.name, .null), (.body, .arr []), (.bases, .arr [])]
  | .contract => [(.name, .null), (.body, .arr []), (.bases, .arr []), (.isAbstract, .bool false)]
  | .inheritance | .modifierCall => [(.name, .str ""), (.params, .arr [])]
  | .using =>
    [(.library, .null), (.functions, .arr []), (.target, .null), (.isGlobal, .bool false)]
  | .type =>
    [(.literal, .null), (.members, .arr []), (.arrayParts, .arr []), (.storageLocation, .null)]
  | .mapping => [(.source, .null), (.to, .null)]
  | .stateVariable =>
    [(.name, .null), (.literal, .null), (.visibility, .null), (.isConstant, .bool false),
      (.isImmutable, .bool false), (.value, .null)]
  | .parameter =>
    [(.literal, .null), (.id, .null), (.storageLocation, .null), (.isIndexed, .bool false)]
  | .function =>
    [(.name, .null), (.kind, .str "function"), (.params, .arr []), (.modifiers, .arr []),
      (.returnParams, .arr []), (.body, .null), (.visibility, .null), (.stateMutability, .null),
      (.isVirtual, .bool false)]
  | .modifier => [(.name, .null), (.params, .arr []), (.body, .null)]
  | .event => [(.name, .null), (.params, .arr []), (.isAnonymous, .bool false)]
  | .error => [(.name, .null), (.params, .arr [])]
  | .declarative => [(.name, .null), (.literal, .null), (.storageLocation, .null)]
  | .enum => [(.name, .null), (.members, .arr [])]
  | .userType => [(.name, .null), (.literal, .null)]
  | .unchecked => [(.body, .null)]
  | .expressionStatement | .emitStatement | .revertStatement => [(.expression, .null)]
  | .variableDeclaration => [(.declarations, .arr []), (.init, .null)]
  | .ifStatement | .conditional => [(.test, .null), (.consequent, .null), (.alternate, .null)]
  | .forStatement => [(.init, .null), (.test, .null), (.update, .null), (.body, .null)]
  | .whileStatement => [(.test, .null), (.body, .null)]
  | .doWhileStatement => [(.body, .null), (.test, .null)]
  | .returnStatement => [(.argument, .null)]
  | .tryStatement =>
    [(.expression, .null), (.returnParams, .arr []), (.body, .null), (.catchClauses, .arr [])]
  | .catchClause => [(.identifier, .null), (.params, .arr []), (.body, .null)]
  | .identifier => [(.name, .str "")]
  | .literal => [(.value, .null), (.subdenomination, .null)]
  | .call => [(.callee, .null), (.arguments, .arr [])]
  | .namedArgument => [(.name, .str ""), (.value, .null)]
  | .callOptions => [(.expression, .null), (.options, .arr [])]
  | .member => [(.object, .null), (.property, .null), (.computed, .bool false)]
  | .indexRange => [(.base, .null), (.indexStart, .null), (.indexEnd, .null)]
  | .newExpression => [(.callee, .null)]
  | .unary => [(.operator, .str ""), (.argument, .null), (.leading, .bool true)]
  | .update => [(.operator, .str ""), (.argument, .null), (.leading, .bool false)]
  | .binary => [(.operator, .str ""), (.left, .null), (.right, .null)]
  | .assignment => [(.operator, .str "="), (.left, .null), (.right, .null)]
  | .sequence => [(.expressions, .arr [])]
  | .array => [(.elements, .arr [])]

/-- The fields that hold the children of a node, in the order in which children are visited. -/
def Kind.slots : Kind → List Field
  | .program | .struct | .block | .unchecked => [.body]
  | .contractLike | .contract | .library | .interface => [.bases, .body]
  | .inheritance | .modifierCall | .event | .error => [.params]
  | .using => [.target]
  | .type => [.literal, .arrayParts]
  | .mapping => [.source, .to]
  | .stateVariable => [.literal, .value]
  | .parameter | .declarative | .userType => [.literal]
  | .function => [.params, .modifiers, .returnParams, .body]
  | .modifier | .catchClause => [.params, .body]
  | .expressionStatement | .emitStatement | .revertStatement => [.expression]
  | .variableDeclaration => [.declarations, .init]
  | .ifStatement | .conditional => [.test, .consequent, .alternate]
  | .forStatement => [.init, .test, .update, .body]
  | .whileStatement => [.test, .body]
  | .doWhileStatement => [.body, .test]
  | .returnStatement | .unary | .update => [.argument]
  | .tryStatement => [.expression, .returnParams, .body, .catchClauses]
  | .call => [.callee, .arguments]
  | .namedArgument => [.value]
  | .callOptions => [.expression, .options]
  | .member => [.object, .property]
  | .indexRange => [.base, .indexStart, .indexEnd]
  | .newExpression => [.callee]
  | .binary | .assignment => [.left, .right]
  | .sequence => [.expressions]
  | .array => [.elements]
  | _ => []

/-- Whether a node of kind `k` counts as one of kind `above`: every kind is a `base`, and contracts,
libraries and interfaces are `contractLike`, which is itself a `topLevel`. -/
def Kind.isA (k above : Kind) : Bool :=
  k == above || above == .base
    || (above == .contractLike && (k == .contract || k == .library || k == .interface))
    || (above == .topLevel && (k == .contractLike || k == .contract || k == .library
      || k == .interface))

end SolidityServer
