import SolidityServer.Syntax.Reading.Expression

/-! Concrete nodes as statements. -/

namespace SolidityServer.Site

def blockIn (s : Site) (role : String) : Outline := .orNull ((s.field role).bind Reading.block)

def statementIn (s : Site) (role : String) : Outline :=
  .orNull ((s.field role).bind Reading.statement)

def block (s : Site) : Option Outline :=
  if s.label.isError then none
  else some (s.node .block [(.body, .list (s.named.flatMap Reading.statements))])

def blockStatement (s : Site) : Option Outline :=
  if s.hasToken "unchecked" then some (s.node .unchecked [(.body, .orNull s.block)]) else s.block

def expressionStatement (s : Site) : Outline :=
  let head := s.named.head?
  if (head.map (s.source.slice ·.core)) == some ['_'] then s.node .placeholder []
  else s.node .expressionStatement [(.expression, .orNull (head.bind Reading.expression))]

def declarativeNode (s : Site) (location : Outline) : Outline :=
  s.node .declarative [(.name, s.name), (.literal, typeOutline (s.field "type")),
    (.storageLocation, location)]

def declared (s : Site) : List Outline :=
  if s.kind == "variable_declaration" then
    [s.declarativeNode (.chars? (s.textOf? (s.field "location")))]
  else []

def declarations (s : Site) : List Outline :=
  match s.kind with
  | "variable_declaration" => s.declared
  | "variable_declaration_tuple" => s.named.flatMap Reading.declared
  | _ => []

def variableDeclaration (s : Site) : Outline :=
  s.node .variableDeclaration [(.declarations, .list (s.named.flatMap Reading.declarations)),
    (.init, s.expressionIn "value")]

def ifStatement (s : Site) : Outline :=
  s.node .ifStatement [(.test, s.expressionIn "condition"), (.consequent, s.statementIn "body"),
    (.alternate, s.statementIn "else")]

/-- The condition of a loop header is a statement when it is not empty. -/
def loopTest (s : Site) : Outline :=
  .orNull ((s.field "condition").bind fun c =>
    if c.label.kind == "expression_statement" then c.headExpression else c.expression)

def forStatement (s : Site) : Outline :=
  s.node .forStatement [(.init, s.statementIn "initial"), (.test, s.loopTest),
    (.update, s.expressionIn "update"), (.body, s.statementIn "body")]

def parameter (s : Site) : List Outline :=
  if ["parameter", "event_parameter", "error_parameter", "return_parameter"].contains s.kind then
    [s.node .parameter [(.literal, typeOutline (s.field "type")),
      (.id, .chars? (s.textOf? (s.field "name"))),
      (.storageLocation, .chars? (s.textOf? (s.field "location"))),
      (.isIndexed, .flag (s.hasToken "indexed"))]]
  else []

def catchClause (s : Site) : List Outline :=
  if s.kind == "catch_clause" then
    [s.node .catchClause [(.identifier, .chars? (s.textOf? (s.firstOf ["identifier"]))),
      (.params, .list s.parameters), (.body, s.blockIn "body")]]
  else []

def tryStatement (s : Site) : Outline :=
  s.node .tryStatement [(.expression, s.expressionIn "attempt"),
    (.returnParams, .list ((s.ofKind "parameter").flatMap Reading.parameter)),
    (.body, s.blockIn "body"), (.catchClauses, .list (s.named.flatMap Reading.catchClause))]

/-- Where the arguments of a statement end: before its semicolon. -/
def argumentsEnd (s : Site) : Nat :=
  let text := Text.trimEnd Text.isBlank s.text
  if text.getLast? == some ';' then s.span.start + text.length - 1 else s.span.stop

/-- A call made by the statement itself. -/
def statementCall (s : Site) (callee : Outline) : Outline :=
  let start := (callee.span?.map Span.start).getD s.span.start
  .node .call { start, stop := max start s.argumentsEnd }
    [(.callee, callee), (.arguments, .list s.callArguments)]

def emitCall (s : Site) : Outline :=
  .orNull (((s.field "name").bind Reading.expression).map s.statementCall)

def revertCall (s : Site) : Outline :=
  match s.field "error" with
  | some error => .orNull (error.expression.map s.statementCall)
  | none => s.statementCall (s.keywordNode "revert")

/-- An expression that stands loose in a recovered block. -/
def looseStatement (s : Site) : Option Outline :=
  match s.expression with
  | some e => if e.isUnknown then none else some (s.node .expressionStatement [(.expression, e)])
  | none => none

def plainStatement (s : Site) : Option Outline :=
  match s.kind with
  | "block_statement" | "function_body" => s.blockStatement
  | "expression_statement" => some s.expressionStatement
  | "variable_declaration_statement" => some s.variableDeclaration
  | "if_statement" => some s.ifStatement
  | "for_statement" => some s.forStatement
  | "while_statement" =>
    some (s.node .whileStatement [(.test, s.expressionIn "condition"),
      (.body, s.statementIn "body")])
  | "do_while_statement" =>
    some (s.node .doWhileStatement [(.body, s.statementIn "body"),
      (.test, s.expressionIn "condition")])
  | "return_statement" =>
    some (s.node .returnStatement [(.argument, .orNull (s.named.head?.bind Reading.expression))])
  | "emit_statement" => some (s.node .emitStatement [(.expression, s.emitCall)])
  | "revert_statement" => some (s.node .revertStatement [(.expression, s.revertCall)])
  | "try_statement" => some s.tryStatement
  | "break_statement" => some (s.node .breakStatement [])
  | "continue_statement" => some (s.node .continueStatement [])
  | "assembly_statement" => some (s.node .assembly [])
  | _ => s.looseStatement

def statement (s : Site) : Option Outline :=
  match s.wrapped? with
  | some c => c.statement
  | none => s.plainStatement

end SolidityServer.Site
