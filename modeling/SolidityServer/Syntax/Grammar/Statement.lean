import SolidityServer.Syntax.Grammar.Expression

/-! Statements. A statement that starts with a type and a name after it declares a variable, and
any other that no keyword opens is an expression. -/

namespace SolidityServer.Grammar

open Phrase

def braced (item : Phrase Concrete) : Phrase (List Concrete) := do
  return [← mark "\x7b"] ++ (← many item) ++ [← mark "\x7d"]

def functionBody (inner : Inner) : Phrase Concrete := do
  return .around "function_body" (← braced inner.statement)

def blockStatement (inner : Inner) : Phrase Concrete := do
  return .around "block_statement"
    ((← maybe (namedKeyword "unchecked")) ++ (← braced inner.statement))

def variableDeclaration (inner : Inner) : Phrase Concrete := do
  return .around "variable_declaration"
    ([← role "type" inner.typeName] ++ (← maybe dataLocation) ++ [← role "name" identifier])

/-- Declarations in parentheses, or names after `var`. -/
def declarationTuple (inner : Inner) : Phrase Concrete := do
  if (← next) == "var" then
    return .around "variable_declaration_tuple"
      ([← keyword "var", ← mark "("] ++ (← gapList identifier) ++ [← mark ")"])
  else
    return .around "variable_declaration_tuple"
      ([← mark "("] ++ (← gapList (variableDeclaration inner)) ++ [← mark ")"])

def value (inner : Inner) : Phrase (List Concrete) := do
  return [← mark "=", ← role "value" (inner.expression true)]

def declarationStatement (inner : Inner) : Phrase Concrete := do
  let tuple : Phrase (List Concrete) := do
    return [← declarationTuple inner] ++ (← value inner)
  let one : Phrase (List Concrete) := do
    let declaration ← variableDeclaration inner
    return [declaration] ++ (← value inner <|> pure [])
  return .around "variable_declaration_statement" ((← tuple <|> one) ++ [← mark ";"])

def expressionStatement (inner : Inner) : Phrase Concrete := do
  return .around "expression_statement" [← inner.expression true, ← mark ";"]

/-- Words that open an expression and so name no type at the start of a statement. -/
def opensExpression (word : String) : Bool :=
  ["delete", "new", "type", "payable", "true", "false", "hex", "unicode"].contains word

def simpleStatement (inner : Inner) : Phrase Concrete := do
  if opensExpression (← next) then expressionStatement inner
  else declarationStatement inner <|> expressionStatement inner

def condition (inner : Inner) : Phrase (List Concrete) := do
  return [← mark "(", ← role "condition" (inner.expression true), ← mark ")"]

def body (inner : Inner) : Phrase Concrete := role "body" inner.statement

def ifStatement (inner : Inner) : Phrase Concrete := do
  let head ← keyword "if"
  let test ← condition inner
  let yes ← body inner
  let no ← (do return [← role "else" (keyword "else"), ← body inner]) <|> pure []
  return .around "if_statement" ([head] ++ test ++ [yes] ++ no)

def forStatement (inner : Inner) : Phrase Concrete := do
  let head ← keyword "for"
  let left ← mark "("
  let first ← role "initial" (mark ";" <|> simpleStatement inner)
  let test ← role "condition" (mark ";" <|> expressionStatement inner)
  let update ← maybe (role "update" (inner.expression true))
  return .around "for_statement"
    ([head, left, first, test] ++ update ++ [← mark ")", ← body inner])

def whileStatement (inner : Inner) : Phrase Concrete := do
  return .around "while_statement" ([← keyword "while"] ++ (← condition inner) ++ [← body inner])

def doWhileStatement (inner : Inner) : Phrase Concrete := do
  return .around "do_while_statement"
    ([← keyword "do", ← body inner, ← keyword "while"] ++ (← condition inner) ++ [← mark ";"])

def returnStatement (inner : Inner) : Phrase Concrete := do
  return .around "return_statement"
    ([← keyword "return"] ++ (← maybe (inner.expression true)) ++ [← mark ";"])

def breakStatement : Phrase Concrete := do
  return .around "break_statement" [← keyword "break", ← mark ";"]

def continueStatement : Phrase Concrete := do
  return .around "continue_statement" [← keyword "continue", ← mark ";"]

/-- The callee and the argument list of an expression that is a call. -/
def splitCall? (e : Concrete) : Option (Concrete × List Concrete) :=
  match e.children with
  | [call] =>
    match call.label.kind, call.children with
    | "call_expression", callee :: arguments => some (callee, arguments)
    | _, _ => none
  | _ => none

/-- The last argument list belongs to the statement. -/
def emitStatement (inner : Inner) : Phrase Concrete := do
  let head ← keyword "emit"
  match splitCall? (← inner.expression true) with
  | some (name, arguments) =>
    return .around "emit_statement" ([head, name.inField "name"] ++ arguments ++ [← mark ";"])
  | none => failure

def revertStatement (inner : Inner) : Phrase Concrete := do
  let head ← keyword "revert"
  let bare : Phrase (List Concrete) := single (mark ";")
  let unnamed : Phrase (List Concrete) := do
    return [.around "revert_arguments" [← mark "(", ← mark ")"], ← mark ";"]
  let named : Phrase (List Concrete) := do
    let error ← inner.expression true
    let parts := match splitCall? error with
      | some (callee, arguments) => [callee.inField "error", .around "revert_arguments" arguments]
      | none => [error.inField "error"]
    return parts ++ [← mark ";"]
  return .around "revert_statement" (head :: (← bare <|> unnamed <|> named))

def catchClause (inner : Inner) : Phrase Concrete := do
  let head ← keyword "catch"
  let caught ← (do return (← maybe identifier) ++ (← parameters inner)) <|> pure []
  return .around "catch_clause" ([head] ++ caught ++ [← role "body" (blockStatement inner)])

def tryStatement (inner : Inner) : Phrase Concrete := do
  let head ← keyword "try"
  let attempt ← role "attempt" (inner.expression false)
  let returned ← (do return [← keyword "returns"] ++ (← parameters inner)) <|> pure []
  let body ← role "body" (blockStatement inner)
  return .around "try_statement"
    ([head, attempt] ++ returned ++ [body] ++ (← many1 (catchClause inner)))

/-- Take tokens through the brace that closes `depth` open ones; the last token is the result. -/
def closingBrace : Nat → List Token → Option (Token × List Token)
  | _, [] => none
  | depth, t :: rest =>
    if t.text == "\x7b" then closingBrace (depth + 1) rest
    else if t.text == "\x7d" then
      if depth ≤ 1 then some (t, rest) else closingBrace (depth - 1) rest
    else closingBrace depth rest

/-- Assembly is kept as one piece. -/
def assemblyStatement : Phrase Concrete := do
  let head ← token fun t => t.cls == .word && t.text == "assembly"
  let last ← closingBrace 0
  return .node
    { kind := "assembly_statement", named := true, start := head.start, stop := last.stop }
    [leaf "assembly" false head]

def plainStatement (inner : Inner) : Phrase Concrete := do
  match ← next with
  | "\x7b" | "unchecked" => blockStatement inner
  | "if" => ifStatement inner
  | "for" => forStatement inner
  | "while" => whileStatement inner
  | "do" => doWhileStatement inner
  | "return" => returnStatement inner
  | "break" => breakStatement
  | "continue" => continueStatement
  | "emit" => emitStatement inner
  | "revert" => revertStatement inner
  | "try" => tryStatement inner
  | "assembly" => assemblyStatement
  | _ => simpleStatement inner

def statement (inner : Inner) : Phrase Concrete := do
  return .around "statement" [← plainStatement inner]

end SolidityServer.Grammar
