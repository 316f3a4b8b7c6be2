import SolidityServer.Syntax.Grammar.TypeName

/-! Expressions. Calls and postfix operators bind tightest, then prefix operators, then binary
operators by level, and loosest but for assignments the ternary operator together with member
access, index access and call options: those three take everything read so far as their base. -/

namespace SolidityServer.Grammar

open Phrase

/-- The level of a binary operator, smaller for tighter. -/
def binaryLevel? (text : String) : Option Nat :=
  match text with
  | "**" => some 3
  | "*" | "/" | "%" => some 4
  | "+" | "-" => some 5
  | "<<" | ">>" => some 6
  | "&" => some 7
  | "^" => some 8
  | "|" => some 9
  | "<" | "<=" | ">" | ">=" => some 10
  | "==" | "!=" => some 11
  | "&&" => some 12
  | "||" => some 13
  | _ => none

def unaryLevel : Nat := 2

def ternaryLevel : Nat := 14

def isAugmented (text : String) : Bool :=
  ["+=", "-=", "*=", "/=", "%=", "^=", "&=", "|=", ">>=", "<<="].contains text

def isUnit (word : String) : Bool :=
  ["wei", "szabo", "finney", "gwei", "ether", "seconds", "minutes", "hours", "days", "weeks",
    "years"].contains word

def wrap (c : Concrete) : Concrete := .around "expression" [c]

/-- An operator that still waits for what stands on its right. -/
inductive Pending where
  | unary (operator : Concrete)
  | binary (level : Nat) (left operator : Concrete)
  | choice (parts : List Concrete)
deriving Inhabited

def Pending.level : Pending → Nat
  | .unary _ => unaryLevel
  | .binary level _ _ => level
  | .choice _ => ternaryLevel

def Pending.close (operand : Concrete) : Pending → Concrete
  | .unary operator =>
    let kind :=
      if ["++", "--"].contains operator.label.kind then "update_expression" else "unary_expression"
    wrap (.around kind [operator.inField "operator", operand.inField "argument"])
  | .binary _ left operator =>
    wrap (.around "binary_expression"
      [left.inField "left", operator.inField "operator", operand.inField "right"])
  | .choice parts => wrap (.around "ternary_expression" (parts ++ [operand]))

/-- Close the innermost pending operators that bind at least as tight as `level`. -/
def closeTo (level : Nat) : List Pending → Concrete → List Pending × Concrete
  | [], operand => ([], operand)
  | p :: pending, operand =>
    if p.level ≤ level then closeTo level pending (p.close operand) else (p :: pending, operand)

def closeAll (pending : List Pending) (operand : Concrete) : Concrete :=
  pending.foldl (fun operand p => p.close operand) operand

/-- The loosest level that is pending. -/
def loosest? (pending : List Pending) : Option Nat := (pending.map Pending.level).max?

/-- Whether the token binds tighter than an operator of the given level. -/
def bindsTighter (t : Token) (level : Nat) : Bool :=
  t.cls == .symbol &&
    (["(", "++", "--"].contains t.text || (binaryLevel? t.text).any (· < level))

def quotedString (t : Token) : Concrete :=
  let quote := String.ofList (t.text.toList.take 1)
  .node { kind := "string", named := true, start := t.start, stop := t.stop }
    [.node { kind := quote, named := false, start := t.start, stop := t.start + 1 } [],
     .node { kind := quote, named := false, start := t.stop - 1, stop := t.stop } []]

def isQuoted (t : Token) : Bool := t.cls == .quoted

def stringNode : Phrase Concrete := do return quotedString (← token isQuoted)

def stringLiteral : Phrase Concrete := do
  return .around "string_literal" (← many1 stringNode)

/-- Strings that each follow a keyword, such as those of hexadecimal digits. -/
def taggedString (tag kind : String) : Phrase Concrete := do
  let part : Phrase (List Concrete) := do
    return [← keyword tag, leaf "string" false (← token isQuoted)]
  return .around kind (← many1 part).flatten

def numberLiteral : Phrase Concrete := do
  let number ← token fun t => t.cls == .number
  let unit ← maybe (token fun t => t.cls == .word && isUnit t.text)
  let stop := (unit.head?.map Token.stop).getD number.stop
  return .node { kind := "number_literal", named := true, start := number.start, stop }
    (unit.map fun t => .around "number_unit" [leaf t.text false t])

def booleanLiteral (word : String) : Phrase Concrete := do
  let value ← keyword word
  return .around "boolean_literal" [.around word [value]]

/-- Parts between commas that may be left out. -/
def gapList (item : Phrase Concrete) : Phrase (List Concrete) := do
  let first ← maybe item
  let more ← many (do return [← mark ","] ++ (← maybe item))
  return first ++ more.flatten

def parenthesized (inner : Inner) : Phrase Concrete := do
  let left ← mark "("
  let parts ← gapList (inner.expression true)
  let right ← mark ")"
  let kind := match parts with
    | [part] => if part.label.named then "parenthesized_expression" else "tuple_expression"
    | _ => "tuple_expression"
  return .around kind ([left] ++ parts ++ [right])

def inlineArray (inner : Inner) : Phrase Concrete := do
  return .around "inline_array_expression"
    ([← mark "["] ++ (← commaList? (single (inner.expression true))) ++ [← mark "]"])

def metaType (inner : Inner) : Phrase Concrete := do
  return .around "meta_type_expression" [← keyword "type", ← mark "(", ← inner.typeName, ← mark ")"]

/-- The type after `new` has no points: `new A.B(1)` calls the member `B` of `new A`. -/
def newExpression (inner : Inner) : Phrase Concrete := do
  let user : Phrase Concrete := do return .around "user_defined_type" [← identifier]
  return .around "new_expression" [← keyword "new", ← role "name" (typeNameOver inner user)]

def payableConversion (inner : Inner) : Phrase Concrete := do
  return .around "payable_conversion_expression" ([← keyword "payable"] ++ (← callArguments inner))

/-- A built-in type, or a cast to it. -/
def typeOrCast (inner : Inner) : Phrase Concrete := do
  let type ← primitiveType
  if (← next) == "(" then
    return .around "type_cast_expression" (type :: (← callArguments inner))
  else return type

def primary (inner : Inner) : Phrase Concrete := do
  match ← peek? with
  | none => failure
  | some t =>
    match t.cls with
    | .number => numberLiteral
    | .quoted => stringLiteral
    | .pragma => failure
    | .symbol =>
      match t.text with
      | "(" => parenthesized inner
      | "[" => inlineArray inner
      | _ => failure
    | .word =>
      match t.text with
      | "true" => booleanLiteral "true"
      | "false" => booleanLiteral "false"
      | "hex" => taggedString "hex" "hex_string_literal"
      | "unicode" => taggedString "unicode" "unicode_string_literal"
      | "payable" => payableConversion inner
      | "type" => metaType inner
      | "new" => newExpression inner
      | word => if isPrimitive word then typeOrCast inner else identifier

def unaryOperator : Phrase Concrete := do
  let t ← token fun t =>
    (t.cls == .symbol && ["!", "-", "~", "++", "--"].contains t.text)
      || (t.cls == .word && t.text == "delete")
  return leaf t.text false t

/-- An identifier and the member after it read as one operand, unless what follows binds tighter
than an operator pending on the left. -/
def tightMember (pending : List Pending) (object : Concrete) : Phrase Concrete := do
  let point ← mark "."
  let property ← role "property" identifier
  let loose := match loosest? pending, ← peek? with
    | some level, some t => bindsTighter t level
    | _, _ => false
  if loose then failure
  else return wrap (.around "member_expression" [object.inField "object", point, property])

/-- Prefix operators, then a primary expression. -/
def operand (inner : Inner) (pending : List Pending) : Phrase (List Pending × Concrete) := do
  let operators ← many unaryOperator
  let pending := operators.foldl (fun pending operator => .unary operator :: pending) pending
  let base ← primary inner
  if base.label.kind == "identifier" then
    let whole ← tightMember pending base <|> pure (wrap base)
    return (pending, whole)
  else return (pending, wrap base)

/-- The index, or the two ends of a slice, between brackets. -/
def bracketSuffix (inner : Inner) (base : Concrete) : Phrase Concrete := do
  let left ← mark "["
  let first ← maybe (inner.expression true)
  if (← next) == ":" then
    let colon ← mark ":"
    let last ← maybe (role "to" (inner.expression true))
    return .around "slice_access"
      ([base.inField "base", left] ++ first.map (Concrete.inField "from") ++ [colon] ++ last
        ++ [← mark "]"])
  else
    return .around "array_access"
      ([base.inField "base", left] ++ first.map (Concrete.inField "index") ++ [← mark "]"])

def structSuffix (inner : Inner) (base : Concrete) : Phrase Concrete := do
  let field : Phrase Concrete := do
    return .around "struct_field_assignment"
      [← role "name" identifier, ← mark ":", ← role "value" (inner.expression true)]
  return .around "struct_expression"
    ([base.inField "type", ← mark "\x7b"] ++ (← commaList? (single field)) ++ [← mark "\x7d"])

/-- Whether the tokens open a brace with a named value in it. -/
def startsNamedValue : List Token → Bool
  | _ :: name :: colon :: _ => name.cls == .word && colon.cls == .symbol && colon.text == ":"
  | _ => false

/-- Read on from an operand. Every round takes a token, so the number of tokens bounds them. -/
def climb (inner : Inner) (braces : Bool) : Nat → List Pending → Concrete → Phrase Concrete
  | 0, _, _ => failure
  | n + 1, pending, current => do
    let finish : Phrase Concrete := pure (closeAll pending current)
    match ← peek? with
    | none => finish
    | some t =>
      if t.cls != .symbol then finish
      else match t.text with
      | "(" =>
        let call := Concrete.around "call_expression"
          (current.inField "function" :: (← callArguments inner))
        climb inner braces n pending (wrap call)
      | "++" | "--" =>
        let operator ← mark t.text
        let update := Concrete.around "update_expression"
          [current.inField "argument", operator.inField "operator"]
        climb inner braces n pending (wrap update)
      | "." =>
        let base := closeAll pending current
        let member := Concrete.around "member_expression"
          [base.inField "object", ← mark ".", ← role "property" identifier]
        climb inner braces n [] (wrap member)
      | "[" => do climb inner braces n [] (wrap (← bracketSuffix inner (closeAll pending current)))
      | "\x7b" =>
        if braces || startsNamedValue (← get) then
          climb inner braces n [] (wrap (← structSuffix inner (closeAll pending current)))
        else finish
      | "?" =>
        let test := closeAll pending current
        let parts := [test, ← mark "?", ← inner.expression true, ← mark ":"]
        let (pending, current) ← operand inner [.choice parts]
        climb inner braces n pending current
      | "=" =>
        let assignment := Concrete.around "assignment_expression"
          [(closeAll pending current).inField "left", ← mark "=",
            ← role "right" (inner.expression braces)]
        return wrap assignment
      | text =>
        match binaryLevel? text with
        | some level =>
          let (pending, left) := closeTo level pending current
          let operator ← mark text
          let (pending, current) ← operand inner (.binary level left operator :: pending)
          climb inner braces n pending current
        | none =>
          if isAugmented text then
            let assignment := Concrete.around "augmented_assignment_expression"
              [(closeAll pending current).inField "left", ← mark text,
                ← role "right" (inner.expression braces)]
            return wrap assignment
          else finish

def expression (inner : Inner) (braces : Bool) : Phrase Concrete := do
  let (pending, current) ← operand inner []
  climb inner braces ((← get).length + 1) pending current

end SolidityServer.Grammar
