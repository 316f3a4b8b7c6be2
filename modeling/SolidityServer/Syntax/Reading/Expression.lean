import SolidityServer.Syntax.Reading.TypeName

/-! Concrete nodes as expressions and call arguments. -/

namespace SolidityServer.Site

def expressionIn (s : Site) (role : String) : Outline :=
  .orNull ((s.field role).bind Reading.expression)

def typeOutline (r : Option Reading) : Outline :=
  .orNull ((r.bind Reading.type).map TypeForm.toOutline)

def literalNode (s : Site) (value subdenomination : Outline) : Outline :=
  s.node .literal [(.value, value), (.subdenomination, subdenomination)]

def numberLiteral (s : Site) : Outline :=
  match s.firstOf ["number_unit"] with
  | some unit =>
    let value := s.source.slice { start := s.span.start, stop := unit.span.start }
    s.literalNode (.chars (Text.trim value)) (.chars (s.source.slice unit.span))
  | none => s.literalNode (.chars s.text) .null

def stringLiteral (s : Site) : Outline :=
  s.literalNode (.chars (s.named.flatMap fun c => Text.unquote (s.source.slice c.span))) .null

def memberAccess (s : Site) : Outline :=
  let property := (s.field "property").map fun p => identifierNode p.span (s.source.slice p.span)
  s.node .member [(.object, s.expressionIn "object"), (.property, .orNull property),
    (.computed, .flag false)]

def arrayAccess (s : Site) : Outline :=
  s.node .member
    [(.object, s.expressionIn "base"), (.property, s.expressionIn "index"), (.computed, .flag true)]

def sliceAccess (s : Site) : Outline :=
  s.node .indexRange
    [(.base, s.expressionIn "base"), (.indexStart, s.expressionIn "from"),
      (.indexEnd, s.expressionIn "to")]

def callNode (s : Site) (callee : Outline) (arguments : List Outline) : Outline :=
  s.node .call [(.callee, callee), (.arguments, .list arguments)]

def callExpression (s : Site) : Outline :=
  let callee := (s.field "function").or s.named.head?
  s.callNode (.orNull (callee.bind Reading.expression)) s.callArguments

def structExpression (s : Site) : Outline :=
  s.node .callOptions [(.expression, s.expressionIn "type"),
    (.options, .list ((s.ofKind "struct_field_assignment").flatMap Reading.namedValue))]

def newNode (span : Span) (target : Option Reading) : Outline :=
  .node .newExpression span [(.callee, typeOutline target)]

def newExpression (s : Site) : Outline :=
  let target := (s.field "name").or (s.firstOf ["type_name"])
  if s.callArguments.isEmpty && !s.hasToken "(" then newNode s.span target
  else
    let stop := (target.map (·.span.stop)).getD s.span.stop
    s.callNode (newNode { s.span with stop } target) s.callArguments

def typeCast (s : Site) : Outline :=
  s.callNode (typeOutline (s.firstOf ["primitive_type", "type_name"])) s.callArguments

def metaType (s : Site) : Outline :=
  let target := s.firstOf ["type_name", "primitive_type", "user_defined_type"]
  s.callNode (s.keywordNode "type") (target.toList.map fun t => typeOutline (some t))

def binaryExpression (s : Site) : Outline :=
  s.node .binary [(.operator, .chars (s.textOf (s.field "operator"))),
    (.left, s.expressionIn "left"), (.right, s.expressionIn "right")]

def assignmentExpression (s : Site) : Outline :=
  s.node .assignment [(.operator, .chars ((s.textOf? (s.field "operator")).getD ['='])),
    (.left, s.expressionIn "left"), (.right, s.expressionIn "right")]

/-- Whether the operator stands before its argument, which is also assumed if either is unknown. -/
def operatorLeads (s : Site) : Bool :=
  match s.field "operator", s.field "argument" with
  | some operator, some argument => operator.label.start < argument.label.start
  | _, _ => true

def unaryExpression (s : Site) (kind : Kind) : Outline :=
  s.node kind [(.operator, .chars (s.textOf (s.field "operator"))),
    (.argument, s.expressionIn "argument"), (.leading, .flag s.operatorLeads)]

def parts (s : Site) : List Outline := s.named.map fun c => .orNull c.expression

def ternaryExpression (s : Site) : Outline :=
  s.node .conditional [(.test, s.parts.getD 0 .null), (.consequent, s.parts.getD 1 .null),
    (.alternate, s.parts.getD 2 .null)]

def tupleExpression (s : Site) : Option Outline :=
  match s.named with
  | [c] =>
    if s.hasToken "," then some (s.node .sequence [(.expressions, .list s.parts)])
    else c.expression
  | _ => some (s.node .sequence [(.expressions, .list s.parts)])

/-- A node of no kind of its own means what its only part means. -/
def otherExpression (s : Site) : Option Outline :=
  match s.named with
  | [c] => c.expression
  | _ => some (s.node .base [])

def plainExpression (s : Site) : Option Outline :=
  match s.kind with
  | "identifier" => some (identifierNode s.span s.text)
  | "number_literal" => some s.numberLiteral
  | "string_literal" => some s.stringLiteral
  | "hex_string_literal" | "unicode_string_literal" => some (s.literalNode (.chars s.text) .null)
  | "boolean_literal" => some (s.literalNode (.flag (s.text == "true".toList)) .null)
  | "member_expression" => some s.memberAccess
  | "array_access" => some s.arrayAccess
  | "slice_access" => some s.sliceAccess
  | "call_expression" => some s.callExpression
  | "struct_expression" => some s.structExpression
  | "new_expression" => some s.newExpression
  | "type_cast_expression" => some s.typeCast
  | "payable_conversion_expression" => some (s.callNode (s.keywordNode "payable") s.callArguments)
  | "meta_type_expression" => some s.metaType
  | "binary_expression" => some s.binaryExpression
  | "assignment_expression" | "augmented_assignment_expression" => some s.assignmentExpression
  | "unary_expression" => some (s.unaryExpression .unary)
  | "update_expression" => some (s.unaryExpression .update)
  | "ternary_expression" => some s.ternaryExpression
  | "tuple_expression" => s.tupleExpression
  | "inline_array_expression" => some (s.node .array [(.elements, .list s.parts)])
  | "type_name" | "primitive_type" | "user_defined_type" => s.type.map TypeForm.toOutline
  | _ => s.otherExpression

/-- The site as an expression; errors and missing nodes are none. -/
def expression (s : Site) : Option Outline :=
  match s.wrapped? with
  | some c => c.expression
  | none => if s.label.isError || s.label.missing then none else s.plainExpression

/-- A name with a value, in call options or among the arguments of a call. -/
def namedValue (s : Site) : List Outline :=
  if s.kind == "call_struct_argument" || s.kind == "struct_field_assignment" then
    [s.node .namedArgument [(.name, s.name), (.value, s.expressionIn "value")]]
  else []

/-- What the site adds to the arguments of a call. Named arguments in braces stand on their own. -/
def arguments (s : Site) : List Outline :=
  match s.kind with
  | "revert_arguments" => s.callArguments
  | "call_argument" =>
    match s.ofKind "call_struct_argument" with
    | [] => (s.named.head?.bind Reading.expression).toList
    | named => named.flatMap Reading.namedValue
  | _ => []

end SolidityServer.Site
