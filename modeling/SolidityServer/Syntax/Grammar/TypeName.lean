import SolidityServer.Syntax.Phrase

/-! Type names, parameters and call arguments. -/

namespace SolidityServer.Grammar

open Phrase

/-- Whether `digits` is one of the numbers `step, 2 * step, …, largest`, in plain decimals. -/
def isSize (step largest : Nat) (digits : String) : Bool :=
  match digits.toNat? with
  | some n => 0 < n && n ≤ largest && n % step == 0 && toString n == digits
  | none => false

/-- Whether the text is `<digits>x<digits>`. -/
def isFixedPoint (text : String) : Bool :=
  match text.splitOn "x" with
  | [whole, fraction] =>
    !whole.isEmpty && !fraction.isEmpty && whole.all Char.isDigit && fraction.all Char.isDigit
  | _ => false

def dropStart (start text : String) : Option String :=
  if start.toList.isPrefixOf text.toList then some (String.ofList (text.toList.drop start.length))
  else none

/-- Whether a word names a built-in type. -/
def isPrimitive (word : String) : Bool :=
  ["address", "bool", "string", "var", "byte", "bytes", "int", "uint", "fixed",
    "ufixed"].contains word
    || ((dropStart "bytes" word).map (isSize 1 32)).getD false
    || ((dropStart "int" word).map (isSize 8 256)).getD false
    || ((dropStart "uint" word).map (isSize 8 256)).getD false
    || ((dropStart "fixed" word).map isFixedPoint).getD false
    || ((dropStart "ufixed" word).map isFixedPoint).getD false

def primitiveType : Phrase Concrete := do
  let t ← token fun t => t.cls == .word && isPrimitive t.text
  let payable ← if t.text == "address" then maybe (keyword "payable") else pure []
  return .around "primitive_type" (leaf t.text false t :: payable)

/-- Identifiers with points between them. -/
def dottedNames : Phrase (List Concrete) := do
  let first ← identifier
  let more ← many (do return [← mark ".", ← identifier])
  return first :: more.flatten

def userDefinedType : Phrase Concrete := do
  return .around "user_defined_type" (← dottedNames)

def visibility : Phrase Concrete :=
  oneKeyword "visibility" ["public", "internal", "private", "external"]

def stateMutability : Phrase Concrete :=
  oneKeyword "state_mutability" ["pure", "view", "payable"]

def dataLocation : Phrase Concrete :=
  role "location" (keyword "memory" <|> keyword "storage" <|> keyword "calldata")

def callArgument (inner : Inner) : Phrase Concrete := do
  if (← next) == "\x7b" then
    let argument : Phrase Concrete := do
      return .around "call_struct_argument"
        [← role "name" identifier, ← mark ":", ← role "value" (inner.expression true)]
    return .around "call_argument"
      ([← mark "\x7b"] ++ (← commaList? (single argument)) ++ [← mark "\x7d"])
  else
    return .around "call_argument" [← inner.expression true]

def callArguments (inner : Inner) : Phrase (List Concrete) := do
  return [← mark "("] ++ (← commaList? (single (callArgument inner))) ++ [← mark ")"]

def parameter (inner : Inner) : Phrase Concrete := do
  return .around "parameter"
    ([← role "type" inner.typeName] ++ (← maybe dataLocation) ++ (← maybe (role "name" identifier)))

def parameters (inner : Inner) : Phrase (List Concrete) := do
  return [← mark "("] ++ (← commaList? (single (parameter inner))) ++ [← mark ")"]

def returnParameter (inner : Inner) : Phrase Concrete := do
  return .around "return_parameter" ([← role "type" inner.typeName] ++ (← maybe dataLocation))

def mappingType (inner : Inner) : Phrase Concrete := do
  return .around "type_name" (
    [← keyword "mapping", ← mark "(", ← role "key_type" (primitiveType <|> userDefinedType)]
      ++ (← maybe (role "key_identifier" identifier))
      ++ [← mark "=>", ← role "value_type" inner.typeName]
      ++ (← maybe (role "value_identifier" identifier)) ++ [← mark ")"])

def functionType (inner : Inner) : Phrase Concrete := do
  let head ← keyword "function"
  let taken ← parameters inner
  let attributes ← many (visibility <|> stateMutability)
  let returned ← (do
    return [← keyword "returns", ← mark "("] ++ (← commaList (single (returnParameter inner)))
      ++ [← mark ")"])
    <|> pure []
  return .around "type_name"
    ([head] ++ taken.map (Concrete.inField "parameters") ++ attributes ++ returned)

/-- The type before any array brackets. -/
def plainType (inner : Inner) (user : Phrase Concrete) : Phrase Concrete := do
  match ← next with
  | "mapping" => mappingType inner
  | "function" => functionType inner
  | _ => return .around "type_name" [← primitiveType <|> user]

/-- The array brackets after a type. -/
def arraySuffix (inner : Inner) : Phrase (List Concrete) := do
  return [← mark "["] ++ (← maybe (inner.expression true)) ++ [← mark "]"]

def arrayOf (type : Concrete) (brackets : List Concrete) : Concrete :=
  .around "type_name" (type :: brackets)

def typeNameOver (inner : Inner) (user : Phrase Concrete) : Phrase Concrete := do
  let type ← plainType inner user
  return (← many (arraySuffix inner)).foldl arrayOf type

def typeName (inner : Inner) : Phrase Concrete := typeNameOver inner userDefinedType

end SolidityServer.Grammar
