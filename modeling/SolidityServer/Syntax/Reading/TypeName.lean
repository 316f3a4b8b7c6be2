import SolidityServer.Syntax.Reading.Basic

/-! Concrete nodes as type names. -/

namespace SolidityServer.Site

def typeForm (s : Site) (literal : Outline) : TypeForm := { span := s.span, literal }

def mappingForm (s : Site) (key : Reading) : TypeForm :=
  let value := (s.field "value_type").bind Reading.type
  s.typeForm (s.node .mapping
    [(.source, .orNull (key.type.map TypeForm.toOutline)),
      (.to, .orNull (value.map TypeForm.toOutline))])

/-- An array takes the form of its element type, one part longer and as wide as the array. -/
def arrayForm (s : Site) (element : Reading) (size : Option Reading) : Option TypeForm :=
  element.type.map fun inner =>
    { inner with span := s.span, arrayParts := inner.arrayParts
      ++ [.orNull (size.bind Reading.expression)] }

def typeNameForm (s : Site) : Option TypeForm :=
  match s.field "key_type" with
  | some key => some (s.mappingForm key)
  | none =>
    match s.named with
    | element :: rest =>
      if s.hasToken "[" then s.arrayForm element rest.head?
      else if s.hasToken "function" then some (s.typeForm (.text "function"))
      else if rest.isEmpty then element.type
      else some (s.typeForm (.chars s.text))
    | [] =>
      if s.hasToken "function" then some (s.typeForm (.text "function"))
      else some (s.typeForm (.chars s.text))

def userTypeForm (s : Site) : TypeForm :=
  match s.names with
  | first :: rest => { span := s.span, literal := .chars first, members := rest }
  | [] => s.typeForm (.chars s.text)

/-- The site as a type name; anything unknown is named by its first word. -/
def type (s : Site) : Option TypeForm :=
  match s.wrapped? with
  | some c => c.type
  | none =>
    match s.kind with
    | "ERROR" => none
    | "type_name" => s.typeNameForm
    | "user_defined_type" => some s.userTypeForm
    | "identifier" => some (s.typeForm (.chars s.text))
    | _ => some (s.typeForm (.chars (Text.firstWord s.text)))

end SolidityServer.Site
