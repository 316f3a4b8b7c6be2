import SolidityServer.Json.Double

/-! JSON values. The fields of an object keep the order in which they first appeared. -/

namespace SolidityServer

inductive Json where
  | null
  | bool (b : Bool)
  | int (n : Int)
  | real (d : Double)
  | str (s : String)
  | arr (items : List Json)
  | obj (fields : List (String × Json))
deriving Repr, Inhabited

namespace Json

/-- Set a field, in its old place if it had one. -/
def put (key : String) (value : Json) : List (String × Json) → List (String × Json)
  | [] => [(key, value)]
  | (k, v) :: fields => if k == key then (k, value) :: fields else (k, v) :: put key value fields

def get? : Json → String → Option Json
  | .obj fields, key => fields.lookup key
  | _, _ => none

def isList : Json → Bool
  | .arr _ => true
  | _ => false

def ofOption : Option Json → Json
  | some j => j
  | none => .null

def text? : Option String → Json
  | some s => .str s
  | none => .null

/-- Whether the value counts as given: neither null, false, zero nor empty. -/
def isGiven : Json → Bool
  | .null => false
  | .bool b => b
  | .int n => n != 0
  | .real d => !d.isZero
  | .str s => !s.isEmpty
  | .arr items => !items.isEmpty
  | .obj fields => !fields.isEmpty

end Json

end SolidityServer
