import SolidityServer.Json.Basic
import SolidityServer.Text.Quoted

/-! How values are shown to people, in messages and settings. -/

namespace SolidityServer.Json

mutual

/-- A value as it stands inside another one. -/
def shown : Json → String
  | .null => "None"
  | .bool b => if b then "True" else "False"
  | .int n => toString n
  | .real d => d.toText
  | .str s => Text.quoted s
  | .arr items => "[" ++ ", ".intercalate (shownItems items) ++ "]"
  | .obj fields => "\x7b" ++ ", ".intercalate (shownFields fields) ++ "\x7d"

def shownItems : List Json → List String
  | [] => []
  | j :: items => shown j :: shownItems items

def shownFields : List (String × Json) → List String
  | [] => []
  | (key, j) :: fields => (Text.quoted key ++ ": " ++ shown j) :: shownFields fields

end

/-- A value as a text of its own: a string needs no quotes. -/
def display : Json → String
  | .str s => s
  | j => shown j

end SolidityServer.Json
