import SolidityServer.Json.Basic
import SolidityServer.Text.Quoted

/-! JSON text of a value, in ASCII and without blanks. -/

namespace SolidityServer.Json

/-- The UTF-16 units of a character. -/
def units16 (c : Char) : List Nat :=
  let n := c.toNat
  if n < 0x10000 then [n] else [0xD800 + (n - 0x10000) / 0x400, 0xDC00 + (n - 0x10000) % 0x400]

def escape (c : Char) : List Char :=
  if c == '\x22' || c == '\\' then ['\\', c]
  else if 32 ≤ c.toNat && c.toNat < 127 then [c]
  else (units16 c).flatMap fun unit => '\\' :: 'u' :: Text.hex 4 unit

def writeText (s : String) : String :=
  "\"" ++ String.ofList (s.toList.flatMap escape) ++ "\""

def writeReal : Double → String
  | .nan => "NaN"
  | .infinite negative => if negative then "-Infinity" else "Infinity"
  | d => d.toText

mutual

def write : Json → String
  | .null => "null"
  | .bool b => if b then "true" else "false"
  | .int n => toString n
  | .real d => writeReal d
  | .str s => writeText s
  | .arr items => "[" ++ ",".intercalate (writeItems items) ++ "]"
  | .obj fields => "\x7b" ++ ",".intercalate (writeFields fields) ++ "\x7d"

def writeItems : List Json → List String
  | [] => []
  | j :: items => write j :: writeItems items

def writeFields : List (String × Json) → List String
  | [] => []
  | (key, j) :: fields => (writeText key ++ ":" ++ write j) :: writeFields fields

end

end SolidityServer.Json
