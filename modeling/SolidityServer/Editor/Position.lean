/-! Positions in a document, as an editor counts them. -/

namespace SolidityServer

/-- How an editor counts the characters of a line. -/
inductive Encoding where
  | utf8 | utf16 | utf32
deriving Repr, DecidableEq, Inhabited

namespace Encoding

/-- The encoding with a name; UTF-16 for any other name. -/
def ofName (name : String) : Encoding :=
  match name with
  | "utf-8" => .utf8
  | "utf-32" => .utf32
  | _ => .utf16

/-- How many units a character counts. -/
def width (e : Encoding) (c : Char) : Nat :=
  match e with
  | .utf8 => c.utf8Size
  | .utf16 => if c.toNat ≤ 0xFFFF then 1 else 2
  | .utf32 => 1

/-- How many units a text counts. -/
def units (e : Encoding) : List Char → Nat
  | [] => 0
  | c :: cs => e.width c + e.units cs

/-- How many characters it takes to reach `target` units, or all of them. -/
def reach (e : Encoding) (target : Nat) : List Char → Nat
  | [] => 0
  | c :: cs => if target = 0 then 0 else e.reach (target - e.width c) cs + 1

end Encoding

/-- A line and a character in it, both counted from zero. -/
structure Position where
  line : Nat
  character : Nat
deriving Repr, DecidableEq, Inhabited

structure Range where
  start : Position
  stop : Position
deriving Repr, DecidableEq, Inhabited

namespace Position

/-- No line or character is beyond this one. -/
def limit : Nat := 2147483647

inductive Axis where
  | line | character
deriving Repr, DecidableEq, Inhabited

/-- A number that is no line, or no character, of a position. -/
structure OutOfRange where
  axis : Axis
  value : Int
deriving Repr, DecidableEq, Inhabited

def OutOfRange.message (e : OutOfRange) : String :=
  let name := match e.axis with
    | .line => "line"
    | .character => "character"
  "Position." ++ name ++ " should be in range [0:2147483647], but was " ++ toString e.value ++ "."

def check (axis : Axis) (value : Int) : Except OutOfRange Nat :=
  if 0 ≤ value && value ≤ limit then .ok value.toNat else .error { axis, value }

/-- The position with a line and a character. The line is checked first. -/
def ofInts (line character : Int) : Except OutOfRange Position := do
  return { line := ← check .line line, character := ← check .character character }

end Position

end SolidityServer
