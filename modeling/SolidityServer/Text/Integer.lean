import SolidityServer.Text.Blank
import SolidityServer.Text.Digit

/-! Whole numbers in text: blanks around, a sign, and single underscores between the digits. -/

namespace SolidityServer.Text

/-- The blanks that may stand around a number. Separators of records do not count. -/
def isMargin (c : Char) : Bool := isBlank c && !(0x1C ≤ c.toNat && c.toNat ≤ 0x1F)

/-- The digits of a number without the underscores between them. -/
def digitsOf? : List Char → Option (List Char)
  | [] => none
  | [c] => if isDecimal c then some [c] else none
  | c :: '_' :: cs => if isDecimal c then (digitsOf? cs).map (c :: ·) else none
  | c :: cs => if isDecimal c then (digitsOf? cs).map (c :: ·) else none

def natural? (cs : List Char) : Option Nat := (digitsOf? cs).map numberOf

def integer? (s : String) : Option Int :=
  match trimEnd isMargin (s.toList.dropWhile isMargin) with
  | '-' :: cs => (natural? cs).map fun n => -(n : Int)
  | '+' :: cs => (natural? cs).map fun n => (n : Int)
  | cs => (natural? cs).map fun n => (n : Int)

end SolidityServer.Text
