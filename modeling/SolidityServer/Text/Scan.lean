import SolidityServer.Text.Blank
import SolidityServer.Text.Digit

/-! Scanning a text from its start for parts of a known shape. -/

namespace SolidityServer.Text

/-- A scan takes characters off the front, or fails. -/
abbrev Scan := StateT (List Char) Option

namespace Scan

def mark (m : Char) : Scan Unit := fun cs =>
  match cs with
  | c :: cs => if c == m then some ((), cs) else none
  | [] => none

/-- All characters up to the first one that does not fit. -/
def many (p : Char → Bool) : Scan (List Char) := fun cs => some (cs.takeWhile p, cs.dropWhile p)

/-- The same, at least one. -/
def many1 (p : Char → Bool) : Scan (List Char) := do
  let cs ← many p
  if cs.isEmpty then failure
  return cs

def number : Scan Nat := do
  return numberOf (← many1 isDecimal)

/-- Whether a character is a letter, large or small; an `i` also without or with its dot. -/
def isLetter (letter c : Char) : Bool :=
  c.toLower == letter || (letter == 'i' && (c.toNat == 0x130 || c.toNat == 0x131))

/-- A word given in small letters, in letters of any size. -/
def word : List Char → Scan Unit
  | [] => pure ()
  | letter :: letters => fun cs =>
    match cs with
    | c :: cs => if isLetter letter c then word letters cs else none
    | [] => none

/-- Skip a mark if it is there. -/
def skipMark (m : Char) : Scan Unit := mark m <|> pure ()

end Scan

end SolidityServer.Text
