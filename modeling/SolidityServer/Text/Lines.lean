/-! The lines of a text. A line keeps the break that ends it, so the lines of a text make up the
text. -/

namespace SolidityServer.Text

/-- The characters that can end a line. -/
def isLineBreak (c : Char) : Bool :=
  (0xA ≤ c.toNat && c.toNat ≤ 0xD) || (0x1C ≤ c.toNat && c.toNat ≤ 0x1E) || c.toNat == 0x85
    || c.toNat == 0x2028 || c.toNat == 0x2029

/-- Whether a line ends after `c`. A carriage return and the line feed after it are one break. -/
def endsLine (c : Char) (rest : List Char) : Bool :=
  isLineBreak c && !(c == '\r' && rest.head? == some '\n')

def splitLines : List Char → List (List Char)
  | [] => []
  | c :: cs =>
    if endsLine c cs then [c] :: splitLines cs
    else
      match splitLines cs with
      | [] => [[c]]
      | line :: lines => (c :: line) :: lines

theorem flatten_splitLines (cs : List Char) : (splitLines cs).flatten = cs := by
  induction cs with
  | nil => rfl
  | cons c cs ih =>
    unfold splitLines
    split
    · simp [ih]
    · split
      · next h => simp [h] at ih; simp [← ih]
      · next h => simp [h] at ih; simp [← ih]

/-- The carriage return and the line feed, the only breaks that editors know. -/
def isReturn (c : Char) : Bool := c == '\r' || c == '\n'

/-- A line without the return that ends it. -/
def lineBody (line : List Char) : List Char := (line.reverse.dropWhile isReturn).reverse

/-- A text in which every return is a line feed. -/
def unifyReturns : List Char → List Char
  | [] => []
  | '\r' :: '\n' :: cs => '\n' :: unifyReturns cs
  | '\r' :: cs => '\n' :: unifyReturns cs
  | c :: cs => c :: unifyReturns cs

end SolidityServer.Text
