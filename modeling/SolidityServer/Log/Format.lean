import SolidityServer.Json.Display
import SolidityServer.Json.Rounded
import SolidityServer.Text.Hex
import SolidityServer.Text.Scan

/-! Messages with places for values in them. A place is a percent sign, perhaps a name in brackets,
flags, a width, a precision and a letter that says how the value is written. Two percent signs are
one. -/

namespace SolidityServer.Format

/-- A width or a precision. -/
inductive Size where
  | none
  | fixed (n : Nat)
  /-- The next value tells it. -/
  | asked
deriving Repr, DecidableEq, Inhabited

structure Place where
  name : Option String
  flags : List Char
  width : Size
  precision : Size
  letter : Char
deriving Repr, DecidableEq, Inhabited

inductive Piece where
  | char (c : Char)
  | place (p : Place)
deriving Repr, DecidableEq, Inhabited

open Text

/-- All up to the bracket that closes `depth` open ones. -/
def bracketed (depth : Nat) : List Char → Option (List Char × List Char)
  | [] => none
  | c :: cs =>
    if c == ')' && depth == 0 then some ([], cs)
    else
      let depth := if c == ')' then depth - 1 else if c == '(' then depth + 1 else depth
      (bracketed depth cs).map fun (inside, rest) => (c :: inside, rest)

def nameScan : Scan (Option String) := fun cs =>
  match cs with
  | '(' :: rest => (bracketed 0 rest).map fun (inside, rest) => (some (String.ofList inside), rest)
  | _ => some (none, cs)

def isFlag (c : Char) : Bool := "-+ #0".toList.contains c

/-- A number or a star; `default` if there is neither. -/
def sizeScan (default : Size) : Scan Size := do
  match ← get with
  | '*' :: rest =>
    set rest
    return .asked
  | _ =>
    let digits ← Scan.many Char.isDigit
    return if digits.isEmpty then default else .fixed (numberOf digits)

def precisionScan : Scan Size := do
  match ← get with
  | '.' :: rest =>
    set rest
    sizeScan (.fixed 0)
  | _ => return .none

/-- A letter that says nothing about the value, as in `%ld`. -/
def skipLength : Scan Unit := Scan.mark 'h' <|> Scan.mark 'l' <|> Scan.mark 'L' <|> pure ()

def letterScan : Scan Char := fun cs =>
  match cs with
  | c :: rest => some (c, rest)
  | [] => none

def placeScan : Scan Place := do
  let name ← nameScan
  let flags ← Scan.many isFlag
  let width ← sizeScan .none
  let precision ← precisionScan
  skipLength
  return { name, flags, width, precision, letter := ← letterScan }

/-- The pieces of a message, none if a place in it is not complete. -/
def pieces? (cs : List Char) : Option (List Piece) :=
  match cs with
  | [] => some []
  | '%' :: '%' :: rest => (pieces? rest).map (.char '%' :: ·)
  | '%' :: rest =>
    match placeScan rest with
    | none => none
    | some (p, after) =>
      if after.length ≤ rest.length then (pieces? after).map (.place p :: ·) else none
  | c :: rest => (pieces? rest).map (.char c :: ·)
termination_by cs.length

/-- The values for the places: those left to take, and those with a name. -/
structure Supply where
  left : List Json
  named : Option (List (String × Json))

/-- The values that come with a message. A single object that is not empty gives names, and any
other values must all be taken. -/
def Supply.ofValues : List Json → Supply
  | [.obj (field :: fields)] =>
    { left := [.obj (field :: fields)], named := some (field :: fields) }
  | values => { left := values, named := none }

/-- Taking values from a supply. -/
abbrev Filling := StateT Supply Option

def take : Filling Json := fun s =>
  match s.left with
  | j :: left => some (j, { s with left })
  | [] => none

/-- Make the value with a name the one to take. -/
def select (name : String) : Filling Unit := fun s =>
  match s.named.bind (·.lookup name) with
  | some j => some ((), { s with left := [j] })
  | none => none

/-- A value as a whole number, if it is one. -/
def whole? : Json → Option Int
  | .int n => some n
  | .bool b => some (if b then 1 else 0)
  | _ => none

/-- No width or precision is greater. -/
def sizeLimit : Nat := 2147483647

def checkSize (n : Int) : Filling (Option Int) :=
  if n.natAbs ≤ sizeLimit then return some n else failure

def sizeValue : Size → Filling (Option Int)
  | .none => return none
  | .fixed n => checkSize n
  | .asked => do
    match whole? (← take) with
    | some n => checkSize n
    | none => failure

/-- How a text is set into the width of a place. -/
structure Setting where
  width : Nat
  left : Bool
  zeros : Bool
  plus : Bool
  blank : Bool
  sharp : Bool

/-- Fill up to the width: with blanks on one side, or with zeros between the sign and the digits. -/
def Setting.fill (s : Setting) (zeros : Bool) (head body : List Char) : List Char :=
  let missing := s.width - (head.length + body.length)
  if s.left then head ++ body ++ List.replicate missing ' '
  else if zeros then head ++ List.replicate missing '0' ++ body
  else List.replicate missing ' ' ++ head ++ body

def Setting.sign (s : Setting) (negative : Bool) : List Char :=
  if negative then ['-'] else if s.plus then ['+'] else if s.blank then [' '] else []

def Setting.wholeText (s : Setting) (base : Nat) (mark : List Char)
    (precision : Option Nat) (n : Int) : List Char :=
  let digits := Nat.toDigits base n.natAbs
  let digits := List.replicate (precision.getD 0 - digits.length) '0' ++ digits
  s.fill s.zeros (s.sign (n < 0) ++ if s.sharp then mark else []) digits

def upper (cs : List Char) : List Char := cs.map Char.toUpper

/-- A value as a double, if it is a number in range. -/
def double? : Json → Option Double
  | .real d => some d
  | .int n =>
    match Double.ofRatio (n < 0) n.natAbs 1 with
    | .infinite _ => none
    | d => some d
  | .bool b => some (Double.ofRatio false (if b then 1 else 0) 1)
  | _ => none

def Setting.realText (s : Setting) (form : Bool → Nat → Nat → Nat → List Char)
    (precision : Option Nat) (d : Double) : List Char :=
  match d with
  | .nan => s.fill s.zeros (s.sign false) "nan".toList
  | .infinite negative => s.fill s.zeros (s.sign negative) "inf".toList
  | .finite negative mantissa exponent =>
    let (num, den) := Double.ratio mantissa exponent
    s.fill s.zeros (s.sign negative) (form s.sharp (precision.getD 6) num den)

/-- A text with its characters beyond ASCII escaped. -/
def asciiText (cs : List Char) : List Char :=
  cs.flatMap fun c =>
    if c.toNat < 0x80 then [c]
    else if c.toNat ≤ 0xFF then '\\' :: 'x' :: hex 2 c.toNat
    else if c.toNat ≤ 0xFFFF then '\\' :: 'u' :: hex 4 c.toNat
    else '\\' :: 'U' :: hex 8 c.toNat

/-- The character that a value stands for. -/
def charOf? : Json → Option Char
  | .str s =>
    match s.toList with
    | [c] => some c
    | _ => none
  | j => do
    let n ← whole? j
    if 0 ≤ n && n.toNat.isValidChar then some (Char.ofNat n.toNat) else none

/-- A value as a whole number; a fraction is cut off. -/
def integer? : Json → Option Int
  | .real (.finite negative mantissa exponent) => some (Double.truncate negative mantissa exponent)
  | j => whole? j

/-- Write a value as a letter says. -/
def Setting.write (s : Setting) (letter : Char) (precision : Option Nat) (j : Json) :
    Option (List Char) :=
  let text (cs : List Char) : List Char :=
    s.fill false [] (match precision with
      | some n => cs.take n
      | none => cs)
  match letter with
  | 's' => some (text j.display.toList)
  | 'r' => some (text j.shown.toList)
  | 'a' => some (text (asciiText j.shown.toList))
  | 'c' => (charOf? j).map fun c => s.fill false [] [c]
  | 'd' | 'i' | 'u' => (integer? j).map (s.wholeText 10 [] precision)
  | 'o' => (whole? j).map (s.wholeText 8 ['0', 'o'] precision)
  | 'x' => (whole? j).map (s.wholeText 16 ['0', 'x'] precision)
  | 'X' => (whole? j).map fun n => upper (s.wholeText 16 ['0', 'x'] precision n)
  | 'f' => (double? j).map (s.realText Double.fixed precision)
  | 'F' => (double? j).map fun d => upper (s.realText Double.fixed precision d)
  | 'e' => (double? j).map (s.realText Double.scientific precision)
  | 'E' => (double? j).map fun d => upper (s.realText Double.scientific precision d)
  | 'g' => (double? j).map (s.realText Double.general precision)
  | 'G' => (double? j).map fun d => upper (s.realText Double.general precision d)
  | _ => none

/-- Fill a place. A negative width means the left side, a negative precision none at all. -/
def fillPlace (p : Place) : Filling (List Char) := do
  match p.name with
  | some name => select name
  | none => pure ()
  let width ← sizeValue p.width
  let precision ← sizeValue p.precision
  let given := width.getD 0
  let setting : Setting :=
    { width := given.natAbs
      left := p.flags.contains '-' || given < 0
      zeros := p.flags.contains '0'
      plus := p.flags.contains '+'
      blank := p.flags.contains ' '
      sharp := p.flags.contains '#' }
  match setting.write p.letter (precision.map Int.toNat) (← take) with
  | some cs => return cs
  | none => failure

def fillPieces : List Piece → Filling (List Char)
  | [] => return []
  | .char c :: rest => return c :: (← fillPieces rest)
  | .place p :: rest => do
    let cs ← fillPlace p
    return cs ++ (← fillPieces rest)

/-- A message with its values, none if they do not fit. A message without values is as it stands. -/
def render (message : String) (values : List Json) : Option String :=
  if values.isEmpty then some message
  else do
    let pieces ← pieces? message.toList
    let (cs, s) ← fillPieces pieces (.ofValues values)
    if s.named.isNone && !s.left.isEmpty then none else some (String.ofList cs)

end SolidityServer.Format
