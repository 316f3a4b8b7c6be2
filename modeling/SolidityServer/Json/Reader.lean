import SolidityServer.Json.Basic
import SolidityServer.Text.Hex

/-! Reading JSON text. Beyond the standard, `NaN`, `Infinity` and `-Infinity` are numbers, and of
two fields with one name the later wins. Errors say what was expected and where. -/

namespace SolidityServer.Json

inductive Fault where
  | expectedValue
  | expectedComma
  | expectedColon
  | expectedName
  | extraData
  | unterminatedString
  | controlCharacter
  | badEscape
  | badUnicodeEscape
  | byteOrderMark
deriving Repr, DecidableEq, Inhabited

/-- What is wrong with a text: line and column count from one, the offset from zero. -/
structure ReadError where
  fault : Fault
  line : Nat
  column : Nat
  offset : Nat
deriving Repr, DecidableEq, Inhabited

def Fault.message : Fault → String
  | .expectedValue => "Expecting value"
  | .expectedComma => "Expecting ',' delimiter"
  | .expectedColon => "Expecting ':' delimiter"
  | .expectedName => "Expecting property name enclosed in double quotes"
  | .extraData => "Extra data"
  | .unterminatedString => "Unterminated string starting at"
  | .controlCharacter => "Invalid control character at"
  | .badEscape => "Invalid \\escape"
  | .badUnicodeEscape => "Invalid \\uXXXX escape"
  | .byteOrderMark => "Unexpected UTF-8 BOM (decode using utf-8-sig)"

def ReadError.message (e : ReadError) : String :=
  e.fault.message ++ ": line " ++ toString e.line ++ " column " ++ toString e.column
    ++ " (char " ++ toString e.offset ++ ")"

/-- The characters still to be read, and how many were read before. -/
structure Cursor where
  rest : List Char
  pos : Nat
deriving Repr

namespace Cursor

def advance (c : Cursor) (n : Nat) : Cursor := { rest := c.rest.drop n, pos := c.pos + n }

def isSpace (c : Char) : Bool := c == ' ' || c == '\t' || c == '\n' || c == '\r'

def skipSpace (c : Cursor) : Cursor := c.advance (c.rest.takeWhile isSpace).length

end Cursor

/-- A result, or a fault and its offset. -/
abbrev Reply := Except (Fault × Nat)

/-- Four hexadecimal digits at the head of a list. -/
def hex4? : List Char → Option Nat
  | a :: b :: c :: d :: _ => do
    let high := 16 * (← Text.hexValue? a) + (← Text.hexValue? b)
    return 256 * high + 16 * (← Text.hexValue? c) + (← Text.hexValue? d)
  | _ => none

def simpleEscape? : Char → Option Char
  | '\x22' => some '\x22'
  | '\\' => some '\\'
  | '/' => some '/'
  | 'b' => some '\x08'
  | 'f' => some '\x0c'
  | 'n' => some '\n'
  | 'r' => some '\r'
  | 't' => some '\t'
  | _ => none

def isHighSurrogate (n : Nat) : Bool := 0xD800 ≤ n && n < 0xDC00

def isLowSurrogate (n : Nat) : Bool := 0xDC00 ≤ n && n < 0xE000

/-- A code unit on its own; half of a pair stands for no character. -/
def unitChar (n : Nat) : Char :=
  if isHighSurrogate n || isLowSurrogate n then '\ufffd' else Char.ofNat n

/-- The character after `\u`, given what follows, and how many characters it took. The offset is
that of the `u`. -/
def unicodeEscape (rest : List Char) (pos : Nat) : Reply (Char × Nat) :=
  if rest.length < 5 then .error (.badUnicodeEscape, pos)
  else match hex4? rest with
  | none => .error (.badUnicodeEscape, pos)
  | some high =>
    match rest.drop 4 with
    | '\\' :: 'u' :: more =>
      if isHighSurrogate high && 4 < more.length then
        match hex4? more with
        | none => .error (.badUnicodeEscape, pos + 6)
        | some low =>
          if isLowSurrogate low then
            .ok (Char.ofNat (0x10000 + (high - 0xD800) * 0x400 + (low - 0xDC00)), 10)
          else .ok (unitChar high, 4)
      else .ok (unitChar high, 4)
    | _ => .ok (unitChar high, 4)

/-- The inside of a string up to its closing quote. `skip` counts characters of an escape that
were already read, `start` is the offset of the opening quote. -/
def stringTail (start : Nat) : Nat → Nat → List Char → Reply (List Char × Cursor)
  | _, _, [] => .error (.unterminatedString, start)
  | skip + 1, pos, _ :: rest => stringTail start skip (pos + 1) rest
  | 0, pos, c :: rest =>
    if c == '\x22' then .ok ([], ⟨rest, pos + 1⟩)
    else if c == '\\' then
      match rest with
      | [] => .error (.unterminatedString, start)
      | 'u' :: more => do
        let (decoded, taken) ← unicodeEscape more (pos + 1)
        let (tail, cursor) ← stringTail start (taken + 1) (pos + 1) rest
        return (decoded :: tail, cursor)
      | e :: _ =>
        match simpleEscape? e with
        | none => .error (.badEscape, pos)
        | some decoded => do
          let (tail, cursor) ← stringTail start 1 (pos + 1) rest
          return (decoded :: tail, cursor)
    else if c.toNat < 32 then .error (.controlCharacter, pos)
    else do
      let (tail, cursor) ← stringTail start 0 (pos + 1) rest
      return (c :: tail, cursor)

/-- A string, the cursor standing after its opening quote. -/
def readString (c : Cursor) : Reply (String × Cursor) := do
  let (chars, cursor) ← stringTail (c.pos - 1) 0 c.pos c.rest
  return (String.ofList chars, cursor)

def digitsOf (cs : List Char) : List Char := cs.takeWhile Char.isDigit

def natOf (digits : List Char) : Nat := digits.foldl (fun n c => 10 * n + (c.toNat - 48)) 0

/-- The digits of the whole part: a zero stands alone. -/
def wholeDigits : List Char → List Char
  | '0' :: _ => ['0']
  | cs => digitsOf cs

def fractionDigits : List Char → List Char
  | '.' :: cs => digitsOf cs
  | _ => []

/-- Sign and digits of an exponent, and its length. -/
def exponentPart : List Char → Option (Int × Nat)
  | e :: cs =>
    if e == 'e' || e == 'E' then
      let (negative, signLength) := match cs with
        | '-' :: _ => (true, 1)
        | '+' :: _ => (false, 1)
        | _ => (false, 0)
      match digitsOf (cs.drop signLength) with
      | [] => none
      | digits =>
        let size : Int := natOf digits
        some (if negative then -size else size, 1 + signLength + digits.length)
    else none
  | [] => none

def readNumber? (c : Cursor) : Option (Json × Cursor) :=
  let negative := c.rest.head? == some '-'
  let signLength := if negative then 1 else 0
  let cs := c.rest.drop signLength
  match wholeDigits cs with
  | [] => none
  | whole =>
    let afterWhole := cs.drop whole.length
    let fraction := fractionDigits afterWhole
    let fractionLength := if fraction.isEmpty then 0 else fraction.length + 1
    let exponent := exponentPart (afterWhole.drop fractionLength)
    let length := signLength + whole.length + fractionLength + ((exponent.map Prod.snd).getD 0)
    let value : Json :=
      if fraction.isEmpty && exponent.isNone then
        let n : Int := natOf whole
        .int (if negative then -n else n)
      else
        .real (Double.ofDecimal negative (natOf (whole ++ fraction))
          ((exponent.map Prod.fst).getD 0 - fraction.length))
    some (value, c.advance length)

/-- The words that stand for values. -/
def wordValues : List (List Char × Json) :=
  [("null".toList, .null), ("true".toList, .bool true), ("false".toList, .bool false),
    ("NaN".toList, .real .nan), ("Infinity".toList, .real (.infinite false)),
    ("-Infinity".toList, .real (.infinite true))]

def readWord? (c : Cursor) : Option (Json × Cursor) :=
  (wordValues.find? fun (word, _) => word.isPrefixOf c.rest).map
    fun (word, value) => (value, c.advance word.length)

mutual

/-- A value. A nested one starts further on and takes two steps to get to, so `fuel` never runs out
if it is more than twice the number of characters left. -/
def readValue : Nat → Cursor → Reply (Json × Cursor)
  | 0, c => .error (.expectedValue, c.pos)
  | fuel + 1, c =>
    match c.rest with
    | '\x22' :: _ => (readString (c.advance 1)).map fun (s, c) => (.str s, c)
    | '\x7b' :: _ =>
      let c := (c.advance 1).skipSpace
      if c.rest.head? == some '\x7d' then .ok (.obj [], c.advance 1)
      else (readFields fuel [] c).map fun (fields, c) => (.obj fields, c)
    | '[' :: _ =>
      let c := (c.advance 1).skipSpace
      if c.rest.head? == some ']' then .ok (.arr [], c.advance 1)
      else (readItems fuel c).map fun (items, c) => (.arr items, c)
    | _ =>
      match (readWord? c).or (readNumber? c) with
      | some found => .ok found
      | none => .error (.expectedValue, c.pos)

/-- The items of an array up to its closing bracket. -/
def readItems : Nat → Cursor → Reply (List Json × Cursor)
  | 0, c => .error (.expectedValue, c.pos)
  | fuel + 1, c => do
    let (item, c) ← readValue fuel c
    let c := c.skipSpace
    match c.rest with
    | ']' :: _ => return ([item], c.advance 1)
    | ',' :: _ =>
      let (items, c) ← readItems fuel (c.advance 1).skipSpace
      return (item :: items, c)
    | _ => .error (.expectedComma, c.pos)

/-- The fields of an object up to its closing brace, after those read before. -/
def readFields : Nat → List (String × Json) → Cursor → Reply (List (String × Json) × Cursor)
  | 0, _, c => .error (.expectedName, c.pos)
  | fuel + 1, fields, c => do
    if c.rest.head? != some '\x22' then .error (.expectedName, c.pos)
    let (key, c) ← readString (c.advance 1)
    let c := c.skipSpace
    if c.rest.head? != some ':' then .error (.expectedColon, c.pos)
    let (value, c) ← readValue fuel (c.advance 1).skipSpace
    let fields := put key value fields
    let c := c.skipSpace
    match c.rest with
    | '\x7d' :: _ => return (fields, c.advance 1)
    | ',' :: _ => readFields fuel fields (c.advance 1).skipSpace
    | _ => .error (.expectedComma, c.pos)

end

/-- Line and column of an offset. -/
def locate (text : List Char) (fault : Fault) (offset : Nat) : ReadError :=
  let before := text.take offset
  { fault, offset, line := before.count '\n' + 1,
    column := (before.reverse.takeWhile (· != '\n')).length + 1 }

def readChars (text : List Char) : Reply Json := do
  if text.head? == some '\ufeff' then .error (.byteOrderMark, 0)
  let (value, c) ← readValue (2 * text.length + 2) (Cursor.skipSpace ⟨text, 0⟩)
  let c := c.skipSpace
  if c.rest.isEmpty then return value else .error (.extraData, c.pos)

/-- The value that a text writes. -/
def read (text : String) : Except ReadError Json :=
  match readChars text.toList with
  | .ok value => .ok value
  | .error (fault, offset) => .error (locate text.toList fault offset)

end SolidityServer.Json
