/-! Tokens of a source file. Blanks and comments are dropped. Which words are keywords depends on
where they stand, so every word is one class of token. -/

namespace SolidityServer

inductive Token.Class where
  | word
  | number
  | quoted
  | symbol
  /-- A whole pragma directive: its inside has no tokens. -/
  | pragma
deriving Repr, DecidableEq, Inhabited

/-- A lexeme and the bytes of the UTF-8 text it covers. -/
structure Token where
  cls : Token.Class
  text : String
  start : Nat
  stop : Nat
deriving Repr, DecidableEq, Inhabited

namespace Token

def isSpace (c : Char) : Bool :=
  let n := c.toNat
  (9 ≤ n && n ≤ 13) || n == 32 || n == 0xA0 || n == 0x200B || n == 0x2060 || n == 0xFEFF

def isWordStart (c : Char) : Bool := c.isAlpha || c == '_' || c == '$'

def isWordPart (c : Char) : Bool := c.isAlphanum || c == '_' || c == '$'

def isHexDigit (c : Char) : Bool :=
  c.isDigit || ('a' ≤ c && c ≤ 'f') || ('A' ≤ c && c ≤ 'F')

def isDigitOrGap (c : Char) : Bool := c.isDigit || c == '_'

def countWhile (p : Char → Bool) (cs : List Char) : Nat := (cs.takeWhile p).length

/-- Length of an exponent, zero if no digit follows its mark. -/
def exponentLength : List Char → Nat
  | [] => 0
  | e :: cs =>
    if e == 'e' || e == 'E' then
      let sign := if cs.head? == some '-' then 1 else 0
      let digits := countWhile isDigitOrGap (cs.drop sign)
      if digits == 0 then 0 else 1 + sign + digits
    else 0

/-- Length of a fraction with its point, zero if no digit follows the point. -/
def fractionLength : List Char → Nat
  | '.' :: cs =>
    let digits := countWhile isDigitOrGap cs
    if digits == 0 then 0 else 1 + digits
  | _ => 0

def decimalLength (cs : List Char) : Nat :=
  let whole := countWhile isDigitOrGap cs
  let fraction := fractionLength (cs.drop whole)
  whole + fraction + exponentLength (cs.drop (whole + fraction))

def numberLength (cs : List Char) : Nat :=
  match cs with
  | '0' :: x :: d :: rest =>
    if (x == 'x' || x == 'X') && isHexDigit d then
      3 + countWhile (fun c => isHexDigit c || c == '_') rest
    else decimalLength cs
  | _ => decimalLength cs

/-- Length of the rest of a string after its opening quote, closing quote included. There is none
if the line ends first; a backslash carries the next character with it. -/
def quotedLength (quote : Char) : List Char → Option Nat
  | [] => none
  | '\\' :: _ :: cs => (quotedLength quote cs).map (· + 2)
  | c :: cs =>
    if c == quote then some 1
    else if c == '\n' || c == '\r' then none
    else (quotedLength quote cs).map (· + 1)

/-- Length of the rest of a block comment, to the end of the text if it is never closed. -/
def commentLength : List Char → Nat
  | [] => 0
  | '*' :: '/' :: _ => 2
  | _ :: cs => commentLength cs + 1

/-- Symbols of more than one character, longest first. -/
def longSymbols : List (List Char) :=
  [">>=", "<<=", "=>", "++", "--", "**", "<<", ">>", "<=", ">=", "==", "!=", "&&", "||",
    "+=", "-=", "*=", "/=", "%=", "^=", "&=", "|="].map String.toList

def symbolLength (cs : List Char) : Nat :=
  ((longSymbols.find? (·.isPrefixOf cs)).map List.length).getD 1

/-- The lexeme at the head of a text that is not empty: its length, and its class unless it is
dropped. -/
def lexeme (cs : List Char) : Option Class × Nat :=
  match cs with
  | '/' :: '/' :: rest => (none, 2 + countWhile (fun c => c != '\n' && c != '\r') rest)
  | '/' :: '*' :: rest => (none, 2 + commentLength rest)
  | c :: rest =>
    if isSpace c then (none, 1)
    else if isWordStart c then (some .word, 1 + countWhile isWordPart rest)
    else if c.isDigit || (c == '.' && (rest.head?.map Char.isDigit).getD false) then
      (some .number, numberLength cs)
    else if c == '\x22' || c == '\x27' then
      match quotedLength c rest with
      | some n => (some .quoted, n + 1)
      | none => (some .symbol, 1)
    else (some .symbol, symbolLength cs)
  | [] => (none, 1)

/-- What the tokenizer remembers: how many braces are open, and whether a directive of the file may
start here. -/
structure Position where
  braces : Nat := 0
  fresh : Bool := true
deriving Repr

def Position.after (p : Position) (t : Token) : Position :=
  if t.text == "\x7b" then { braces := p.braces + 1, fresh := false }
  else if t.text == "\x7d" then { braces := p.braces - 1, fresh := p.braces ≤ 1 }
  else { p with fresh := p.braces == 0 && (t.text == ";" || t.cls == .pragma) }

/-- Length of a directive up to its first semicolon. -/
def directiveLength (cs : List Char) : Nat :=
  min cs.length (countWhile (· != ';') cs + 1)

/-- The class and length at the head of a text, a pragma directive being taken whole. -/
def classify (p : Position) (cs : List Char) : Option Class × Nat :=
  match lexeme cs with
  | (some .word, n) =>
    if p.fresh && p.braces == 0 && cs.take n == "pragma".toList then
      (some .pragma, directiveLength cs)
    else (some .word, n)
  | found => found

def byteLength : List Char → Nat
  | [] => 0
  | c :: cs => c.utf8Size + byteLength cs

/-- `skip` counts the characters that belong to a lexeme already dealt with. -/
def scan (skip : Nat) (p : Position) (offset : Nat) : List Char → List Token
  | [] => []
  | c :: cs =>
    match skip with
    | skip + 1 => scan skip p (offset + c.utf8Size) cs
    | 0 =>
      match classify p (c :: cs) with
      | (none, n) => scan (n - 1) p (offset + c.utf8Size) cs
      | (some cls, n) =>
        let lexeme := (c :: cs).take n
        let token : Token :=
          { cls, text := String.ofList lexeme, start := offset, stop := offset + byteLength lexeme }
        token :: scan (n - 1) (p.after token) (offset + c.utf8Size) cs

/-- The tokens of a text in order. -/
def ofText (text : String) : List Token := scan 0 {} 0 text.toList

def opens (t : Token) : Bool :=
  t.cls == .symbol && (t.text == "(" || t.text == "[" || t.text == "\x7b")

def closes (t : Token) : Bool :=
  t.cls == .symbol && (t.text == ")" || t.text == "]" || t.text == "\x7d")

/-- The largest number of brackets open at once. -/
def bracketDepth (tokens : List Token) : Nat :=
  (tokens.foldl (fun (open?, deepest) t =>
    let now := if t.opens then open? + 1 else if t.closes then open? - 1 else open?
    (now, max deepest now)) (0, 0)).2

end Token

end SolidityServer
