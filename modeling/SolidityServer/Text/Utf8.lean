/-! Reading UTF-8. A sequence of bytes that encodes no character ends where the first byte stands
that cannot go on with it. -/

namespace SolidityServer.Text

/-- Why some bytes encode no character. -/
inductive Utf8Fault where
  | badStart
  | badContinuation
  | cutShort
deriving Repr, DecidableEq, Inhabited

def Utf8Fault.message : Utf8Fault → String
  | .badStart => "invalid start byte"
  | .badContinuation => "invalid continuation byte"
  | .cutShort => "unexpected end of data"

/-- The bytes that may follow a first byte: the bounds of the second one and how many more come
after it. None if no sequence of several bytes starts so. -/
def continuation? (first : Nat) : Option (Nat × Nat × Nat) :=
  if 0xC2 ≤ first && first ≤ 0xDF then some (0x80, 0xBF, 0)
  else if first == 0xE0 then some (0xA0, 0xBF, 1)
  else if first == 0xED then some (0x80, 0x9F, 1)
  else if 0xE1 ≤ first && first ≤ 0xEF then some (0x80, 0xBF, 1)
  else if first == 0xF0 then some (0x90, 0xBF, 2)
  else if first == 0xF4 then some (0x80, 0x8F, 2)
  else if 0xF1 ≤ first && first ≤ 0xF3 then some (0x80, 0xBF, 2)
  else none

/-- The payload of a first byte. -/
def payload (first : Nat) : Nat :=
  if first < 0x80 then first
  else if first < 0xE0 then first - 0xC0
  else if first < 0xF0 then first - 0xE0
  else first - 0xF0

/-- Read the rest of a sequence: the next byte lies within the bounds, `more` others after it do
within the common ones. Gives the code point and how many bytes were taken, or why not and how many
could be taken. -/
def sequel (low high more code taken : Nat) : List Nat → (Nat × Nat) ⊕ (Utf8Fault × Nat)
  | [] => .inr (.cutShort, taken)
  | b :: bytes =>
    if low ≤ b && b ≤ high then
      let code := 64 * code + (b - 0x80)
      match more with
      | 0 => .inl (code, taken + 1)
      | more + 1 => sequel 0x80 0xBF more code (taken + 1) bytes
    else .inr (.badContinuation, taken)

/-- Read the sequence that starts with a byte. -/
def utf8Sequence (first : Nat) (bytes : List Nat) : (Nat × Nat) ⊕ (Utf8Fault × Nat) :=
  if first < 0x80 then .inl (first, 1)
  else
    match continuation? first with
    | none => .inr (.badStart, 1)
    | some (low, high, more) => sequel low high more (payload first) 1 bytes

/-- One piece of a decoded text: a character, or bytes that are none. -/
inductive Utf8Piece where
  | char (c : Char)
  | fault (cause : Utf8Fault) (bytes : List Nat)
deriving Repr, DecidableEq, Inhabited

/-- The pieces of a row of bytes. `skip` bytes at the front belong to a piece already read. -/
def utf8Pieces (skip : Nat) : List Nat → List Utf8Piece
  | [] => []
  | b :: bytes =>
    match skip with
    | skip + 1 => utf8Pieces skip bytes
    | 0 =>
      match utf8Sequence b bytes with
      | .inl (code, taken) => .char (Char.ofNat code) :: utf8Pieces (taken - 1) bytes
      | .inr (cause, taken) =>
        .fault cause ((b :: bytes).take taken) :: utf8Pieces (taken - 1) bytes

/-- Decode, with a replacement character for what encodes none. -/
def decodeUtf8Lossy (bytes : List Nat) : List Char :=
  (utf8Pieces 0 bytes).map fun
    | .char c => c
    | .fault _ _ => '�'

/-- Bytes in a text that encode no character, and where they start. -/
structure Utf8Error where
  cause : Utf8Fault
  bytes : List Nat
  position : Nat
deriving Repr, DecidableEq, Inhabited

/-- How many bytes encode a piece. -/
def Utf8Piece.size : Utf8Piece → Nat
  | .char c => c.utf8Size
  | .fault _ bytes => bytes.length

/-- The characters of the pieces, if all of them are characters. -/
def charsOfPieces (position : Nat) : List Utf8Piece → Except Utf8Error (List Char)
  | [] => .ok []
  | .char c :: pieces => (charsOfPieces (position + c.utf8Size) pieces).map (c :: ·)
  | .fault cause bytes :: _ => .error { cause, bytes, position }

def decodeUtf8 (bytes : List Nat) : Except Utf8Error (List Char) :=
  charsOfPieces 0 (utf8Pieces 0 bytes)

/-- The bytes that encode a character. -/
def utf8Bytes (c : Char) : List Nat :=
  let n := c.toNat
  if n < 0x80 then [n]
  else if n < 0x800 then [0xC0 + n / 64, 0x80 + n % 64]
  else if n < 0x10000 then [0xE0 + n / 4096, 0x80 + n / 64 % 64, 0x80 + n % 64]
  else [0xF0 + n / 262144, 0x80 + n / 4096 % 64, 0x80 + n / 64 % 64, 0x80 + n % 64]

def encodeUtf8 (cs : List Char) : List Nat := cs.flatMap utf8Bytes

end SolidityServer.Text
