import SolidityServer.Text.Scan

/-! The location that a linter names when it gives up on a source. -/

namespace SolidityServer.Lint

open Text

def colonPair : Scan (Nat × Nat) := do
  let line ← Scan.number
  Scan.mark ':'
  return (line, ← Scan.number)

/-- As in `line 4:12`. -/
def shortLocation : Scan (Nat × Nat) := do
  Scan.word "line".toList
  let _ ← Scan.many1 isBlank
  colonPair

/-- As in `Line: 4, Column: 12`. -/
def longLocation : Scan (Nat × Nat) := do
  Scan.word "line".toList
  Scan.skipMark ':'
  let _ ← Scan.many isBlank
  let line ← Scan.number
  Scan.mark ','
  let _ ← Scan.many isBlank
  Scan.word "column".toList
  Scan.skipMark ':'
  let _ ← Scan.many isBlank
  return (line, ← Scan.number)

def locationHere : Scan (Nat × Nat) := shortLocation <|> colonPair <|> longLocation

/-- The first line and column that a message names, as it counts them. -/
def namedLocation? : List Char → Option (Nat × Nat)
  | [] => none
  | c :: cs =>
    match locationHere (c :: cs) with
    | some (location, _) => some location
    | none => namedLocation? cs

/-- The line and column that a message names, counted from zero; the first ones if it names none. -/
def errorLocation (message : List Char) : Nat × Nat :=
  match namedLocation? message with
  | some (line, column) => (line - 1, column - 1)
  | none => (0, 0)

end SolidityServer.Lint
