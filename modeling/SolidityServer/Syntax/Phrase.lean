import SolidityServer.Syntax.Concrete
import SolidityServer.Syntax.Token

/-! Phrases: readers that take tokens off the front of a list and give concrete trees. A phrase
either reads all of its tokens or leaves the list alone. -/

namespace SolidityServer

abbrev Phrase := StateT (List Token) Option

namespace Phrase

variable {α : Type}

def peek? : Phrase (Option Token) := do return (← get).head?

/-- The text of the next token that is no string, number or pragma. -/
def next : Phrase String := do
  match ← peek? with
  | some t => return if t.cls == .word || t.cls == .symbol then t.text else ""
  | none => return ""

def token (p : Token → Bool) : Phrase Token := do
  match ← get with
  | t :: rest => if p t then set rest; return t else failure
  | [] => failure

def leaf (kind : String) (named : Bool) (t : Token) : Concrete :=
  .node { kind, named, start := t.start, stop := t.stop } []

/-- A punctuation mark. -/
def mark (text : String) : Phrase Concrete := do
  return leaf text false (← token fun t => t.cls == .symbol && t.text == text)

/-- A word that is a keyword where it stands. -/
def keyword (text : String) : Phrase Concrete := do
  return leaf text false (← token fun t => t.cls == .word && t.text == text)

/-- A keyword that is a named node of its own. -/
def namedKeyword (text : String) : Phrase Concrete := do
  return leaf text true (← token fun t => t.cls == .word && t.text == text)

def identifier : Phrase Concrete := do
  return leaf "identifier" true (← token fun t => t.cls == .word)

/-- The keyword among `texts` that comes next, in a node of kind `kind`. -/
def oneKeyword (kind : String) (texts : List String) : Phrase Concrete := do
  let t ← token fun t => t.cls == .word && texts.contains t.text
  return .around kind [leaf t.text false t]

/-- What `p` reads if it reads anything, as a list. -/
def maybe (p : Phrase α) : Phrase (List α) := (return [← p]) <|> pure []

def manyUpTo (p : Phrase α) : Nat → Phrase (List α)
  | 0 => pure []
  | n + 1 => fun tokens =>
    match p tokens with
    | none => some ([], tokens)
    | some (a, rest) => (manyUpTo p n rest).map fun (as, rest) => (a :: as, rest)

/-- As many `p` in a row as there are. Each takes a token at least, so the number of tokens left
bounds their number. -/
def many (p : Phrase α) : Phrase (List α) := do manyUpTo p (← get).length

def many1 (p : Phrase α) : Phrase (List α) := do return (← p) :: (← many p)

/-- Items between commas, a last comma allowed; the commas are kept. -/
def commaList (item : Phrase (List Concrete)) : Phrase (List Concrete) := do
  let first ← item
  let more ← many (do return (← mark ",") :: (← item))
  let last ← maybe (mark ",")
  return first ++ more.flatten ++ last

/-- A comma list that may be empty. -/
def commaList? (item : Phrase (List Concrete)) : Phrase (List Concrete) :=
  commaList item <|> pure []

def single (p : Phrase Concrete) : Phrase (List Concrete) := do return [← p]

/-- `p` in the role `f`. -/
def role (f : String) (p : Phrase Concrete) : Phrase Concrete := do return (← p).inField f

end Phrase

/-- Readers for what may stand one level further inside: inside brackets, on the right of an
assignment, or as the body of a statement. -/
structure Inner where
  /-- An expression; a brace after it belongs to it iff the flag is set. -/
  expression : Bool → Phrase Concrete
  typeName : Phrase Concrete
  statement : Phrase Concrete

end SolidityServer
