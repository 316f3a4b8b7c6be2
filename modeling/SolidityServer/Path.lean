/-! Paths of files. A path is a text in which slashes divide the names of directories; the working
directory is the root. -/

namespace SolidityServer.Path

/-- The parts between the slashes. -/
def segments : List Char → List (List Char)
  | [] => [[]]
  | c :: cs =>
    match segments cs with
    | [] => [[c]]
    | part :: parts => if c == '/' then [] :: part :: parts else (c :: part) :: parts

/-- Parts with a slash between each two. -/
def unite (parts : List (List Char)) : List Char := ['/'].intercalate parts

def here : List Char := ['.']

def above : List Char := ['.', '.']

/-- How many slashes a normal path starts with: two stay two, and any other number is one. -/
def rootSlashes : List Char → Nat
  | '/' :: '/' :: '/' :: _ => 1
  | '/' :: '/' :: _ => 2
  | '/' :: _ => 1
  | _ => 0

/-- Go on from a directory, given by its parts in reverse. There is nothing above the root. -/
def enter (rooted : Bool) (parts : List (List Char)) (part : List Char) : List (List Char) :=
  if part == [] || part == here then parts
  else if part != above then part :: parts
  else
    match parts with
    | [] => if rooted then [] else [part]
    | top :: rest => if top == above then part :: parts else rest

/-- The parts of a path without those that lead nowhere. -/
def normalParts (p : List Char) : List (List Char) :=
  ((segments p).foldl (enter (rootSlashes p != 0)) []).reverse

def normalChars (p : List Char) : List Char :=
  match List.replicate (rootSlashes p) '/' ++ unite (normalParts p) with
  | [] => here
  | q => q

/-- The shortest path to the same file, as far as the text of the path tells. -/
def normalize (p : String) : String := String.ofList (normalChars p.toList)

def isAbsolute (p : String) : Bool := p.toList.head? == some '/'

/-- Go on from `p` along `q`. An absolute `q` starts afresh. -/
def append (p q : String) : String :=
  if isAbsolute q then q
  else if p.isEmpty || p.toList.getLast? == some '/' then p ++ q
  else p ++ "/" ++ q

/-- The parts one after the other, in normal form. -/
def join (first : String) (rest : List String) : String := normalize (rest.foldl append first)

/-- The directory of a path: all up to the last slash, without slashes at its end if it has any
other character. -/
def parent (p : String) : String :=
  let head := p.toList.reverse.dropWhile (· != '/')
  String.ofList (if head.all (· == '/') then head.reverse else (head.dropWhile (· == '/')).reverse)

/-- What stands after the last slash. -/
def lastName (p : String) : String :=
  String.ofList (p.toList.reverse.takeWhile (· != '/')).reverse

def absolute (p : String) : String := normalize (append "/" p)

/-- The names on the way from the root to a path. -/
def names (p : String) : List (List Char) :=
  (segments (absolute p).toList).filter (!·.isEmpty)

/-- Without the beginning that two lists share. -/
def dropShared : List (List Char) → List (List Char) → List (List Char) × List (List Char)
  | a :: as, b :: bs => if a == b then dropShared as bs else (a :: as, b :: bs)
  | as, bs => (as, bs)

/-- The way from the directory `start` to `p`; none to the empty path. -/
def relativeTo? (start p : String) : Option String :=
  if p.isEmpty then none
  else
    let (up, down) := dropShared (names start) (names p)
    some <| String.ofList <|
      match up.map (fun _ => above) ++ down with
      | [] => here
      | parts => unite parts

end SolidityServer.Path
