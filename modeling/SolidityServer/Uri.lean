import SolidityServer.Text.Cut
import SolidityServer.Text.Quoted
import SolidityServer.Text.Utf8

/-! Addresses of documents, and the paths of files that they stand for. -/

namespace SolidityServer

/-- The parts of an address that tell where a document is, with their escapes read. -/
structure Uri where
  scheme : String
  authority : String
  path : String
deriving Repr, DecidableEq, Inhabited

namespace Uri

def isAscii (c : Char) : Bool := c.toNat < 0x80

/-- What a text with escapes holds: bytes, for escapes and plain characters alike, and the
characters that no byte stands for. An escape that is not complete is plain text. -/
def pieces : List Char → List (Nat ⊕ Char)
  | [] => []
  | '%' :: a :: b :: cs =>
    match Text.hexValue? a, Text.hexValue? b with
    | some m, some n => .inl (16 * m + n) :: pieces cs
    | _, _ => .inl 37 :: pieces (a :: b :: cs)
  | c :: cs => (if isAscii c then .inl c.toNat else .inr c) :: pieces cs

/-- The text of the pieces; each run of bytes is UTF-8. -/
def assemble (run : List Nat) : List (Nat ⊕ Char) → List Char
  | [] => Text.decodeUtf8Lossy run.reverse
  | .inl b :: ps => assemble (b :: run) ps
  | .inr c :: ps => Text.decodeUtf8Lossy run.reverse ++ c :: assemble [] ps

/-- A text with its escapes read. -/
def decode (s : String) : String := String.ofList (assemble [] (pieces s.toList))

def isPlain (c : Char) : Bool := isAscii c && (c.isAlphanum || "_.-~/".toList.contains c)

/-- A text in which all but plain characters are escaped. -/
def encode (cs : List Char) : List Char :=
  cs.flatMap fun c =>
    if isPlain c then [c]
    else (Text.utf8Bytes c).flatMap fun b => '%' :: (Text.hex 2 b).map Char.toUpper

def isSchemeChar (c : Char) : Bool := isAscii c && (c.isAlphanum || "+-.".toList.contains c)

/-- Divide off the scheme, in small letters. It starts with a letter and ends before a colon. -/
def divideScheme (cs : List Char) : List Char × List Char :=
  let scheme := cs.takeWhile (· != ':')
  match cs.drop scheme.length, scheme with
  | _ :: rest, first :: _ =>
    if first.isAlpha && scheme.all isSchemeChar then (scheme.map Char.toLower, rest) else ([], cs)
  | _, _ => ([], cs)

/-- Divide off what stands between two slashes and the path. -/
def divideAuthority : List Char → List Char × List Char
  | '/' :: '/' :: cs =>
    let ends (c : Char) : Bool := c == '/' || c == '?' || c == '#'
    (cs.takeWhile (!ends ·), cs.dropWhile (!ends ·))
  | cs => ([], cs)

/-- The schemes in which a semicolon ends the last name of a path. -/
def parameterSchemes : List String :=
  ["", "ftp", "hdl", "prospero", "http", "imap", "https", "shttp", "rtsp", "rtsps", "rtspu", "sip",
    "sips", "mms", "sftp", "tel"]

/-- Drop what stands after a semicolon in the last name of a path. -/
def dropParameters (path : List Char) : List Char :=
  let last := (path.reverse.takeWhile (· != '/')).reverse
  path.take (path.length - last.length) ++ last.takeWhile (· != ';')

/-- Control characters and blanks before an address do not count, nor do tabs and returns in it. -/
def clean (cs : List Char) : List Char :=
  (cs.dropWhile (·.toNat ≤ 0x20)).filter fun c => !(c == '\t' || c == '\r' || c == '\n')

def parse (s : String) : Uri :=
  let (scheme, rest) := divideScheme (clean s.toList)
  let (authority, rest) := divideAuthority rest
  let path := (rest.takeWhile (· != '#')).takeWhile (· != '?')
  let scheme := String.ofList scheme
  { scheme := decode scheme
    authority := decode (String.ofList authority)
    path := decode (String.ofList
      (if parameterSchemes.contains scheme then dropParameters path else path)) }

/-- Whether a path starts with the letter of a drive. -/
def hasDrive : List Char → Bool
  | '/' :: letter :: ':' :: _ => letter.isAlpha
  | _ => false

/-- The path of the file that an address stands for, none if it is not that of a file. -/
def toPath? (s : String) : Option String :=
  let uri := parse s
  let path := uri.path.toList
  if uri.scheme != "file" then none
  else if !uri.authority.isEmpty && !path.isEmpty then some ("//" ++ uri.authority ++ uri.path)
  else
    match path with
    | '/' :: letter :: rest =>
      if hasDrive path then some (String.ofList (letter.toLower :: rest)) else some uri.path
    | _ => some uri.path

/-- The path of a document, of a file or not. -/
def documentPath (s : String) : String := (toPath? s).getD (parse s).path

/-- The authority and the rest of a path that starts with two slashes; none if no slash follows. -/
def divideShare? : List Char → Option (List Char × List Char)
  | '/' :: '/' :: cs =>
    let authority := cs.takeWhile (· != '/')
    match cs.drop authority.length with
    | [] => none
    | path => some (authority, path)
  | cs => some ([], cs)

/-- The escaped form of an absolute path; a drive letter is small and its colon stays. -/
def encodePath (path : List Char) : List Char :=
  match path with
  | slash :: letter :: colon :: rest =>
    if hasDrive path then slash :: letter.toLower :: colon :: encode rest else encode path
  | _ => encode path

/-- The address of the file at a path. Only two slashes with nothing after the name of a host have
none. -/
def ofPath? (p : String) : Option String :=
  (divideShare? p.toList).map fun (authority, path) =>
    let path := if path.head? == some '/' then path else '/' :: path
    let body := encodePath path
    String.ofList <|
      if authority.isEmpty && ['/', '/'].isPrefixOf body then "file:".toList ++ body
      else "file://".toList ++ encode authority ++ body

end Uri

end SolidityServer
