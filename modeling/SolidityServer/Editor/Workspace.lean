import SolidityServer.Editor.Buffer
import SolidityServer.Path

/-! The documents that an editor has open and the files on disk behind them. A text is looked up by
address: an open document counts as it stands in the editor, any other is read from disk. -/

namespace SolidityServer

/-- Why a text cannot be had. -/
inductive Failure where
  /-- The disk does not answer. -/
  | diskGone
  | missing (path : String)
  | notText (error : Text.Utf8Error)
  /-- A path of a host alone has no address. -/
  | noAddress (path : String)
deriving Repr, DecidableEq, Inhabited

/-- What is wrong with some bytes of a file. -/
def utf8Message (e : Text.Utf8Error) : String :=
  let place := match e.bytes with
    | [byte] => "byte 0x" ++ String.ofList (Text.hex 2 byte) ++ " in position "
      ++ toString e.position
    | bytes =>
      "bytes in position " ++ toString e.position ++ "-" ++ toString (e.position + bytes.length - 1)
  "'utf-8' codec can't decode " ++ place ++ ": " ++ e.cause.message

def Failure.message : Failure → String
  | .diskGone => "disk gone"
  | .missing path => "[Errno 2] No such file or directory: " ++ Text.quoted path
  | .notText e => utf8Message e
  | .noAddress _ => "substring not found"

structure Disk where
  /-- The bytes of each file by its path in normal form. -/
  files : List (String × ByteArray)
  /-- The paths at which the disk does not answer. -/
  broken : List String
deriving Inhabited

namespace Disk

/-- The bytes of the file at a path. -/
def file? (d : Disk) (path : String) : Option ByteArray :=
  if path.isEmpty || path.toList.getLast? == some '/' || path.toList.contains '\x00' then none
  else d.files.lookup (Path.normalize path)

def isFile (d : Disk) (path : String) : Except Failure Bool :=
  if d.broken.contains path then .error .diskGone else .ok (d.file? path).isSome

/-- The text of the file at a path, with a line feed for each return. -/
def read (d : Disk) (path : String) : Except Failure String :=
  match d.file? path with
  | none => .error (.missing path)
  | some bytes =>
    match Text.decodeUtf8 (bytes.toList.map UInt8.toNat) with
    | .error e => .error (.notText e)
    | .ok cs => .ok (String.ofList (Text.unifyReturns cs))

/-- Put a file on the disk, in place of the one at its path. -/
def write (d : Disk) (path : String) (bytes : ByteArray) : Disk :=
  { d with files := (path, bytes) :: d.files.filter (·.1 != path) }

end Disk

/-- A document as it stands in the editor. -/
structure Document where
  uri : String
  text : String
deriving Repr, DecidableEq, Inhabited

def Document.path (d : Document) : String := Uri.documentPath d.uri

structure Workspace where
  disk : Disk
  /-- The open documents by their address with its escapes read. -/
  documents : List (String × Document)
  encoding : Encoding
deriving Inhabited

namespace Workspace

def document? (w : Workspace) (uri : String) : Option Document :=
  w.documents.lookup (Uri.decode uri)

/-- Open a document, or set its text. -/
def put (w : Workspace) (d : Document) : Workspace :=
  let key := Uri.decode d.uri
  { w with documents := (key, d) :: w.documents.filter (·.1 != key) }

def close (w : Workspace) (uri : String) : Workspace :=
  { w with documents := w.documents.filter (·.1 != Uri.decode uri) }

/-- The document at an address, from the editor or else from disk. -/
def read (w : Workspace) (uri : String) : Except Failure Document :=
  match w.document? uri with
  | some d => .ok d
  | none => (w.disk.read (Uri.documentPath uri)).map fun text => { uri, text }

/-- The document at an address as a buffer. -/
def buffer (w : Workspace) (uri : String) : Except Failure Buffer :=
  (w.read uri).map fun d =>
    { uri := d.uri, path := some d.path, text := d.text, encoding := w.encoding }

/-- The file at a path as a buffer, under the address of the path. -/
def bufferAt (w : Workspace) (path : String) : Except Failure Buffer :=
  match Uri.ofPath? path with
  | none => .error (.noAddress path)
  | some uri =>
    (w.read uri).map fun d => { uri, path := some path, text := d.text, encoding := w.encoding }

end Workspace

end SolidityServer
