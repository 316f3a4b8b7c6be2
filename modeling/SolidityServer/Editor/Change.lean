import SolidityServer.Editor.Buffer

/-! Changes that an editor makes to the text of a document. -/

namespace SolidityServer

inductive Change where
  | whole (text : String)
  /-- Put a text in place of a range. -/
  | part (range : Range) (text : String)
deriving Repr, DecidableEq, Inhabited

namespace Change

/-- Lines with a text in place of what stands between two places. Nothing changes if the second
place is on an earlier line than the first. -/
def splice (lines : List (List Char)) (start stop : Nat × Nat) (text : List Char) : List Char :=
  if stop.1 < start.1 then lines.flatten
  else
    (lines.take start.1).flatten ++ (lines.getD start.1 []).take start.2 ++ text
      ++ (lines.getD stop.1 []).drop stop.2 ++ (lines.drop (stop.1 + 1)).flatten

/-- The text after a change. -/
def apply (e : Encoding) (text : String) : Change → String
  | .whole new => new
  | .part range new =>
    let lines := Text.splitLines text.toList
    if lines.isEmpty then new
    else
      let start := Buffer.place e lines range.start
      let stop := Buffer.place e lines range.stop
      String.ofList (splice lines start stop new.toList)

end Change

end SolidityServer
