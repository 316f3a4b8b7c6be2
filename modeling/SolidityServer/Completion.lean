/-! Snippets for common constructs. The same ones are offered everywhere. -/

namespace SolidityServer

/-- A text to insert; its places to fill in are marked. -/
structure Snippet where
  label : String
  body : String
  detail : String
deriving Repr, DecidableEq, Inhabited

def Snippet.all : List Snippet := [
  { label := "contract", body := "contract $\x7b1:Name\x7d \x7b\n\t$0\n\x7d",
    detail := "Contract declaration" },
  { label := "library", body := "library $\x7b1:Name\x7d \x7b\n\t$0\n\x7d",
    detail := "Library declaration" },
  { label := "interface", body := "interface $\x7b1:Name\x7d \x7b\n\t$0\n\x7d",
    detail := "Interface declaration" },
  { label := "function",
    body := "function $\x7b1:name\x7d($\x7b2\x7d) $\x7b3:public\x7d \x7b\n\t$0\n\x7d",
    detail := "Function declaration" },
  { label := "constructor", body := "constructor($\x7b1\x7d) \x7b\n\t$0\n\x7d",
    detail := "Constructor" },
  { label := "modifier", body := "modifier $\x7b1:name\x7d($\x7b2\x7d) \x7b\n\t$0\n\t_;\n\x7d",
    detail := "Modifier declaration" },
  { label := "event", body := "event $\x7b1:Name\x7d($\x7b2\x7d);", detail := "Event declaration" },
  { label := "struct",
    body := "struct $\x7b1:Name\x7d \x7b\n\t$\x7b2:uint256\x7d $\x7b3:field\x7d;\n\x7d",
    detail := "Struct declaration" },
  { label := "enum", body := "enum $\x7b1:Name\x7d \x7b $\x7b2:A\x7d, $\x7b3:B\x7d \x7d",
    detail := "Enum declaration" },
  { label := "mapping",
    body := "mapping($\x7b1:address\x7d => $\x7b2:uint256\x7d) $\x7b3:name\x7d;",
    detail := "Mapping declaration" },
  { label := "require", body := "require($\x7b1:condition\x7d, \"$\x7b2:message\x7d\");",
    detail := "Require statement" },
  { label := "emit", body := "emit $\x7b1:Event\x7d($\x7b2\x7d);", detail := "Emit an event" },
  { label := "if", body := "if ($\x7b1:condition\x7d) \x7b\n\t$0\n\x7d", detail := "If statement" },
  { label := "for",
    body := "for (uint256 $\x7b1:i\x7d = 0; $\x7b1:i\x7d < $\x7b2:length\x7d; $\x7b1:i\x7d++) \x7b"
      ++ "\n\t$0\n\x7d",
    detail := "For loop" },
  { label := "import", body := "import \"$\x7b1:./File.sol\x7d\";", detail := "Import statement" },
  { label := "pragma", body := "pragma solidity $\x7b1:^0.8.0\x7d;", detail := "Version pragma" }]

end SolidityServer
