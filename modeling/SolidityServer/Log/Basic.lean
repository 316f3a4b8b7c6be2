/-! Log records. -/

namespace SolidityServer

/-- How grave a record is; the graver the greater. -/
abbrev Level := Int

namespace Level

def debug : Level := 10

def info : Level := 20

def warning : Level := 30

def error : Level := 40

def critical : Level := 50

/-- The name of a level that has one. -/
def name? (level : Level) : Option String :=
  if level = 0 then some "NOTSET"
  else if level = debug then some "DEBUG"
  else if level = info then some "INFO"
  else if level = warning then some "WARNING"
  else if level = error then some "ERROR"
  else if level = critical then some "CRITICAL"
  else none

def name (level : Level) : String := level.name?.getD ("Level " ++ toString level)

end Level

structure Record where
  level : Level
  message : String
deriving Repr, DecidableEq, Inhabited

end SolidityServer
