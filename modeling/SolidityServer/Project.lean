import SolidityServer.Path

/-! A project: the directory that its files are in, and where its packages are. -/

namespace SolidityServer

structure Project where
  /-- An absolute path in normal form. -/
  root : String
  /-- Where packages are, seen from the root. -/
  dependencyDirectory : String
deriving Repr, DecidableEq, Inhabited

namespace Project

def defaultDependencyDirectory : String := "node_modules"

def rootedAt (root dependencyDirectory : String) : Project :=
  { root := Path.absolute root, dependencyDirectory }

def dependencyRoot (p : Project) : String := Path.append p.root p.dependencyDirectory

def resolveAbsolute (p : Project) (path : String) : String :=
  if Path.isAbsolute path then Path.normalize path else Path.normalize (Path.append p.root path)

/-- The way to a path from the root; none to the empty path. -/
def relative? (p : Project) (path : String) : Option String := Path.relativeTo? p.root path

/-- The file that an import in the file `importer` means. An absolute specifier is a path as it is,
one that starts with a dot goes from the importing file, and any other names a file of a package. -/
def importTarget (p : Project) (specifier importer : String) : String :=
  if Path.isAbsolute specifier then specifier
  else if specifier.toList.head? == some '.' then Path.join (Path.parent importer) [specifier]
  else Path.join p.dependencyRoot [specifier]

end Project

end SolidityServer
