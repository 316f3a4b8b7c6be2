import SolidityServer.Json.Display
import SolidityServer.Log.Basic
import SolidityServer.Path
import SolidityServer.Project
import SolidityServer.Text.Uppercase

/-! Settings of the server. They come from the environment, and options that the client sends lie
over them. -/

namespace SolidityServer

structure Settings where
  /-- Where packages are, seen from the root of the project. -/
  dependencyDirectory : String := Project.defaultDependencyDirectory
  linter : String := "solhint"
  solhintPath : String := "solhint"
  soliumPath : String := "solium"
  /-- The compiler version that the linter enforces. -/
  solcVersion : Option String := none
  logLevel : String := "INFO"
deriving Repr, DecidableEq, Inhabited

namespace Settings

def ofEnvironment (environment : List (String × String)) : Settings :=
  let value (name default : String) : String := (environment.lookup name).getD default
  { dependencyDirectory := value "ASPIC_DEPENDENCY_DIR" Project.defaultDependencyDirectory
    linter := value "ASPIC_LINTER" "solhint"
    solhintPath := value "ASPIC_SOLHINT" "solhint"
    soliumPath := value "ASPIC_SOLIUM" "solium"
    logLevel := Text.uppercase (value "ASPIC_LOG_LEVEL" "INFO") }

/-- The settings with a client's options over them. Options that are no object change nothing, and a
compiler version counts only if it is given. -/
def overlay (s : Settings) (options : Json) : Settings :=
  let option (name default : String) : String :=
    match options.get? name with
    | some j => j.display
    | none => default
  { dependencyDirectory := option "dependencyDirectory" s.dependencyDirectory
    linter := option "linter" s.linter
    solhintPath := option "solhintPath" s.solhintPath
    soliumPath := option "soliumPath" s.soliumPath
    solcVersion :=
      match options.get? "solcVersion" with
      | some j => if j.isGiven then some j.display else s.solcVersion
      | none => s.solcVersion
    logLevel :=
      match options.get? "logLevel" with
      | some j => Text.uppercase j.display
      | none => s.logLevel }

def linters : List String := ["solhint", "solium", "none"]

def logLevels : List (String × Level) :=
  [("CRITICAL", Level.critical), ("ERROR", Level.error), ("WARNING", Level.warning),
    ("INFO", Level.info), ("DEBUG", Level.debug)]

/-- What is wrong with a setting. -/
inductive Problem where
  | unknownLinter (name : String)
  | noDependencyDirectory
  | absoluteDependencyDirectory (path : String)
  | unknownLogLevel (name : String)
deriving Repr, DecidableEq, Inhabited

def Problem.message : Problem → String
  | .unknownLinter name =>
    "Unknown linter " ++ Text.quoted name ++ ", expected one of " ++ ", ".intercalate linters
  | .noDependencyDirectory => "Dependency directory must not be empty"
  | .absoluteDependencyDirectory path =>
    "Dependency directory must be relative to the project root: " ++ path
  | .unknownLogLevel name => "Unknown log level " ++ Text.quoted name

/-- Everything that is wrong. -/
def problems (s : Settings) : List Problem :=
  (if linters.contains s.linter then [] else [.unknownLinter s.linter])
    ++ (if s.dependencyDirectory.isEmpty then [.noDependencyDirectory] else [])
    ++ (if Path.isAbsolute s.dependencyDirectory then
        [.absoluteDependencyDirectory s.dependencyDirectory] else [])
    ++ (if (logLevels.lookup s.logLevel).isSome then [] else [.unknownLogLevel s.logLevel])

/-- The level from which on records are logged; an unknown name means the usual level. -/
def level (s : Settings) : Level := (logLevels.lookup s.logLevel).getD Level.info

/-- The settings in one line. -/
def display (s : Settings) : String :=
  let version := match s.solcVersion with
    | some v => Text.quoted v
    | none => "None"
  "ServerSettings(dependency_directory=" ++ Text.quoted s.dependencyDirectory
    ++ ", linter=" ++ Text.quoted s.linter ++ ", solhint_path=" ++ Text.quoted s.solhintPath
    ++ ", solium_path=" ++ Text.quoted s.soliumPath ++ ", solc_version=" ++ version
    ++ ", log_level=" ++ Text.quoted s.logLevel ++ ")"

end Settings

end SolidityServer
