import Oxidize.CommandLine.Help
import Oxidize.Compile
import Oxidize.Config
import Oxidize.Files.Tree
import Oxidize.Program.Reader

/-!
# Running a command

`CommandLine.run` answers a command line in any monad that has files. Options come from the nearest
configuration file above the input unless one is named, and the arguments override them.
-/

namespace Oxidize

namespace CommandLine

/-- What a run leaves behind, files apart. -/
structure Report where
  exitCode : Nat
  stdout : String
  stderr : String
deriving DecidableEq, Repr

/-- Why a command fails. -/
inductive Failure where
  | config (e : ConfigError)
  | noPasses
  | unreadable (path : String)
  | malformed (path : String)
  | compile (e : CompileError)
  | unwritable (path : String)
deriving DecidableEq, Repr

/-- The wording of a failure. -/
def Failure.message : Failure → String
  | .config e => e.message
  | .noPasses => "--max-iterations must be at least 1"
  | .unreadable path => "failed to read " ++ path
  | .malformed path => path ++ " is not a valid IR program"
  | .compile e => e.message
  | .unwritable path => "failed to write " ++ path

/-- The name of a configuration file. -/
def configName : String := "rivet.toml"

variable {m : Type → Type} [Monad m]

/-- The nearest configuration file: in the directory of a file, or in the path itself, or in a parent
of it. -/
def findConfig? (fs : FileSystem m) (start : Path) : m (Option Path) := do
  let dir? := if ← fs.isFile start then start.parent? else some start
  match dir? with
  | none => return none
  | some dir => (dir.ancestors.map (·.join configName)).findM? fs.isFile

/-- The options of a configuration file. -/
def loadOptions (fs : FileSystem m) (path : Path) : m (Except ConfigError Options) := do
  match ← fs.read path with
  | none => return .error ⟨path.text, .unreadable⟩
  | some text => return (Options.ofConfig text).mapError (⟨path.text, ·⟩)

/-- The options of a configuration file, if there is one. -/
def baseOptions (fs : FileSystem m) (input : Path) (config : Option String) :
    ExceptT Failure m Options := do
  let path? ← match config with
    | some path => pure (some (Path.ofString path))
    | none => ExceptT.lift (findConfig? fs input)
  match path? with
  | none => return {}
  | some path => ExceptT.mk do return (← loadOptions fs path).mapError .config

/-- Options with what has been given on the command line. -/
def Given.override (g : Given) (options : Options) : Except Failure Options :=
  let options := { options with strict := options.strict || g.strict }
  match g.maxIterations with
  | none => .ok options
  | some 0 => .error .noPasses
  | some n => .ok { options with maxIterations := n }

/-- The program in a file. -/
def readProgram (fs : FileSystem m) (path : Path) : ExceptT Failure m Program := do
  match ← fs.read path with
  | none => throw (.unreadable path.text)
  | some text =>
    match Program.parse? text with
    | none => throw (.malformed path.text)
    | some p => return p

/-- The lines about hints. -/
def suggestionLines (suggestions : List Suggestion) : List String :=
  suggestions.map ("suggestion: " ++ ·.display)

/-- The report of an analysis. -/
def checkReport (a : Analysis) : Report :=
  let counts := "ok: " ++ toString a.outcome.copyable.length ++ " copyable type(s), " ++
    toString a.warnings.length ++ " warning(s), " ++ toString a.suggestions.length ++
    " suggestion(s)"
  ⟨0, ended (a.warnings.map (·.display) ++ suggestionLines a.suggestions ++ [counts]), ""⟩

/-- The report of a compiled program, whose source goes to a file if one is named. -/
def sourceReport (fs : FileSystem m) (g : Given) (c : Compiled) : ExceptT Failure m Report := do
  let remarks := ended (c.warnings.map (·.display) ++
    if g.suggest then suggestionLines c.suggestions else [])
  match g.output with
  | none => return ⟨0, c.source, remarks⟩
  | some path =>
    if ← fs.write (.ofString path) c.source then return ⟨0, "", remarks⟩
    else throw (.unwritable path)

/-- The report of a command. -/
def runVerb (fs : FileSystem m) (verb : Verb) (input : Path) (g : Given) :
    ExceptT Failure m Report := do
  let options ← ExceptT.mk (pure (g.override (← baseOptions fs input g.config)))
  let p ← readProgram fs input
  match verb with
  | .compile =>
    match (p.compile options).value with
    | .error e => throw (.compile e)
    | .ok c => sourceReport fs g c
  | .check =>
    match (p.analyze options).value with
    | .error fault => throw (.compile (.fault fault))
    | .ok a => return checkReport a

/-- The report of a request. -/
def Request.report (fs : FileSystem m) : Request → m Report
  | .help topic => return ⟨0, topic.text, ""⟩
  | .version => return ⟨0, versionText, ""⟩
  | .usage => return ⟨2, "", usageText⟩
  | .run verb input g => do
    match ← (runVerb fs verb (.ofString input) g).run with
    | .ok report => return report
    | .error e => return ⟨1, "", "Error: " ++ e.message ++ "\n"⟩

/-- The report of a command line. -/
def run (fs : FileSystem m) (args : List String) : m Report :=
  (Request.ofArgs args).report fs

end CommandLine

end Oxidize
