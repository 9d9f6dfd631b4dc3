import CabalManifest.Build
import CabalManifest.CommandLine.Arguments
import CabalManifest.Text.Uppercase

/-!
# The command line

Runs a command: reads its arguments, finds the manifest, and builds its package description. A
command ends with a code that is zero only if it did what was asked; a refusal of its arguments has a
code of its own. Messages are logged if they are important enough, by an option or the environment.
-/

namespace CabalManifest.CommandLine

/-! ### Texts -/

/-- Lines as a text. -/
def textOfLines (lines : List String) : String := String.join (lines.map (· ++ "\n"))

/-- How the program is called. -/
def usage : String :=
  textOfLines ["usage: cabalize [-h] [--stdout] [-f] [--defaults-dir DIR] [--version]",
    "                [-q | -v | --log-level LOG_LEVEL]",
    "                [PATH] [-]"]

/-- What the program does, with all its options. -/
def helpText : String :=
  usage ++ textOfLines ["",
    "Generate a .cabal file from package.yaml.",
    "",
    "positional arguments:",
    "  PATH                  package.yaml or the directory holding it (default:",
    "                        current dir).",
    "  -                     Write the result to stdout (same as --stdout).",
    "",
    "options:",
    "  -h, --help            show this help message and exit",
    "  --stdout              Write the result to stdout instead of the .cabal file.",
    "  -f, --force           Overwrite a .cabal file even if it was modified",
    "                        manually.",
    "  --defaults-dir DIR    Where downloaded defaults are stored (default:",
    "                        ~/.cabalize/defaults).",
    "  --version             Show version info.",
    "  -q, --quiet           Suppress non-critical output (same as --log-level",
    "                        warning).",
    "  -v, --verbose         Verbose output (same as --log-level debug).",
    "  --log-level LOG_LEVEL",
    "                        Set log verbosity level (trace, debug, info, warning,",
    "                        error, silent)."]

/-- The name and version of the program. -/
def versionText : String := "Cabalize 0.1.0"

/-- What is printed when arguments are refused. -/
def Refusal.text (refusal : Refusal) : String :=
  usage ++ textOfLines (("cabalize: error: " ++ refusal.message) :: refusal.hints)

/-! ### Log levels -/

/-- The names of levels in capitals. Further names stand for the level next to them that lets the
same messages pass, and a level that is not set is the default one. -/
def levelNames : List (String × Level) :=
  [("NOTSET", .info), ("TEST", .trace), ("TRACE", .trace), ("DEBUG", .debug), ("DETAIL", .info),
    ("INFO", .info), ("BRIEF", .warning), ("WARN", .warning), ("WARNING", .warning),
    ("ERROR", .error), ("FATAL", .critical), ("CRITICAL", .critical), ("SILENT", .silent)]

/-- The level of a name, which may be written in any case. -/
def levelOfName (name : String) : Except Failure Level :=
  let name := String.ofList (name.toList.flatMap Text.uppercase)
  match levelNames.lookup name with
  | some level => .ok level
  | none => .error (.unknownLogLevel name)

/-- The least level that is logged: the one that was asked for, even by an empty name, else that of
the environment. -/
def threshold (options : Options) (world : World) : Except Failure Level :=
  let chosen := options.logLevel <|> world.setting? "CABALIZE_LOG_LEVEL" <|>
    world.setting? "LOG_LEVEL"
  levelOfName (chosen.getD "info")

/-! ### Running -/

/-- How a command ended. -/
structure Report where
  code : Nat
  stdout : String
  stderr : String
  deriving DecidableEq, Repr

/-- The report of a build. -/
def Report.ofOutcome : Manifest.Outcome → Report
  | .printed output => ⟨0, output, ""⟩
  | .generated | .upToDate => ⟨0, "", ""⟩
  | .modified => ⟨1, "", ""⟩

/-- Does what options ask for. -/
def execute (options : Options) : Run Report := do
  let level ← Run.reading (threshold options)
  modify fun world ↦ { world with threshold := level }
  if options.version then
    Run.say .info versionText
    return ⟨0, "", ""⟩
  let manifest ← Manifest.find options.path
  Run.say .debug ("Using manifest: " ++ manifest.text)
  let store ← Run.reading (Store.directory (options.defaultsDir.filter (· != "")))
  Report.ofOutcome <$> Manifest.build manifest store options.toOutput options.force

/-- Whether a failure is one that a user has to reckon with. -/
def isExpected : Failure → Bool
  | .isDirectory _ | .notDirectory _ | .fileExists _ | .longName _ | .badAddress _ => false
  | .misfit cause => cause = .nestedDate
  | _ => true

/-- Logs the failure that ended a command. An unexpected one is critical, unless the log has the
details that explain it. -/
def sayFailure (failure : Failure) (world : World) : World :=
  if isExpected failure then world.say .error failure.message
  else
    let level : Level := if world.threshold.rank ≤ Level.debug.rank then .error else .critical
    world.say level ("Unexpected internal error: " ++ failure.message)

/-- Runs a command with certain arguments. -/
def run (arguments : List String) : StateM World Report := do
  match Request.ofArguments arguments with
  | .help => return ⟨0, helpText, ""⟩
  | .refused refusal => return ⟨2, "", refusal.text⟩
  | .run options =>
    match ← (execute options).run with
    | .ok report => return report
    | .error failure =>
      modify (sayFailure failure)
      return ⟨1, "", ""⟩

end CabalManifest.CommandLine
