import Oxidize.CommandLine.Arguments

/-!
# Help

The texts that explain the command line.
-/

namespace Oxidize

namespace CommandLine

/-- Lines, each ended. -/
def ended (lines : List String) : String :=
  String.join (lines.map (· ++ "\n"))

/-- The name and the version of the program. -/
def versionText : String :=
  ended ["rivet 0.1.0"]

/-- The commands with what they do. -/
def commandLines : List String :=
  [ "Commands:",
    "  translate  Resolve, analyze and emit Rust source",
    "  check      Resolve and analyze only; print warnings and suggestions",
    "  help       Print this message or the help of the given subcommand(s)" ]

namespace Opt

/-- An option as it is written. -/
def usageLine (o : Opt) : String :=
  let short := o.short?.elim "      --" fun c => "  -" ++ String.singleton c ++ ", --"
  let value := match o with
    | .output => " <OUTPUT>"
    | .maxIterations => " <MAX_ITERATIONS>"
    | .config => " <CONFIG>"
    | _ => ""
  short ++ o.long ++ value

/-- What an option does. -/
def summary : Opt → String
  | .output => "Output file (stdout when omitted)"
  | .strict => "Treat unbound names, missing fields and ambiguous builtins as errors"
  | .maxIterations => "Cap on derive-closure passes. Overrides `rivet.toml`"
  | .config => "Config file (default: nearest `rivet.toml` above the input)"
  | .suggest => "Print ownership suggestions to stderr"
  | .help => "Print help"
  | .version => "Print version"

end Opt

/-- What a command does. -/
def Verb.summary : Verb → String
  | .compile => "Resolve, analyze and emit Rust source"
  | .check => "Resolve and analyze only; print warnings and suggestions"

/-- The help about a topic. -/
def Topic.text : Topic → String
  | .all => ended <|
    ["Translate resolved IR programs into Rust source", "", "Usage: rivet <COMMAND>", ""] ++
      commandLines ++
      ["", "Options:", "  -h, --help     Print help", "  -V, --version  Print version"]
  | .verb v => ended <|
    [v.summary, "", "Usage: rivet " ++ v.name ++ " [OPTIONS] <INPUT>", "", "Arguments:",
      "  <INPUT>  IR program as JSON", "", "Options:"] ++
      v.opts.flatMap fun o => [o.usageLine, "          " ++ o.summary]
  | .help => ended <|
    ["Print this message or the help of the given subcommand(s)", "",
      "Usage: rivet help [COMMAND]...", "", "Arguments:",
      "  [COMMAND]...  Print help for the subcommand(s)"]

/-- What is said about arguments that are not taken. -/
def usageText : String :=
  ended ["error: invalid arguments", "", "Usage: rivet <COMMAND>", "",
    "For more information, try '--help'."]

end CommandLine

end Oxidize
