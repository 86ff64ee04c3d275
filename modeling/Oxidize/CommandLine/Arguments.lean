import Oxidize.Number.Count

/-!
# Arguments

`Request.ofArgs` says what the arguments of a command line ask for. They are taken from left to
right, and the first of a request for help and a mistake decides.
-/

namespace Oxidize

namespace CommandLine

/-- An option. -/
inductive Opt where
  | output
  | strict
  | maxIterations
  | config
  | suggest
  | help
  | version
deriving DecidableEq, Repr

namespace Opt

/-- The long name, without its dashes. -/
def long : Opt → String
  | .output => "output"
  | .strict => "strict"
  | .maxIterations => "max-iterations"
  | .config => "config"
  | .suggest => "suggest"
  | .help => "help"
  | .version => "version"

/-- The short name, without its dash. -/
def short? : Opt → Option Char
  | .output => some 'o'
  | .help => some 'h'
  | .version => some 'V'
  | _ => none

/-- The option is followed by a value. -/
def takesValue : Opt → Bool
  | .output | .maxIterations | .config => true
  | _ => false

end Opt

/-- A command that works on a program. -/
inductive Verb where
  | compile
  | check
deriving DecidableEq, Repr

namespace Verb

/-- The name of a command. -/
def name : Verb → String
  | .compile => "translate"
  | .check => "check"

/-- The command with the given name. -/
def ofName? (name : String) : Option Verb :=
  [compile, check].find? (·.name == name)

/-- The options of a command. -/
def opts : Verb → List Opt
  | .compile => [.output, .strict, .maxIterations, .config, .suggest, .help]
  | .check => [.strict, .maxIterations, .config, .help]

end Verb

/-- One argument, or an option with its value. -/
inductive Token where
  | opt (o : Opt) (value : String)
  | positional (text : String)
  | mistake
deriving DecidableEq, Repr

/-- The text would be taken for an option. -/
def isDashed (text : String) : Bool :=
  text.length > 1 && text.toList.head? == some '-'

/-- A value attached to a short option, which may follow an equals sign. -/
def attached : List Char → String
  | '=' :: cs => String.ofList cs
  | cs => String.ofList cs

/-- What a run of short options comes to: its tokens, and the option that takes the next argument as
its value. -/
def shortTokens (opts : List Opt) : List Char → List Token × Option Opt
  | [] => ([], none)
  | c :: cs =>
    match opts.find? (·.short? == some c) with
    | none => ([.mistake], none)
    | some o =>
      if !o.takesValue then
        let (tokens, pending) := shortTokens opts cs
        (.opt o "" :: tokens, pending)
      else if cs.isEmpty then ([], some o)
      else ([.opt o (attached cs)], none)

/-- What a long option comes to, given its text after the dashes. -/
def longTokens (opts : List Opt) (text : List Char) : List Token × Option Opt :=
  let (name, rest) := text.span (· != '=')
  match opts.find? (·.long.toList == name), rest with
  | none, _ => ([.mistake], none)
  | some o, [] => if o.takesValue then ([], some o) else ([.opt o ""], none)
  | some o, _ :: value =>
    if o.takesValue then ([.opt o (String.ofList value)], none) else ([.mistake], none)

/-- What one argument comes to. -/
def argTokens (opts : List Opt) (arg : String) : List Token × Option Opt :=
  match arg.toList with
  | '-' :: '-' :: cs => longTokens opts cs
  | '-' :: c :: cs => shortTokens opts (c :: cs)
  | _ => ([.positional arg], none)

/-- The tokens of arguments. The flag says that a double dash has come, after which nothing is an
option; `pending` is an option that waits for its value. -/
def tokens (opts : List Opt) : Bool → Option Opt → List String → List Token
  | _, none, [] => []
  | _, some _, [] => [.mistake]
  | onlyPositional, some o, arg :: args =>
    if isDashed arg then [.mistake] else .opt o arg :: tokens opts onlyPositional none args
  | true, none, arg :: args => .positional arg :: tokens opts true none args
  | false, none, arg :: args =>
    if arg = "--" then tokens opts true none args
    else
      let (front, pending) := argTokens opts arg
      front ++ tokens opts false pending args

/-- What a command has been given. -/
structure Given where
  input : Option String := none
  output : Option String := none
  strict : Bool := false
  maxIterations : Option Nat := none
  config : Option String := none
  suggest : Bool := false
deriving DecidableEq, Repr

/-- Why the arguments of a command are not taken. -/
inductive Refusal where
  | help
  | usage
deriving DecidableEq, Repr

/-- A file name given for the first time. -/
def given? (before : Option String) (text : String) : Except Refusal (Option String) :=
  if before.isSome || text.isEmpty then .error .usage else .ok (some text)

/-- A flag given for the first time. -/
def raised? (before : Bool) : Except Refusal Bool :=
  if before then .error .usage else .ok true

/-- What has been given after one more token. -/
def Given.add (g : Given) : Token → Except Refusal Given
  | .mistake => .error .usage
  | .positional text => return { g with input := ← given? g.input text }
  | .opt .output value => return { g with output := ← given? g.output value }
  | .opt .config value => return { g with config := ← given? g.config value }
  | .opt .strict _ => return { g with strict := ← raised? g.strict }
  | .opt .suggest _ => return { g with suggest := ← raised? g.suggest }
  | .opt .maxIterations value =>
    match g.maxIterations, count? value.toList with
    | none, some n => .ok { g with maxIterations := some n }
    | _, _ => .error .usage
  | .opt .help _ => .error .help
  | .opt .version _ => .error .usage

/-- What help is asked about. -/
inductive Topic where
  | all
  | verb (v : Verb)
  | help
deriving DecidableEq, Repr

/-- What a command line asks for. -/
inductive Request where
  | run (verb : Verb) (input : String) (given : Given)
  | help (topic : Topic)
  | version
  | usage
deriving DecidableEq, Repr

namespace Request

/-- The request of a command with the given arguments. -/
def ofVerb (verb : Verb) (args : List String) : Request :=
  match (tokens verb.opts false none args).foldlM Given.add {} with
  | .error .help => .help (.verb verb)
  | .error .usage => .usage
  | .ok g => g.input.elim .usage fun input => .run verb input g

/-- The request for help about the given names. -/
def ofHelp : List String → Request
  | [] => .help .all
  | [name] =>
    if name = "help" then .help .help
    else (Verb.ofName? name).elim .usage fun verb => .help (.verb verb)
  | _ => .usage

/-- What the arguments of a command line ask for. -/
def ofArgs : List String → Request
  | [] => .usage
  | arg :: args =>
    match (argTokens [.help, .version] arg).1 with
    | .opt .help _ :: _ => .help .all
    | .opt .version _ :: _ => .version
    | .positional name :: _ =>
      if name = "help" then ofHelp args
      else (Verb.ofName? name).elim .usage fun verb => ofVerb verb args
    | _ => .usage

end Request

end CommandLine

end Oxidize
