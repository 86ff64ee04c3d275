import Oxidize.Options
import Oxidize.Toml.Parser

/-!
# Configuration text

A configuration is a TOML document whose table `translate` is a record of options. A document
without that table stands for the default options.
-/

namespace Oxidize

/-- Why a configuration yields no options. -/
inductive ConfigCause where
  | unreadable
  | malformed
  | noPasses
deriving DecidableEq, Repr

/-- A configuration file that yields no options. -/
structure ConfigError where
  path : String
  cause : ConfigCause
deriving DecidableEq, Repr

/-- The wording of a configuration error. -/
def ConfigError.message (e : ConfigError) : String :=
  match e.cause with
  | .unreadable => "config error: failed to read " ++ e.path
  | .malformed => "config error: failed to parse " ++ e.path
  | .noPasses =>
    "config error: failed to parse " ++ e.path ++ ": `" ++ Options.capName ++
      "` must be at least 1"

namespace Options

/-- The record of options as an array holds no more than the options. -/
def withoutSurplus : Json → Json
  | .array items => .array (items.take 3)
  | j => j

/-- The options of a document. -/
def ofDocument? (document : Json) : Option Options := do
  let [record] ← document.fields? ["translate"] | none
  match record with
  | none => return {}
  | some record => ofJson? (withoutSurplus record)

/-- The options of a configuration text. At least one pass is required. -/
def ofConfig (text : String) : Except ConfigCause Options :=
  match Toml.parse? text >>= ofDocument? with
  | none => .error .malformed
  | some options => if options.maxIterations = 0 then .error .noPasses else .ok options

end Options

end Oxidize
