import PostfixRules.Text.Integer

/-!
# Log levels

A level is given by its name in any case, or by its number from 0 for `off` to 5 for `trace`. A
level from the environment counts before the one of the settings; text that is no level is passed
over.
-/

namespace PostfixRules

/-- How much is logged. -/
inductive LogLevel where
  | off
  | error
  | warn
  | info
  | debug
  | trace
  deriving DecidableEq, Repr

namespace LogLevel

/-- All levels, each at its number. -/
def all : List LogLevel :=
  [.off, .error, .warn, .info, .debug, .trace]

/-- The name of a level. -/
def name : LogLevel → String
  | .off => "off"
  | .error => "error"
  | .warn => "warn"
  | .info => "info"
  | .debug => "debug"
  | .trace => "trace"

/-- The level that a text gives, by number or by name. -/
def ofText? (text : String) : Option LogLevel :=
  match (Text.unsigned? (2 ^ (64 : Nat)) text.toList).bind fun i => all[i]? with
  | some level => some level
  | none => all.find? fun level => level.name == String.ofList (text.toList.map Char.toLower)

/-- The level in force: that of the environment, else that of the settings, else `info`. -/
def choose (fromEnvironment : Option String) (fromSettings : String) : LogLevel :=
  match fromEnvironment.bind ofText? with
  | some level => level
  | none => (ofText? fromSettings).getD .info

end LogLevel

end PostfixRules
