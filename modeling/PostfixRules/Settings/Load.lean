import PostfixRules.Number.Style
import PostfixRules.Settings.Key
import PostfixRules.Settings.Variables
import PostfixRules.Text.Capital

/-!
# Loading settings

The settings of a service are decoded from its layers: the names that the caller gives, the files
`default`, of the environment and of the service, and the variables. Every setting has a default,
and unknown keys do not count. Scalars are converted to the kind that is wanted where that is
possible; anything else is an error. A variable of its own may set the port of one service.
-/

namespace PostfixRules

/-- Where the service listens. -/
structure ServerSettings where
  host : String
  port : UInt16
  deriving DecidableEq, Repr

/-- What the service logs and measures. -/
structure ObservabilitySettings where
  serviceName : String
  logLevel : String
  logFormat : String
  metricsEnabled : Bool
  metricsPort : UInt16
  deriving DecidableEq, Repr

/-- The settings of a service. -/
structure Settings where
  serviceName : String
  environment : String
  server : ServerSettings
  observability : ObservabilitySettings
  deriving DecidableEq, Repr

/-- The server of a service without settings. -/
def ServerSettings.default : ServerSettings :=
  ⟨"0.0.0.0", 3000⟩

namespace ObservabilitySettings

/-- What a service without settings logs and measures. -/
def default : ObservabilitySettings :=
  ⟨"unknown-service", "info", "pretty", true, 9090⟩

/-- The same settings for a service of another name. -/
def withServiceName (settings : ObservabilitySettings) (name : String) : ObservabilitySettings :=
  { settings with serviceName := name }

/-- Whether logs are written as JSON; the format is named in any case. -/
def jsonLogs (settings : ObservabilitySettings) : Bool :=
  settings.logFormat.toList.map Char.toLower == ['j', 's', 'o', 'n']

end ObservabilitySettings

namespace Setting

/-- The text that a scalar stands for. -/
def text? : Setting → Option String
  | .text s => some s
  | .flag b => some (if b then "true" else "false")
  | .whole i => some (String.ofList (Text.signedDecimal i))
  | .real x => some x.plainText
  | .list _ | .table _ => none

/-- The truth value that a word stands for, in any case. -/
def wordFlag? (word : String) : Option Bool :=
  let lower := String.ofList (word.toList.map Char.toLower)
  if ["true", "on", "yes"].contains lower then some true
  else if ["false", "off", "no"].contains lower then some false
  else none

/-- The truth value that a scalar stands for. A number is true unless it is zero. -/
def flag? : Setting → Option Bool
  | .flag b => some b
  | .whole i => some (i != 0)
  | .real (.finite x) => some (x.mantissa != 0)
  | .real _ => some true
  | .text s => if s = "1" then some true else if s = "0" then some false else wordFlag? s
  | .list _ | .table _ => none

/-- The port of a number, if it is small enough. -/
def portOfNat? (n : Nat) : Option UInt16 :=
  (Text.below (2 ^ (16 : Nat)) n).map UInt16.ofNat

/-- The port that a text gives in digits. -/
def portOfText? (text : String) : Option UInt16 :=
  (Text.unsigned? (2 ^ (16 : Nat)) text.toList).bind portOfNat?

/-- The port that a scalar stands for. Truth values count as one and zero; a double is rounded, a
half away from zero, and gives zero if it is negative or not a number. -/
def port? : Setting → Option UInt16
  | .flag b => some (if b then 1 else 0)
  | .whole (.ofNat n) => portOfNat? n
  | .whole (.negSucc _) => none
  | .real (.finite x) => if x.negative then some 0 else portOfNat? x.roundedMagnitude
  | .real (.infinity negative) => if negative then some 0 else none
  | .real .nan => some 0
  | .text s =>
    match wordFlag? s with
    | some b => some (if b then 1 else 0)
    | none => portOfText? s
  | .list _ | .table _ => none

/-- A setting decoded, or its default if it is not given. -/
def decodeOr {α : Type} (fallback : α) (decode : Setting → Option α) (given : Option Setting) :
    Option α :=
  match given with
  | none => some fallback
  | some setting => decode setting

/-- The parts of a section: those of a table by name, those of a list in the order of the names. A
section that is not given has no parts, and a scalar is no section. -/
def partsOf? (names : List String) : Option Setting → Option (List (Option Setting))
  | none => some (names.map fun _ => none)
  | some (.table entries) => some (names.map fun name => entries.lookup name)
  | some (.list elements) => some ((List.range names.length).map fun i => elements[i]?)
  | some _ => none

end Setting

/-- Decode the section of the server. -/
def ServerSettings.decode? (section? : Option Setting) : Option ServerSettings := do
  match ← Setting.partsOf? ["host", "port"] section? with
  | [host, port] =>
    let host ← Setting.decodeOr ServerSettings.default.host Setting.text? host
    let port ← Setting.decodeOr ServerSettings.default.port Setting.port? port
    some ⟨host, port⟩
  | _ => none

/-- Decode the section of what is logged and measured. -/
def ObservabilitySettings.decode? (section? : Option Setting) : Option ObservabilitySettings := do
  let names := ["service_name", "log_level", "log_format", "metrics_enabled", "metrics_port"]
  match ← Setting.partsOf? names section? with
  | [serviceName, logLevel, logFormat, metricsEnabled, metricsPort] =>
    let serviceName ← Setting.decodeOr default.serviceName Setting.text? serviceName
    let logLevel ← Setting.decodeOr default.logLevel Setting.text? logLevel
    let logFormat ← Setting.decodeOr default.logFormat Setting.text? logFormat
    let metricsEnabled ← Setting.decodeOr default.metricsEnabled Setting.flag? metricsEnabled
    let metricsPort ← Setting.decodeOr default.metricsPort Setting.port? metricsPort
    some ⟨serviceName, logLevel, logFormat, metricsEnabled, metricsPort⟩
  | _ => none

namespace Settings

/-- The settings of a service without a name or any settings. -/
def default : Settings :=
  ⟨"", "", .default, .default⟩

/-- Where the service listens, as host and port. -/
def address (settings : Settings) : String :=
  settings.server.host ++ ":" ++ Text.natText settings.server.port.toNat

/-- Whether the service runs in production. -/
def isProduction (settings : Settings) : Bool :=
  settings.environment == "production"

/-- Decode the layers, laid over each other. -/
def decode? (entries : Layer) : Option Settings := do
  let serviceName ← Setting.decodeOr "" Setting.text? (entries.lookup "service_name")
  let environment ← Setting.decodeOr "" Setting.text? (entries.lookup "environment")
  let server ← ServerSettings.decode? (entries.lookup "server")
  let observability ← ObservabilitySettings.decode? (entries.lookup "observability")
  some ⟨serviceName, environment, server, observability⟩

/-- The environment that the variables name, else `development`. -/
def environmentOf (env : List (String × String)) : String :=
  (env.lookup "RULES_ENV").getD "development"

/-- The name of the variable with the port of a service: its name in capitals, with underscores in
place of hyphens. -/
def portVariable (service : String) : String :=
  String.ofList ((Text.capitals service).toList.map fun c => if c = '-' then '_' else c) ++ "_PORT"

/-- The port that a variable sets for a service; text that is no port is passed over. -/
def portFor? (service : String) (env : List (String × String)) : Option UInt16 :=
  (env.lookup (portVariable service)).bind Setting.portOfText?

/-- The layer of a file. If there is no file of the name, one counts whose name has `.toml` after
it; a file that is not there at all, or whose name is empty, has no entries. A file that cannot be
read is an error. -/
def fileLayer? (files : List (String × Option Layer)) (name : String) : Option Layer :=
  match files.lookup name with
  | some layer => if name.isEmpty then some [] else layer
  | none => (files.lookup (name ++ ".toml")).getD (some [])

/-- Load the settings of a service from the files at hand, each with its layer if it can be read,
and the environment variables. -/
def load (service : String) (files : List (String × Option Layer))
    (env : List (String × String)) : Option Settings := do
  let environment := environmentOf env
  let given : Layer := [("service_name", .text service), ("environment", .text environment)]
  let layers ← ["default", environment, service].mapM (fileLayer? files)
  let settings ← decode? (Setting.stack (given :: layers ++ [Setting.ofVariables env]))
  let server :=
    match portFor? service env with
    | some port => { settings.server with port := port }
    | none => settings.server
  some { settings with
    server := server
    observability := settings.observability.withServiceName settings.serviceName }

end Settings

end PostfixRules
