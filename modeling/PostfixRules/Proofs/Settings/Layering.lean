import PostfixRules.Proofs.Settings.Stack
import PostfixRules.Proofs.Text.Digits

/-!
# The layer that a setting comes from

The settings of a service are decoded from all its layers together. Each of them nevertheless comes
from a single layer: the last that gives something at the path of this very setting. Layers that
give other keys of the same section do not matter to it. Two settings depend on more than the
layers. A variable of its own may set the port of the service, and what is logged and measured
always goes under the name of the service.
-/

namespace PostfixRules

namespace Setting

/-! ## The layer in force -/

/-- What is given at a path inside a value, one after the other. -/
def valuesAt : List String → Setting → List Setting
  | [], value => [value]
  | key :: path, value => (valuesOf key (entriesOf (some value))).flatMap (valuesAt path)

/-- What a layer gives at a path, if anything: the last value that it has there. -/
def given? (path : List String) (layer : Layer) : Option Setting :=
  (valuesAt path (.table (expand layer))).getLast?

/-- What is in force at a path: what the last layer gives that gives anything there. -/
def inForce (layers : List Layer) (path : List String) : Option Setting :=
  layers.reverse.findSome? (given? path)

/-- A value that a setting has from layers: its default if nothing is in force at its path, else
what is in force there, converted. -/
def ReadsAs {α : Type} (layers : List Layer) (path : List String) (decode : Setting → Option α)
    (fallback value : α) : Prop :=
  match inForce layers path with
  | none => value = fallback
  | some given => decode given = some value

/-- Whether the sections of a layer are tables, where it has any. -/
def KeepsSections (layer : Layer) : Prop :=
  ∀ key ∈ ["server", "observability"], ∀ value ∈ valuesOf key (expand layer), value.isTable = true

instance (layer : Layer) : Decidable (KeepsSections layer) :=
  inferInstanceAs (Decidable (∀ key ∈ ["server", "observability"],
    ∀ value ∈ valuesOf key (expand layer), value.isTable = true))

theorem decodeOr_eq_some_iff_readsAs {α : Type} {layers : List Layer} {path : List String}
    {decode : Setting → Option α} {fallback value : α} :
    decodeOr fallback decode (inForce layers path) = some value ↔
      ReadsAs layers path decode fallback value := by
  unfold ReadsAs
  cases inForce layers path with
  | none => exact Option.some_inj.trans eq_comm
  | some given => exact Iff.rfl

/-- What is in force at a path is given by a layer above which none gives anything there. -/
theorem inForce_eq_some_iff {layers : List Layer} {path : List String} {value : Setting} :
    inForce layers path = some value ↔ ∃ below layer above, layers = below ++ layer :: above ∧
      given? path layer = some value ∧ ∀ later ∈ above, given? path later = none := by
  rw [inForce, List.findSome?_eq_some_iff]
  constructor
  · rintro ⟨above, layer, below, hlayers, hgiven, hsilent⟩
    refine ⟨below.reverse, layer, above.reverse, ?_, hgiven, ?_⟩
    · rw [List.reverse_eq_iff] at hlayers
      rw [hlayers, List.reverse_append, List.reverse_cons, List.append_assoc,
        List.singleton_append]
    · exact fun later hlater => hsilent later (List.mem_reverse.mp hlater)
  · rintro ⟨below, layer, above, rfl, hgiven, hsilent⟩
    refine ⟨above.reverse, layer, below.reverse, ?_, hgiven, ?_⟩
    · rw [List.reverse_append, List.reverse_cons, List.append_assoc, List.singleton_append]
    · exact fun later hlater => hsilent later (List.mem_reverse.mp hlater)

/-- A layer that gives nothing at a path does not matter there, whatever else it gives. -/
theorem inForce_of_silent {layer : Layer} {path : List String} (h : given? path layer = none)
    (below above : List Layer) :
    inForce (below ++ layer :: above) path = inForce (below ++ above) path := by
  simp only [inForce, List.reverse_append, List.reverse_cons, List.findSome?_append,
    List.findSome?_cons, List.findSome?_nil, h, Option.or_none]

theorem inForce_cons (layer : Layer) (layers : List Layer) (path : List String) :
    inForce (layer :: layers) path = (inForce layers path).or (given? path layer) := by
  rw [inForce, List.reverse_cons, List.findSome?_append, List.findSome?_cons, List.findSome?_nil]
  cases given? path layer <;> rfl

/-- What is in force is what is given last by all layers together. -/
theorem inForce_eq_getLast? (layers : List Layer) (key : String) (path : List String) :
    inForce layers (key :: path) =
      (valuesAt (key :: path) (.table (layers.flatMap expand))).getLast? := by
  induction layers with
  | nil => rfl
  | cons layer rest ih =>
    have hvalues : valuesAt (key :: path) (.table ((layer :: rest).flatMap expand)) =
        valuesAt (key :: path) (.table (expand layer)) ++
          valuesAt (key :: path) (.table (rest.flatMap expand)) := by
      simp only [valuesAt, entriesOf, List.flatMap_cons, valuesOf_append, List.flatMap_append]
    rw [inForce_cons, ih, given?, hvalues, List.getLast?_append]

theorem valuesAt_singleton (key : String) (value : Setting) :
    valuesAt [key] value = valuesOf key (entriesOf (some value)) := by
  simp only [valuesAt, List.flatMap_singleton']

/-- What is given to a key of a section. -/
theorem valuesAt_pair (key name : String) (entries : Layer) :
    valuesAt [key, name] (.table entries) = valuesOf name (sectionEntries key entries) := by
  rw [valuesAt, sectionEntries, entriesOf]
  induction valuesOf key entries with
  | nil => rfl
  | cons value rest ih =>
    rw [List.flatMap_cons, List.flatMap_cons, valuesOf_append, ih, valuesAt_singleton]

section Scalars

variable {α : Type} {decode : Setting → Option α}
  (hdecode : ∀ entries, decode (.table entries) = none) (fallback : α) (layers : List Layer)

include hdecode

/-- A scalar decoded from all layers is decoded from the layer in force. -/
theorem decodeOr_lookup_stack (key : String) :
    decodeOr fallback decode ((stack layers).lookup key) =
      decodeOr fallback decode (inForce layers [key]) := by
  rw [stack_eq_layOver, decodeOr_lookup_layOver hdecode, inForce_eq_getLast?, valuesAt_singleton,
    entriesOf]

/-- The same for a scalar in a section, of which each key has its own layer. -/
theorem decodeOr_lookup_section (key name : String) :
    decodeOr fallback decode
        ((layOver [] (sectionEntries key (layers.flatMap expand))).lookup name) =
      decodeOr fallback decode (inForce layers [key, name]) := by
  rw [decodeOr_lookup_layOver hdecode, inForce_eq_getLast?, valuesAt_pair]

end Scalars

/-- The parts of a section in which all layers keep to tables. -/
theorem partsOf?_lookup_stack {layers : List Layer} (h : ∀ layer ∈ layers, KeepsSections layer)
    {key : String} (hkey : key ∈ ["server", "observability"]) (names : List String) :
    partsOf? names ((stack layers).lookup key) = some (names.map fun name =>
      (layOver [] (sectionEntries key (layers.flatMap expand))).lookup name) := by
  rw [stack_eq_layOver]
  refine partsOf?_lookup_layOver ?_ names
  intro value hvalue
  obtain ⟨entry, hentry, rfl⟩ := List.mem_map.mp hvalue
  obtain ⟨hmem, hfirst⟩ := List.mem_filter.mp hentry
  obtain ⟨layer, hlayer, hexpanded⟩ := List.mem_flatMap.mp hmem
  exact h layer hlayer key hkey entry.2
    (List.mem_map.mpr ⟨entry, List.mem_filter.mpr ⟨hexpanded, hfirst⟩, rfl⟩)

/-! ## Ports in text -/

/-- A text that gives a port: its digits, of which there is at least one, perhaps after a plus
sign. -/
def IsPortText (text : String) (port : UInt16) : Prop :=
  ∃ digits, (text.toList = digits ∨ text.toList = '+' :: digits) ∧ digits ≠ [] ∧
    (∀ c ∈ digits, c.isDigit = true) ∧ Text.natOfDigits digits = port.toNat

theorem portOfNat?_eq_some_iff {n : Nat} {port : UInt16} :
    portOfNat? n = some port ↔ n = port.toNat := by
  rw [portOfNat?, Text.below]
  constructor
  · intro h
    obtain ⟨m, hm, rfl⟩ := Option.map_eq_some_iff.mp h
    split_ifs at hm with hlt
    cases hm
    exact (UInt16.toNat_ofNat_of_lt' hlt).symm
  · rintro rfl
    rw [if_pos port.toNat_lt, Option.map_some, UInt16.ofNat_toNat]

theorem portOfText?_eq_some_iff {text : String} {port : UInt16} :
    portOfText? text = some port ↔ IsPortText text port := by
  simp only [portOfText?, Option.bind_eq_some_iff, portOfNat?_eq_some_iff]
  constructor
  · rintro ⟨n, hread, rfl⟩
    exact (Text.unsigned?_eq_some_iff.mp hread).2
  · intro h
    exact ⟨port.toNat, Text.unsigned?_eq_some_iff.mpr ⟨port.toNat_lt, h⟩, rfl⟩

end Setting

/-! ## Decoding sections -/

section Sections

variable {section? : Option Setting}

/-- The settings of the server are decoded each from its own part of the section. -/
theorem ServerSettings.decode?_eq_some_iff {host port : Option Setting}
    (hparts : Setting.partsOf? ["host", "port"] section? = some [host, port])
    {server : ServerSettings} :
    decode? section? = some server ↔
      Setting.decodeOr default.host Setting.text? host = some server.host ∧
      Setting.decodeOr default.port Setting.port? port = some server.port := by
  simp only [decode?, hparts, Option.bind_eq_bind, Option.bind_some, Option.bind_eq_some_iff,
    Option.some.injEq]
  constructor
  · rintro ⟨host', hhost, port', hport, rfl⟩
    exact ⟨hhost, hport⟩
  · rintro ⟨hhost, hport⟩
    exact ⟨_, hhost, _, hport, rfl⟩

theorem ServerSettings.parts_of_decode? {host port : Option Setting}
    (hparts : Setting.partsOf? ["host", "port"] section? = some [host, port])
    {server : ServerSettings} (h : decode? section? = some server) :
    Setting.decodeOr "0.0.0.0" Setting.text? host = some server.host ∧
      Setting.decodeOr 3000 Setting.port? port = some server.port :=
  (decode?_eq_some_iff hparts).mp h

/-- What is logged and measured is decoded each from its own part of the section. -/
theorem ObservabilitySettings.decode?_eq_some_iff
    {serviceName logLevel logFormat metricsEnabled metricsPort : Option Setting}
    (hparts : Setting.partsOf?
        ["service_name", "log_level", "log_format", "metrics_enabled", "metrics_port"] section? =
      some [serviceName, logLevel, logFormat, metricsEnabled, metricsPort])
    {observability : ObservabilitySettings} :
    decode? section? = some observability ↔
      Setting.decodeOr default.serviceName Setting.text? serviceName =
        some observability.serviceName ∧
      Setting.decodeOr default.logLevel Setting.text? logLevel = some observability.logLevel ∧
      Setting.decodeOr default.logFormat Setting.text? logFormat = some observability.logFormat ∧
      Setting.decodeOr default.metricsEnabled Setting.flag? metricsEnabled =
        some observability.metricsEnabled ∧
      Setting.decodeOr default.metricsPort Setting.port? metricsPort =
        some observability.metricsPort := by
  simp only [decode?, hparts, Option.bind_eq_bind, Option.bind_some, Option.bind_eq_some_iff,
    Option.some.injEq]
  constructor
  · rintro ⟨name, hname, level, hlevel, format, hformat, enabled, henabled, port, hport, rfl⟩
    exact ⟨hname, hlevel, hformat, henabled, hport⟩
  · rintro ⟨hname, hlevel, hformat, henabled, hport⟩
    exact ⟨_, hname, _, hlevel, _, hformat, _, henabled, _, hport, rfl⟩

theorem ObservabilitySettings.parts_of_decode?
    {serviceName logLevel logFormat metricsEnabled metricsPort : Option Setting}
    (hparts : Setting.partsOf?
        ["service_name", "log_level", "log_format", "metrics_enabled", "metrics_port"] section? =
      some [serviceName, logLevel, logFormat, metricsEnabled, metricsPort])
    {observability : ObservabilitySettings} (h : decode? section? = some observability) :
    Setting.decodeOr "info" Setting.text? logLevel = some observability.logLevel ∧
      Setting.decodeOr "pretty" Setting.text? logFormat = some observability.logFormat ∧
      Setting.decodeOr true Setting.flag? metricsEnabled = some observability.metricsEnabled ∧
      Setting.decodeOr 9090 Setting.port? metricsPort = some observability.metricsPort :=
  ((decode?_eq_some_iff hparts).mp h).2

end Sections

namespace Settings

/-! ## The settings of a service -/

/-- The layers over the defaults of a service, the lowest first: the files and the variables. There
are none if a file cannot be read. -/
def layers? (service : String) (files : List (String × Option Layer))
    (env : List (String × String)) : Option (List Layer) :=
  (["default", environmentOf env, service].mapM (fileLayer? files)).map
    (· ++ [Setting.ofVariables env])

/-- Settings each of which is that of the last layer that gives it. -/
structure FollowsLayers (settings : Settings) (service : String) (env : List (String × String))
    (layers : List Layer) : Prop where
  serviceName : Setting.ReadsAs layers ["service_name"] Setting.text? service settings.serviceName
  environment : Setting.ReadsAs layers ["environment"] Setting.text? (environmentOf env)
    settings.environment
  host : Setting.ReadsAs layers ["server", "host"] Setting.text? "0.0.0.0" settings.server.host
  /-- A variable with the port of the service counts before all layers. -/
  ownPort : ∀ text port, env.lookup (portVariable service) = some text →
    Setting.IsPortText text port → settings.server.port = port
  /-- Without such a variable, or with one that is no port, the layers count. -/
  port : (¬ ∃ text port, env.lookup (portVariable service) = some text ∧
      Setting.IsPortText text port) →
    Setting.ReadsAs layers ["server", "port"] Setting.port? 3000 settings.server.port
  logLevel : Setting.ReadsAs layers ["observability", "log_level"] Setting.text? "info"
    settings.observability.logLevel
  logFormat : Setting.ReadsAs layers ["observability", "log_format"] Setting.text? "pretty"
    settings.observability.logFormat
  metricsEnabled : Setting.ReadsAs layers ["observability", "metrics_enabled"] Setting.flag? true
    settings.observability.metricsEnabled
  metricsPort : Setting.ReadsAs layers ["observability", "metrics_port"] Setting.port? 9090
    settings.observability.metricsPort
  /-- The layers have no say in the name that is logged and measured under. -/
  observedName : settings.observability.serviceName = settings.serviceName

/-- The layer of what the caller names. -/
def namedLayer (service environment : String) : Layer :=
  [("service_name", .text service), ("environment", .text environment)]

theorem expand_namedLayer (service environment : String) :
    Setting.expand (namedLayer service environment) = namedLayer service environment := by
  have hservice : Setting.pathOf "service_name" = ["service_name"] := by decide +kernel
  have henvironment : Setting.pathOf "environment" = ["environment"] := by decide +kernel
  simp only [Setting.expand, namedLayer, List.map_cons, List.map_nil, Setting.expandEntry,
    hservice, henvironment, Setting.nested, List.foldr_nil]

theorem keepsSections_namedLayer (service environment : String) :
    Setting.KeepsSections (namedLayer service environment) := by
  rw [Setting.KeepsSections, expand_namedLayer]
  simp [namedLayer, Setting.valuesOf]

/-- What the caller names is the default of the two settings concerned, and of no others. -/
theorem decodeOr_inForce_namedLayer (service environment : String) (layers : List Layer) :
    Setting.decodeOr "" Setting.text?
        (Setting.inForce (namedLayer service environment :: layers) ["service_name"]) =
      Setting.decodeOr service Setting.text? (Setting.inForce layers ["service_name"]) ∧
    Setting.decodeOr "" Setting.text?
        (Setting.inForce (namedLayer service environment :: layers) ["environment"]) =
      Setting.decodeOr environment Setting.text? (Setting.inForce layers ["environment"]) ∧
    ∀ key ∈ ["server", "observability"], ∀ name,
      Setting.inForce (namedLayer service environment :: layers) [key, name] =
        Setting.inForce layers [key, name] := by
  simp only [Setting.inForce_cons, Setting.given?, expand_namedLayer]
  refine ⟨?_, ?_, ?_⟩
  · cases Setting.inForce layers ["service_name"] <;> rfl
  · cases Setting.inForce layers ["environment"] <;> rfl
  · intro key hkey name
    rw [Setting.valuesAt_pair]
    simp only [List.mem_cons, List.not_mem_nil, or_false] at hkey
    rcases hkey with rfl | rfl <;> exact Option.or_none

/-- A setting in a section is that of the layer in force, whatever the caller names. -/
theorem readsAs_of_lookup_section {α : Type} {decode : Setting → Option α}
    (hdecode : ∀ entries, decode (.table entries) = none) {fallback value : α}
    {service environment key name : String} {layers : List Layer}
    (hkey : key ∈ ["server", "observability"])
    (h : Setting.decodeOr fallback decode
      ((Setting.layOver [] (Setting.sectionEntries key
        ((namedLayer service environment :: layers).flatMap Setting.expand))).lookup name) =
        some value) :
    Setting.ReadsAs layers [key, name] decode fallback value := by
  rw [Setting.decodeOr_lookup_section hdecode,
    (decodeOr_inForce_namedLayer service environment layers).2.2 key hkey name] at h
  exact Setting.decodeOr_eq_some_iff_readsAs.mp h

/-- The port that a variable sets for a service. -/
theorem portFor?_eq_some_iff {service : String} {env : List (String × String)} {port : UInt16} :
    portFor? service env = some port ↔
      ∃ text, env.lookup (portVariable service) = some text ∧ Setting.IsPortText text port := by
  simp only [portFor?, Option.bind_eq_some_iff, Setting.portOfText?_eq_some_iff]

/-- Settings that load come from layers that can be read. -/
theorem exists_layers_of_load {service : String} {files : List (String × Option Layer)}
    {env : List (String × String)} {settings : Settings}
    (h : load service files env = some settings) :
    ∃ layers ∈ layers? service files env, ∃ layered,
      decode? (Setting.stack (namedLayer service (environmentOf env) :: layers)) = some layered ∧
      settings = { layered with
        server :=
          match portFor? service env with
          | some port => { layered.server with port := port }
          | none => layered.server
        observability := layered.observability.withServiceName layered.serviceName } := by
  simp only [load, Option.bind_eq_bind, Option.bind_eq_some_iff, Option.some.injEq] at h
  obtain ⟨fileLayers, hfiles, layered, hdecode, hsettings⟩ := h
  refine ⟨fileLayers ++ [Setting.ofVariables env], ?_, layered, hdecode, hsettings.symm⟩
  rw [layers?, hfiles]
  rfl

/-- Whatever else a layer gives, each setting of a service that loads is that of the last layer that
gives this very setting, the files and then the variables. The port may come from a variable of its
own, and the name that is logged and measured under is the name of the service. -/
theorem load_follows_layers {service : String} {files : List (String × Option Layer)}
    {env : List (String × String)} {settings : Settings}
    (hload : load service files env = some settings)
    (hsections : ∀ layers ∈ layers? service files env, ∀ layer ∈ layers,
      Setting.KeepsSections layer) :
    ∃ layers ∈ layers? service files env, settings.FollowsLayers service env layers := by
  obtain ⟨layers, hlayers, layered, hdecode, rfl⟩ := exists_layers_of_load hload
  refine ⟨layers, hlayers, ?_⟩
  have hall : ∀ layer ∈ namedLayer service (environmentOf env) :: layers,
      Setting.KeepsSections layer :=
    List.forall_mem_cons.mpr ⟨keepsSections_namedLayer service _, hsections layers hlayers⟩
  simp only [decode?, Option.bind_eq_bind, Option.bind_eq_some_iff, Option.some.injEq] at hdecode
  obtain ⟨serviceName, hservice, environment, henvironment, server, hserver, observability,
    hobservability, rfl⟩ := hdecode
  obtain ⟨hhost, hport⟩ := ServerSettings.parts_of_decode?
    (Setting.partsOf?_lookup_stack hall (by simp) _) hserver
  obtain ⟨hlevel, hformat, henabled, hmetrics⟩ := ObservabilitySettings.parts_of_decode?
    (Setting.partsOf?_lookup_stack hall (by simp) _) hobservability
  obtain ⟨hnamed, hnamed', -⟩ := decodeOr_inForce_namedLayer service (environmentOf env) layers
  rw [Setting.decodeOr_lookup_stack fun _ => rfl] at hservice henvironment
  have hport := readsAs_of_lookup_section (fun _ => rfl) (by simp) hport
  exact {
    serviceName := Setting.decodeOr_eq_some_iff_readsAs.mp (hnamed ▸ hservice)
    environment := Setting.decodeOr_eq_some_iff_readsAs.mp (hnamed' ▸ henvironment)
    host := by
      cases portFor? service env <;> exact readsAs_of_lookup_section (fun _ => rfl) (by simp) hhost
    ownPort := by
      intro text port hvariable htext
      rw [portFor?_eq_some_iff.mpr ⟨text, hvariable, htext⟩]
    port := by
      intro hnone
      have hown : portFor? service env = none := by
        apply Option.eq_none_iff_forall_ne_some.mpr
        intro port hport
        obtain ⟨text, htext⟩ := portFor?_eq_some_iff.mp hport
        exact hnone ⟨text, port, htext⟩
      rw [hown]
      exact hport
    logLevel := readsAs_of_lookup_section (fun _ => rfl) (by simp) hlevel
    logFormat := readsAs_of_lookup_section (fun _ => rfl) (by simp) hformat
    metricsEnabled := readsAs_of_lookup_section (fun _ => rfl) (by simp) henabled
    metricsPort := readsAs_of_lookup_section (fun _ => rfl) (by simp) hmetrics
    observedName := rfl }

/-- Files that each give some keys of the two sections. -/
def stagingFiles : List (String × Option Layer) :=
  [("default", some [("server", .table [("port", .whole 4000)]),
      ("observability", .table [("log_level", .text "warn"), ("metrics_enabled", .flag false)])]),
    ("staging", some [("observability", .table [("log_format", .text "json")])]),
    ("rule-engine", some [("server", .table [("host", .text "127.0.0.1")])])]

/-- Variables that give one more key of a section, and the port. -/
def stagingVariables : List (String × String) :=
  [("RULES_ENV", "staging"), ("RULES_OBSERVABILITY__METRICS_PORT", "9191"),
    ("RULE_ENGINE_PORT", "5050")]

theorem load_follows_layers_staging :
    load "rule-engine" stagingFiles stagingVariables =
        some ⟨"rule-engine", "staging", ⟨"127.0.0.1", 5050⟩,
          ⟨"rule-engine", "warn", "json", false, 9191⟩⟩ ∧
      ∃ layers ∈ layers? "rule-engine" stagingFiles stagingVariables,
        FollowsLayers ⟨"rule-engine", "staging", ⟨"127.0.0.1", 5050⟩,
          ⟨"rule-engine", "warn", "json", false, 9191⟩⟩ "rule-engine" stagingVariables layers := by
  have hload : load "rule-engine" stagingFiles stagingVariables =
      some ⟨"rule-engine", "staging", ⟨"127.0.0.1", 5050⟩,
        ⟨"rule-engine", "warn", "json", false, 9191⟩⟩ := by decide +kernel
  have hsections : ∀ layers ∈ layers? "rule-engine" stagingFiles stagingVariables,
      ∀ layer ∈ layers, Setting.KeepsSections layer := by decide +kernel
  exact ⟨hload, load_follows_layers hload hsections⟩

end Settings

end PostfixRules
