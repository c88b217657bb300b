import PostfixRules.Proofs.Settings.Layering
import PostfixRules.Proofs.Settings.Paths

/-!
# Texts among the settings

Five settings of a service are texts that layers can give. Each of them has a place of its own in
the layers, and a scalar that takes this place is decoded as its text, while the other settings are
decoded from where they were. A section that was a list of its parts becomes a table and has only
the defaults left.
-/

namespace PostfixRules

theorem ServerSettings.decode?_table {entries : Layer} {server : ServerSettings} :
    decode? (some (.table entries)) = some server ↔
      Setting.decodeOr default.host Setting.text? (entries.lookup "host") = some server.host ∧
      Setting.decodeOr default.port Setting.port? (entries.lookup "port") = some server.port :=
  decode?_eq_some_iff rfl

theorem ObservabilitySettings.decode?_table {entries : Layer}
    {observability : ObservabilitySettings} :
    decode? (some (.table entries)) = some observability ↔
      Setting.decodeOr default.serviceName Setting.text? (entries.lookup "service_name") =
        some observability.serviceName ∧
      Setting.decodeOr default.logLevel Setting.text? (entries.lookup "log_level") =
        some observability.logLevel ∧
      Setting.decodeOr default.logFormat Setting.text? (entries.lookup "log_format") =
        some observability.logFormat ∧
      Setting.decodeOr default.metricsEnabled Setting.flag? (entries.lookup "metrics_enabled") =
        some observability.metricsEnabled ∧
      Setting.decodeOr default.metricsPort Setting.port? (entries.lookup "metrics_port") =
        some observability.metricsPort :=
  decode?_eq_some_iff rfl

namespace Setting

/-- If a section can be decoded, so can the table of its entries, provided that a section without
any entries can be. A list has no entries. -/
theorem exists_decode_entriesOf {α : Type} {names : List String}
    {decodeParts : List (Option Setting) → Option α}
    (hempty : ∃ decoded, decodeParts (names.map fun _ => none) = some decoded)
    {given : Option Setting} {decoded : α}
    (h : (partsOf? names given).bind decodeParts = some decoded) :
    ∃ decoded', (partsOf? names (some (.table (entriesOf given)))).bind decodeParts =
      some decoded' := by
  cases given with
  | none => exact hempty
  | some value =>
    cases value with
    | table entries => exact ⟨decoded, h⟩
    | list elements => exact hempty
    | flag | whole | real | text => cases h

namespace Replaces

variable {value : Setting} {name other : String} {before after : Layer}
  (h : Replaces value [name] before after)

include h

theorem lookup_self : after.lookup name = some value := by
  cases h with
  | here hkey hothers => exact hkey

theorem lookup_of_ne (hne : other ≠ name) : after.lookup other = before.lookup other := by
  cases h with
  | here hkey hothers => exact hothers other hne

/-- A text is decoded as before unless it is the one that is replaced. -/
theorem decodeOr_text {word old fallback : String} (hvalue : text? value = some word)
    (hold : decodeOr fallback text? (before.lookup other) = some old) :
    decodeOr fallback text? (after.lookup other) = some (if other = name then word else old) := by
  by_cases hsame : other = name
  · rw [if_pos hsame, hsame, h.lookup_self]
    exact hvalue
  · rw [if_neg hsame, h.lookup_of_ne hsame]
    exact hold

end Replaces

end Setting

namespace Settings

theorem decode?_eq_some_iff {entries : Layer} {settings : Settings} :
    decode? entries = some settings ↔
      Setting.decodeOr "" Setting.text? (entries.lookup "service_name") =
        some settings.serviceName ∧
      Setting.decodeOr "" Setting.text? (entries.lookup "environment") = some settings.environment ∧
      ServerSettings.decode? (entries.lookup "server") = some settings.server ∧
      ObservabilitySettings.decode? (entries.lookup "observability") =
        some settings.observability := by
  simp only [decode?, Option.bind_eq_bind, Option.bind_eq_some_iff, Option.some.injEq]
  constructor
  · rintro ⟨name, hname, environment, henvironment, server, hserver, observability,
      hobservability, rfl⟩
    exact ⟨hname, henvironment, hserver, hobservability⟩
  · rintro ⟨hname, henvironment, hserver, hobservability⟩
    exact ⟨_, hname, _, henvironment, _, hserver, _, hobservability, rfl⟩

/-- The settings of a service that are texts, without the name that is logged and measured under. -/
inductive TextSetting where
  | serviceName
  | environment
  | host
  | logLevel
  | logFormat
  deriving DecidableEq, Repr

namespace TextSetting

/-- The place of a setting in the layers. -/
def path : TextSetting → List String
  | .serviceName => ["service_name"]
  | .environment => ["environment"]
  | .host => ["server", "host"]
  | .logLevel => ["observability", "log_level"]
  | .logFormat => ["observability", "log_format"]

/-- The name of the variable that gives a setting. -/
def variableName : TextSetting → String
  | .serviceName => "RULES_SERVICE_NAME"
  | .environment => "RULES_ENVIRONMENT"
  | .host => "RULES_SERVER__HOST"
  | .logLevel => "RULES_OBSERVABILITY__LOG_LEVEL"
  | .logFormat => "RULES_OBSERVABILITY__LOG_FORMAT"

/-- The text that a setting is. -/
def get (settings : Settings) : TextSetting → String
  | .serviceName => settings.serviceName
  | .environment => settings.environment
  | .host => settings.server.host
  | .logLevel => settings.observability.logLevel
  | .logFormat => settings.observability.logFormat

/-- The name of a variable leads to the place of the setting. -/
theorem exists_keyOfVariable? (setting : TextSetting) :
    ∃ key, Setting.keyOfVariable? setting.variableName = some key ∧
      Setting.pathOf key = setting.path := by
  cases setting with
  | serviceName => exact ⟨"service_name", by decide +kernel⟩
  | environment => exact ⟨"environment", by decide +kernel⟩
  | host => exact ⟨"server.host", by decide +kernel⟩
  | logLevel => exact ⟨"observability.log_level", by decide +kernel⟩
  | logFormat => exact ⟨"observability.log_format", by decide +kernel⟩

theorem variableName_ne (setting : TextSetting) : setting.variableName ≠ "RULES_ENV" := by
  cases setting <;> decide

end TextSetting

section Replacing

variable {value : Setting} {word : String} (hvalue : Setting.text? value = some word)
  {before after : Layer} {settings : Settings}

include hvalue

/-- A scalar in the place of the name or the environment is decoded as its text. -/
theorem exists_decode?_of_replaces_name {name : String}
    (hname : name = "service_name" ∨ name = "environment")
    (h : Setting.Replaces value [name] before after) (hdecode : decode? before = some settings) :
    ∃ settings', decode? after = some settings' ∧
      (name = "service_name" → settings'.serviceName = word) ∧
      (name = "environment" → settings'.environment = word) := by
  obtain ⟨hservice, henvironment, hserver, hobservability⟩ := decode?_eq_some_iff.mp hdecode
  have hsections : "server" ≠ name ∧ "observability" ≠ name := by
    rcases hname with rfl | rfl <;> decide
  rw [← h.lookup_of_ne hsections.1] at hserver
  rw [← h.lookup_of_ne hsections.2] at hobservability
  exact ⟨⟨_, _, settings.server, settings.observability⟩,
    decode?_eq_some_iff.mpr ⟨h.decodeOr_text hvalue hservice, h.decodeOr_text hvalue henvironment,
      hserver, hobservability⟩,
    fun hfield => if_pos hfield.symm, fun hfield => if_pos hfield.symm⟩

/-- A scalar in the place of the host is decoded as its text. -/
theorem exists_decode?_of_replaces_host (h : Setting.Replaces value ["server", "host"] before after)
    (hdecode : decode? before = some settings) :
    ∃ settings', decode? after = some settings' ∧ settings'.server.host = word := by
  obtain ⟨hservice, henvironment, hserver, hobservability⟩ := decode?_eq_some_iff.mp hdecode
  cases h with
  | inside hkey hinner hothers =>
    obtain ⟨server, htable⟩ := Setting.exists_decode_entriesOf ⟨.default, rfl⟩ hserver
    obtain ⟨hhost, hport⟩ := ServerSettings.decode?_table.mp htable
    rw [← hinner.lookup_of_ne (by decide)] at hport
    have hsection : ServerSettings.decode? (after.lookup "server") = some ⟨word, server.port⟩ := by
      rw [hkey]
      exact ServerSettings.decode?_table.mpr ⟨hinner.decodeOr_text hvalue hhost, hport⟩
    rw [← hothers "service_name" (by decide)] at hservice
    rw [← hothers "environment" (by decide)] at henvironment
    rw [← hothers "observability" (by decide)] at hobservability
    exact ⟨{ settings with server := ⟨word, server.port⟩ },
      decode?_eq_some_iff.mpr ⟨hservice, henvironment, hsection, hobservability⟩, rfl⟩

/-- A scalar in the place of the log level or the log format of a section is decoded as its
text. -/
theorem exists_observability_of_replaces {name : String}
    (hname : name = "log_level" ∨ name = "log_format") {given : Option Setting} {inner : Layer}
    (h : Setting.Replaces value [name] (Setting.entriesOf given) inner)
    {observability : ObservabilitySettings}
    (hdecode : ObservabilitySettings.decode? given = some observability) :
    ∃ replaced, ObservabilitySettings.decode? (some (.table inner)) = some replaced ∧
      (name = "log_level" → replaced.logLevel = word) ∧
      (name = "log_format" → replaced.logFormat = word) := by
  obtain ⟨decoded, htable⟩ := Setting.exists_decode_entriesOf ⟨.default, rfl⟩ hdecode
  obtain ⟨hobserved, hlevel, hformat, henabled, hport⟩ :=
    ObservabilitySettings.decode?_table.mp htable
  have hkept : "service_name" ≠ name ∧ "metrics_enabled" ≠ name ∧ "metrics_port" ≠ name := by
    rcases hname with rfl | rfl <;> decide
  rw [← h.lookup_of_ne hkept.1] at hobserved
  rw [← h.lookup_of_ne hkept.2.1] at henabled
  rw [← h.lookup_of_ne hkept.2.2] at hport
  exact ⟨{ decoded with
      logLevel := if "log_level" = name then word else decoded.logLevel
      logFormat := if "log_format" = name then word else decoded.logFormat },
    ObservabilitySettings.decode?_table.mpr ⟨hobserved, h.decodeOr_text hvalue hlevel,
      h.decodeOr_text hvalue hformat, henabled, hport⟩,
    fun hfield => if_pos hfield.symm, fun hfield => if_pos hfield.symm⟩

/-- The same among all settings. -/
theorem exists_decode?_of_replaces_log {name : String}
    (hname : name = "log_level" ∨ name = "log_format")
    (h : Setting.Replaces value ["observability", name] before after)
    (hdecode : decode? before = some settings) :
    ∃ settings', decode? after = some settings' ∧
      (name = "log_level" → settings'.observability.logLevel = word) ∧
      (name = "log_format" → settings'.observability.logFormat = word) := by
  obtain ⟨hservice, henvironment, hserver, hobservability⟩ := decode?_eq_some_iff.mp hdecode
  cases h with
  | inside hkey hinner hothers =>
    obtain ⟨replaced, hsection, hreplaced⟩ :=
      exists_observability_of_replaces hvalue hname hinner hobservability
    rw [← hkey] at hsection
    rw [← hothers "service_name" (by decide)] at hservice
    rw [← hothers "environment" (by decide)] at henvironment
    rw [← hothers "server" (by decide)] at hserver
    exact ⟨{ settings with observability := replaced },
      decode?_eq_some_iff.mpr ⟨hservice, henvironment, hserver, hsection⟩, hreplaced⟩

/-- A scalar in the place of a setting is decoded as its text, whatever was there before. -/
theorem exists_decode?_of_replaces {setting : TextSetting}
    (h : Setting.Replaces value setting.path before after)
    (hdecode : decode? before = some settings) :
    ∃ settings', decode? after = some settings' ∧ setting.get settings' = word := by
  cases setting with
  | serviceName =>
    obtain ⟨settings', hafter, hword, -⟩ :=
      exists_decode?_of_replaces_name hvalue (.inl rfl) h hdecode
    exact ⟨settings', hafter, hword rfl⟩
  | environment =>
    obtain ⟨settings', hafter, -, hword⟩ :=
      exists_decode?_of_replaces_name hvalue (.inr rfl) h hdecode
    exact ⟨settings', hafter, hword rfl⟩
  | host => exact exists_decode?_of_replaces_host hvalue h hdecode
  | logLevel =>
    obtain ⟨settings', hafter, hword, -⟩ :=
      exists_decode?_of_replaces_log hvalue (.inl rfl) h hdecode
    exact ⟨settings', hafter, hword rfl⟩
  | logFormat =>
    obtain ⟨settings', hafter, -, hword⟩ :=
      exists_decode?_of_replaces_log hvalue (.inr rfl) h hdecode
    exact ⟨settings', hafter, hword rfl⟩

end Replacing

end Settings

end PostfixRules
