import PostfixRules.Proofs.Settings.Texts

/-!
# Text from variables

A variable has no kind of its own: its text is tried as a truth value, as a whole number and as a
double before it counts as text. A setting that is a text gets the standard text of what was found,
so it gets the text of the variable itself only if nothing else was found or if that is the standard
text already.
-/

namespace PostfixRules

namespace Setting

/-! ## What a text comes to -/

/-- The standard text of a truth value. -/
def flagText (b : Bool) : String :=
  if b then "true" else "false"

/-- A text that is a truth value, in any case. -/
def SpellsFlag (text : String) (b : Bool) : Prop :=
  text.toList.map Char.toLower = (flagText b).toList

/-- Characters that are a whole number of 64 bits: digits, perhaps after a sign. Zeros may come
first. -/
inductive SpellsWhole : List Char → Int → Prop where
  | unsigned {chars digits : List Char} (hchars : chars = digits ∨ chars = '+' :: digits)
    (hne : digits ≠ []) (hdigits : ∀ c ∈ digits, c.isDigit = true)
    (hlt : Text.natOfDigits digits < 2 ^ 63) : SpellsWhole chars (Text.natOfDigits digits)
  | negative {digits : List Char} (hne : digits ≠ []) (hdigits : ∀ c ∈ digits, c.isDigit = true)
    (hle : Text.natOfDigits digits ≤ 2 ^ 63) :
    SpellsWhole ('-' :: digits) (-(Text.natOfDigits digits : Int))

/-- What a text given by a variable is for a setting that is a text: the standard text of the first
kind of value that it spells, or itself. -/
inductive ComesTo (text : String) : String → Prop where
  | flag {b : Bool} (h : SpellsFlag text b) : ComesTo text (flagText b)
  | whole {i : Int} (hflag : ∀ b, ¬ SpellsFlag text b) (h : SpellsWhole text.toList i) :
    ComesTo text (String.ofList (Text.signedDecimal i))
  | real {x : Double} (hflag : ∀ b, ¬ SpellsFlag text b) (hwhole : ∀ i, ¬ SpellsWhole text.toList i)
    (h : Double.read? text.toList = some x) : ComesTo text x.plainText
  | text (hflag : ∀ b, ¬ SpellsFlag text b) (hwhole : ∀ i, ¬ SpellsWhole text.toList i)
    (hreal : Double.read? text.toList = none) : ComesTo text text

theorem flagOfText?_eq_some_iff {text : String} {b : Bool} :
    flagOfText? text = some b ↔ SpellsFlag text b := by
  have hlower {word : String} : String.ofList (text.toList.map Char.toLower) = word ↔
      text.toList.map Char.toLower = word.toList := by
    rw [← String.toList_inj, String.toList_ofList]
  simp only [flagOfText?, hlower, SpellsFlag]
  split_ifs with htrue hfalse
  · rw [htrue]
    cases b <;> decide
  · rw [hfalse]
    cases b <;> decide
  · cases b
    · simpa [flagText] using hfalse
    · simpa [flagText] using htrue

theorem signed64?_eq_some_iff {chars : List Char} {i : Int} :
    Text.signed64? chars = some i ↔ SpellsWhole chars i := by
  fun_cases Text.signed64? chars with
  | case1 rest =>
    simp only [Option.map_eq_some_iff, Option.bind_eq_bind, Option.bind_eq_some_iff,
      Option.pure_def, Option.some.injEq, Text.below, Option.ite_none_right_eq_some,
      Text.digits?_eq_some_iff]
    constructor
    · rintro ⟨_, ⟨hne, hdigits, rfl⟩, _, ⟨_, ⟨hlt, rfl⟩, rfl⟩, rfl⟩
      exact .negative hne hdigits (Nat.le_of_lt_succ hlt)
    · intro h
      cases h with
      | negative hne hdigits hle =>
        exact ⟨_, ⟨hne, hdigits, rfl⟩, _, ⟨_, ⟨Nat.lt_succ_of_le hle, rfl⟩, rfl⟩, rfl⟩
      | @unsigned _ digits hchars hne hdigits hlt =>
        have hminus : '-' ∉ digits := fun hmem =>
          absurd rfl (Text.not_isDigit (hdigits '-' hmem) (by decide))
        rcases hchars with rfl | hchars
        · exact absurd List.mem_cons_self hminus
        · cases hchars
  | case2 chars hminus =>
    simp only [Option.map_eq_some_iff, Text.unsigned?_eq_some_iff]
    constructor
    · rintro ⟨_, ⟨hlt, digits, hchars, hne, hdigits, rfl⟩, rfl⟩
      exact .unsigned hchars hne hdigits hlt
    · intro h
      cases h with
      | @negative digits => exact absurd rfl (hminus digits)
      | @unsigned _ digits hchars hne hdigits hlt =>
        exact ⟨_, ⟨hlt, digits, hchars, hne, hdigits, rfl⟩, rfl⟩

theorem ComesTo.text?_ofVariable {text word : String} (h : ComesTo text word) :
    text? (ofVariable text) = some word := by
  have hnoFlag (hflag : ∀ b, ¬ SpellsFlag text b) : flagOfText? text = none :=
    Option.eq_none_iff_forall_ne_some.mpr fun b hb => hflag b (flagOfText?_eq_some_iff.mp hb)
  have hnoWhole (hwhole : ∀ i, ¬ SpellsWhole text.toList i) : Text.signed64? text.toList = none :=
    Option.eq_none_iff_forall_ne_some.mpr fun i hi => hwhole i (signed64?_eq_some_iff.mp hi)
  rw [ofVariable]
  cases h with
  | flag h =>
    rw [flagOfText?_eq_some_iff.mpr h]
    rfl
  | whole hflag h =>
    rw [hnoFlag hflag, signed64?_eq_some_iff.mpr h]
    rfl
  | real hflag hwhole h =>
    rw [hnoFlag hflag, hnoWhole hwhole, h]
    rfl
  | text hflag hwhole hreal =>
    rw [hnoFlag hflag, hnoWhole hwhole, hreal]
    rfl

/-- Every text comes to some text. -/
theorem exists_comesTo (text : String) : ∃ word, ComesTo text word := by
  by_cases hflag : ∃ b, SpellsFlag text b
  · obtain ⟨b, hb⟩ := hflag
    exact ⟨_, .flag hb⟩
  rw [not_exists] at hflag
  by_cases hwhole : ∃ i, SpellsWhole text.toList i
  · obtain ⟨i, hi⟩ := hwhole
    exact ⟨_, .whole hflag hi⟩
  rw [not_exists] at hwhole
  cases hreal : Double.read? text.toList with
  | some x => exact ⟨_, .real hflag hwhole hreal⟩
  | none => exact ⟨text, .text hflag hwhole hreal⟩

/-- The text of the value that a variable gives is what the text of the variable comes to. -/
theorem text?_ofVariable_eq_some_iff {text word : String} :
    text? (ofVariable text) = some word ↔ ComesTo text word := by
  refine ⟨fun h => ?_, ComesTo.text?_ofVariable⟩
  obtain ⟨found, hfound⟩ := exists_comesTo text
  rw [hfound.text?_ofVariable] at h
  cases h
  exact hfound

theorem isTable_ofVariable (text : String) : (ofVariable text).isTable = false := by
  fun_cases ofVariable text <;> rfl

theorem ofVariables_append_cons {name key : String} (hkey : keyOfVariable? name = some key)
    (before after : List (String × String)) (text : String) :
    ofVariables (before ++ (name, text) :: after) =
      ofVariables before ++ (key, ofVariable text) :: ofVariables after := by
  simp only [ofVariables, List.filterMap_append, List.filterMap_cons, hkey, Option.map_some]

theorem ofVariables_append (before after : List (String × String)) :
    ofVariables (before ++ after) = ofVariables before ++ ofVariables after :=
  List.filterMap_append

/-- One variable more gives its value to the layers, whatever the variables before it give. -/
theorem replaces_stack {name key : String} (hkey : keyOfVariable? name = some key)
    (layers : List Layer) (before : List (String × String)) (text : String)
    {after : List (String × String)}
    (hafter : ∀ entry ∈ after, ∀ later ∈ keyOfVariable? entry.1, ¬ Concerns (pathOf key) later) :
    Replaces (ofVariable text) (pathOf key) (stack (layers ++ [ofVariables (before ++ after)]))
      (stack (layers ++ [ofVariables (before ++ (name, text) :: after)])) := by
  have hlater : ∀ entry ∈ ofVariables after, ¬ Concerns (pathOf key) entry.1 := by
    intro entry hentry
    obtain ⟨written, hwritten, hmap⟩ := List.mem_filterMap.mp hentry
    obtain ⟨later, hlater, rfl⟩ := Option.map_eq_some_iff.mp hmap
    exact hafter written hwritten later hlater
  rw [stack_eq_layOver, stack_eq_layOver, List.flatMap_append, List.flatMap_append,
    List.flatMap_singleton, List.flatMap_singleton, layOver_append, layOver_append,
    ofVariables_append, ofVariables_append_cons hkey]
  exact replaces_layOver_expand (isTable_ofVariable text) key _ _ hlater

end Setting

namespace Settings

/-! ## Loading -/

/-- A service whose layers can be decoded loads, and its own port and the name that it logs under do
not matter to the other texts. -/
theorem exists_load_of_decode? {service : String} {files : List (String × Option Layer)}
    {env : List (String × String)} {layers : List Layer}
    (hlayers : layers ∈ layers? service files env) {layered : Settings}
    (h : decode? (Setting.stack (namedLayer service (environmentOf env) :: layers)) =
      some layered) :
    ∃ settings, load service files env = some settings ∧
      ∀ setting : TextSetting, setting.get settings = setting.get layered := by
  obtain ⟨fileLayers, hfiles, rfl⟩ := Option.map_eq_some_iff.mp hlayers
  have hdecode : decode? (Setting.stack ([("service_name", .text service),
      ("environment", .text (environmentOf env))] :: fileLayers ++ [Setting.ofVariables env])) =
      some layered := h
  simp only [load, hfiles, Option.bind_eq_bind, Option.bind_some, hdecode]
  refine ⟨_, rfl, ?_⟩
  intro setting
  cases setting <;> cases portFor? service env <;> rfl

/-- The environment stays the same if one more variable is given that does not name it. -/
theorem environmentOf_append_cons {name : String} (h : name ≠ "RULES_ENV") (text : String)
    (before after : List (String × String)) :
    environmentOf (before ++ (name, text) :: after) = environmentOf (before ++ after) := by
  have hne : ("RULES_ENV" == name) = false := beq_eq_false_iff_ne.mpr (Ne.symm h)
  rw [environmentOf, environmentOf, List.lookup_append, List.lookup_append, List.lookup_cons, hne]

/-- One variable more that gives a text to a service that loads: the service still loads, and the
setting is what the text comes to. No variable after it may concern the place of the setting. -/
theorem load_given_text (setting : TextSetting) (service : String)
    (files : List (String × Option Layer)) (before after : List (String × String)) (text : String)
    (hload : ∃ settings, load service files (before ++ after) = some settings)
    (hafter : ∀ entry ∈ after, ∀ key ∈ Setting.keyOfVariable? entry.1,
      ¬ Setting.Concerns setting.path key) :
    ∃ settings,
      load service files (before ++ (setting.variableName, text) :: after) = some settings ∧
      ∀ word, setting.get settings = word ↔ Setting.ComesTo text word := by
  obtain ⟨settings, hload⟩ := hload
  obtain ⟨layers, hlayers, layered, hdecode, -⟩ := exists_layers_of_load hload
  obtain ⟨fileLayers, hfiles, rfl⟩ := Option.map_eq_some_iff.mp hlayers
  obtain ⟨key, hkey, hpath⟩ := setting.exists_keyOfVariable?
  obtain ⟨word, hword⟩ := Setting.exists_comesTo text
  have henvironment := environmentOf_append_cons setting.variableName_ne text before after
  rw [← hpath] at hafter
  have hreplaces := Setting.replaces_stack hkey
    (namedLayer service (environmentOf (before ++ after)) :: fileLayers) before text hafter
  rw [hpath] at hreplaces
  obtain ⟨layered', hdecode', hget⟩ :=
    exists_decode?_of_replaces hword.text?_ofVariable hreplaces hdecode
  rw [← henvironment] at hfiles hdecode'
  have hlayers : layers? service files (before ++ (setting.variableName, text) :: after) =
      some (fileLayers ++
        [Setting.ofVariables (before ++ (setting.variableName, text) :: after)]) := by
    rw [layers?, hfiles, Option.map_some]
  obtain ⟨settings', hload', hsame⟩ := exists_load_of_decode? hlayers hdecode'
  refine ⟨settings', hload', ?_⟩
  intro found
  rw [hsame setting, hget, ← Setting.text?_ofVariable_eq_some_iff, hword.text?_ofVariable,
    Option.some.injEq]

/-- A host that is a number loses a zero, and the port after it does no harm. -/
theorem load_given_text_staging :
    let files : List (String × Option Layer) :=
      [("default", some [("server", .list [.text "localhost", .whole 80])])]
    let before := [("RULES_ENV", "staging"), ("RULES_HOST", "example.org")]
    let after := [("RULES_SERVER__PORT", "81"), ("RULES_OBSERVABILITY__LOG_LEVEL", "warn")]
    (∃ settings, load "rule-engine" files (before ++ after) = some settings) ∧
      (∀ entry ∈ after, ∀ key ∈ Setting.keyOfVariable? entry.1,
        ¬ Setting.Concerns TextSetting.host.path key) ∧
      ∃ settings,
        load "rule-engine" files (before ++ (TextSetting.host.variableName, "1.50") :: after) =
          some settings ∧ TextSetting.host.get settings = "1.5" := by
  intro files before after
  have hload : ∃ settings, load "rule-engine" files (before ++ after) = some settings :=
    Option.isSome_iff_exists.mp (by decide +kernel)
  have hafter : ∀ entry ∈ after, ∀ key ∈ Setting.keyOfVariable? entry.1,
      ¬ Setting.Concerns TextSetting.host.path key := by decide +kernel
  have hcomes : Setting.ComesTo "1.50" "1.5" :=
    Setting.text?_ofVariable_eq_some_iff.mp (by decide +kernel)
  obtain ⟨settings, hgiven, hword⟩ :=
    load_given_text .host "rule-engine" files before after "1.50" hload hafter
  exact ⟨hload, hafter, settings, hgiven, (hword "1.5").mpr hcomes⟩

/-- Zeros in front of a name do not come through. -/
theorem not_load_given_text_zeros :
    (∃ settings, load "rule-engine" [] [] = some settings) ∧
      ¬ ∃ settings,
        load "rule-engine" [] [(TextSetting.serviceName.variableName, "007")] = some settings ∧
          TextSetting.serviceName.get settings = "007" := by
  have hload : load "rule-engine" [] [(TextSetting.serviceName.variableName, "007")] =
      some ⟨"7", "development", ServerSettings.default,
        ObservabilitySettings.default.withServiceName "7"⟩ := by decide +kernel
  refine ⟨Option.isSome_iff_exists.mp (by decide +kernel), ?_⟩
  rintro ⟨settings, hgiven, hname⟩
  rw [hload] at hgiven
  cases hgiven
  exact absurd hname (by decide)

end Settings

end PostfixRules
