import PostfixRules.Proofs.Settings.Stack
import PostfixRules.Proofs.Text.Segments

/-!
# Giving one value more

One value more among entries that are laid over a layer is in its place in the end, and nothing else
has changed, unless an entry after it concerns its path: one at a table that the path leads through,
at the value itself, or inside it. Other entries of the same tables do no harm.
-/

namespace PostfixRules.Setting

/-- A layer that has a value at a path, and everything else from another layer. What stands in the
way of the path gives room to tables. -/
inductive Replaces (value : Setting) : List String → Layer → Layer → Prop where
  | here {key : String} {before after : Layer} (hkey : after.lookup key = some value)
    (hothers : ∀ other, other ≠ key → after.lookup other = before.lookup other) :
    Replaces value [key] before after
  | inside {key next : String} {path : List String} {before after inner : Layer}
    (hkey : after.lookup key = some (.table inner))
    (hinner : Replaces value (next :: path) (entriesOf (before.lookup key)) inner)
    (hothers : ∀ other, other ≠ key → after.lookup other = before.lookup other) :
    Replaces value (key :: next :: path) before after

/-- An entry that leaves what is at a path as it is: one of another key, or a table of such
entries. -/
inductive Spares : List String → String × Setting → Prop where
  | other {key : String} {path : List String} {entry : String × Setting} (hkey : entry.1 ≠ key) :
    Spares (key :: path) entry
  | inside {key next : String} {path : List String} {inner : Layer}
    (hinner : ∀ entry ∈ inner, Spares (next :: path) entry) :
    Spares (key :: next :: path) (key, .table inner)

theorem mem_valuesOf_iff {key : String} {entries : Layer} {value : Setting} :
    value ∈ valuesOf key entries ↔ (key, value) ∈ entries := by
  simp [valuesOf]

/-- A value that is no table leaves nothing of what is below it. -/
theorem laidOver_of_isTable_eq_false {value : Setting} (h : value.isTable = false)
    (below : Option Setting) : laidOver below value = value := by
  cases value with
  | table entries => cases h
  | flag | whole | real | text | list => rw [laidOver]

/-- The entries of a section are laid over those that it had before. -/
theorem entriesOf_lookup_layOver {key : String} {entries : Layer}
    (h : ∀ value ∈ valuesOf key entries, value.isTable = true) (below : Layer) :
    entriesOf ((layOver below entries).lookup key) =
      layOver (entriesOf (below.lookup key)) (sectionEntries key entries) := by
  rw [lookup_layOver, sectionEntries]
  cases hvalues : valuesOf key entries with
  | nil => rfl
  | cons value rest =>
    rw [hvalues] at h
    obtain ⟨hvalue, hrest⟩ := List.forall_mem_cons.mp h
    cases value with
    | table inner =>
      rw [List.foldl_cons, laidOver, foldl_laidOver_tables hrest, List.flatMap_cons,
        layOver_append]
      rfl
    | flag | whole | real | text | list => cases hvalue

/-- If no entry concerns a key, it has no values. -/
theorem valuesOf_eq_nil_of_spares {key : String} {entries : Layer}
    (h : ∀ entry ∈ entries, Spares [key] entry) : valuesOf key entries = [] := by
  apply List.eq_nil_iff_forall_not_mem.mpr
  intro value hvalue
  cases h (key, value) (mem_valuesOf_iff.mp hvalue) with
  | other hkey => exact hkey rfl

section Inside

variable {key next : String} {path : List String} {entries : Layer}
  (h : ∀ entry ∈ entries, Spares (key :: next :: path) entry)

include h

/-- Only tables may stand for a section that is spared. -/
theorem isTable_of_spares : ∀ value ∈ valuesOf key entries, value.isTable = true := by
  intro value hvalue
  cases h (key, value) (mem_valuesOf_iff.mp hvalue) with
  | other hkey => exact absurd rfl hkey
  | inside hinner => rfl

theorem spares_sectionEntries :
    ∀ entry ∈ sectionEntries key entries, Spares (next :: path) entry := by
  intro entry hentry
  obtain ⟨value, hvalue, hmem⟩ := List.mem_flatMap.mp hentry
  cases h (key, value) (mem_valuesOf_iff.mp hvalue) with
  | other hkey => exact absurd rfl hkey
  | inside hinner => exact hinner entry hmem

end Inside

theorem lookup_layOver_cons_of_ne {key other : String} (h : other ≠ key) (value : Setting)
    (below later : Layer) :
    (layOver below ((key, value) :: later)).lookup other = (layOver below later).lookup other := by
  rw [lookup_layOver, lookup_layOver, valuesOf_cons_of_ne (Ne.symm h)]

/-- A value that is no table is in its place if the entries after it spare its path. Inside a
section it comes before the other entries that the section is given. -/
theorem replaces_layOver_cons {value : Setting} (hvalue : value.isTable = false) {key : String}
    {path : List String} (below : Layer) {later : Layer}
    (hlater : ∀ entry ∈ later, Spares (key :: path) entry) :
    Replaces value (key :: path) (layOver below later)
      (layOver below ((key, nested path value) :: later)) := by
  induction path generalizing key below later with
  | nil =>
    refine .here ?_ fun other hother => lookup_layOver_cons_of_ne hother _ below later
    rw [lookup_layOver, valuesOf_cons_self, valuesOf_eq_nil_of_spares hlater]
    exact congrArg some (laidOver_of_isTable_eq_false hvalue _)
  | cons next path ih =>
    have htables := isTable_of_spares hlater
    have hinner := ih (entriesOf (below.lookup key)) (spares_sectionEntries hlater)
    rw [← entriesOf_lookup_layOver htables] at hinner
    refine .inside ?_ hinner fun other hother => lookup_layOver_cons_of_ne hother _ below later
    have hnested : nested (next :: path) value = .table [(next, nested path value)] := rfl
    rw [lookup_layOver, valuesOf_cons_self, List.foldl_cons, hnested, laidOver,
      foldl_laidOver_tables htables, ← layOver_append]
    rfl

/-- The same if other entries come before the value. -/
theorem replaces_layOver {value : Setting} (hvalue : value.isTable = false) {key : String}
    {path : List String} (below earlier : Layer) {later : Layer}
    (hlater : ∀ entry ∈ later, Spares (key :: path) entry) :
    Replaces value (key :: path) (layOver below (earlier ++ later))
      (layOver below (earlier ++ (key, nested path value) :: later)) := by
  rw [layOver_append, layOver_append]
  exact replaces_layOver_cons hvalue (layOver below earlier) hlater

/-! ## Paths beside each other -/

/-- A nested value spares a path that its own path neither leads to nor goes through. -/
theorem spares_nested {first : String} {others path : List String} (value : Setting)
    (hthrough : ¬ first :: others <+: path) (hinside : ¬ path <+: first :: others) :
    Spares path (first, nested others value) := by
  induction path generalizing first others with
  | nil => exact absurd List.nil_prefix hinside
  | cons key rest ih =>
    by_cases hfirst : first = key
    · subst hfirst
      rw [List.prefix_cons_inj] at hthrough hinside
      cases others with
      | nil => exact absurd List.nil_prefix hthrough
      | cons second others =>
        cases rest with
        | nil => exact absurd List.nil_prefix hinside
        | cons next rest =>
          refine .inside ?_
          intro entry hentry
          rw [List.mem_singleton.mp hentry]
          exact ih hthrough hinside
    · exact .other hfirst

/-- A key is a path of at least one name. -/
theorem exists_pathOf_eq_cons (key : String) :
    ∃ first others, pathOf key = first :: others := by
  apply List.exists_cons_of_ne_nil
  rw [pathOf]
  split
  · exact (Text.segments_eq_iff.mp rfl).1
  · exact List.cons_ne_nil key []

/-- Whether a key is a path, a table that it leads through, or something inside the value there. -/
def Concerns (path : List String) (key : String) : Prop :=
  pathOf key <+: path ∨ path <+: pathOf key

instance (path : List String) (key : String) : Decidable (Concerns path key) :=
  inferInstanceAs (Decidable (_ ∨ _))

/-- An entry whose key does not concern a path spares it. -/
theorem spares_expandEntry {path : List String} {entry : String × Setting}
    (h : ¬ Concerns path entry.1) : Spares path (expandEntry entry) := by
  obtain ⟨hthrough, hinside⟩ := not_or.mp h
  obtain ⟨first, others, hpath⟩ := exists_pathOf_eq_cons entry.1
  rw [hpath] at hthrough hinside
  simp only [expandEntry, hpath]
  exact spares_nested entry.2 hthrough hinside

/-- An entry of a layer is in its place if the keys of the entries after it do not concern its
path. -/
theorem replaces_layOver_expand {value : Setting} (hvalue : value.isTable = false) (key : String)
    (below earlier : Layer) {later : Layer}
    (hlater : ∀ entry ∈ later, ¬ Concerns (pathOf key) entry.1) :
    Replaces value (pathOf key) (layOver below (expand (earlier ++ later)))
      (layOver below (expand (earlier ++ (key, value) :: later))) := by
  obtain ⟨first, others, hpath⟩ := exists_pathOf_eq_cons key
  have hspare : ∀ entry ∈ expand later, Spares (pathOf key) entry := by
    intro entry hentry
    obtain ⟨given, hgiven, rfl⟩ := List.mem_map.mp hentry
    exact spares_expandEntry (hlater given hgiven)
  have hentry : expandEntry (key, value) = (first, nested others value) := by
    simp only [expandEntry, hpath]
  simp only [expand, List.map_append, List.map_cons, hentry]
  rw [hpath] at hspare ⊢
  exact replaces_layOver hvalue below _ hspare

end PostfixRules.Setting
