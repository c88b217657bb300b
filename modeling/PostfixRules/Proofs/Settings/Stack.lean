import PostfixRules.Proofs.Keyed
import PostfixRules.Settings.Key
import PostfixRules.Settings.Load

/-!
# What layers amount to

Laying tables over each other is laying their entries one after the other, and every key collects
the values given to it. If all values of a key are tables, their entries are again laid over each
other. If the key is to hold a scalar, only the last of its values counts: a table above a scalar is
no scalar, and a scalar above a table leaves nothing of it.
-/

namespace PostfixRules.Setting

/-- Whether a value is a table. -/
def isTable : Setting → Bool
  | .table _ => true
  | .flag _ | .whole _ | .real _ | .text _ | .list _ => false

/-- The values given to a key, one after the other. -/
def valuesOf (key : String) (entries : Layer) : List Setting :=
  (entries.filter fun entry => entry.1 == key).map Prod.snd

theorem valuesOf_append (key : String) (entries entries' : Layer) :
    valuesOf key (entries ++ entries') = valuesOf key entries ++ valuesOf key entries' := by
  simp only [valuesOf, List.filter_append, List.map_append]

theorem valuesOf_cons_self (key : String) (value : Setting) (rest : Layer) :
    valuesOf key ((key, value) :: rest) = value :: valuesOf key rest := by
  simp [valuesOf]

theorem valuesOf_cons_of_ne {key first : String} (h : first ≠ key) (value : Setting)
    (rest : Layer) : valuesOf key ((first, value) :: rest) = valuesOf key rest := by
  simp [valuesOf, h]

/-- Entries laid over a layer one table after the other. -/
theorem layOver_append (below entries entries' : Layer) :
    layOver below (entries ++ entries') = layOver (layOver below entries) entries' := by
  induction entries generalizing below with
  | nil => rfl
  | cons entry rest ih => exact ih _

/-- Layers laid over each other are their entries laid one after the other. -/
theorem stack_eq_layOver (layers : List Layer) :
    stack layers = layOver [] (layers.flatMap expand) := by
  suffices hfrom : ∀ below, layers.foldl (fun below layer => layOver below (expand layer)) below =
      layOver below (layers.flatMap expand) from hfrom []
  induction layers with
  | nil => exact fun below => rfl
  | cons layer rest ih =>
    intro below
    rw [List.foldl_cons, ih, List.flatMap_cons, layOver_append]

/-- A key holds its values laid over each other, on what it held before. -/
theorem lookup_layOver (below entries : Layer) (key : String) :
    (layOver below entries).lookup key =
      (valuesOf key entries).foldl (fun held value => some (laidOver held value))
        (below.lookup key) := by
  induction entries generalizing below with
  | nil => rfl
  | cons entry rest ih =>
    obtain ⟨first, value⟩ := entry
    rw [layOver, ih, Keyed.lookup_put]
    by_cases h : first = key
    · subst h
      rw [if_pos rfl, valuesOf_cons_self, List.foldl_cons]
    · rw [if_neg (Ne.symm h), valuesOf_cons_of_ne h]

/-! ## Keys of scalars -/

section Scalars

variable {α : Type} {decode : Setting → Option α}

/-- What is below a value does not matter where no table is wanted. -/
theorem decode_laidOver (hdecode : ∀ entries, decode (.table entries) = none)
    (below : Option Setting) (value : Setting) : decode (laidOver below value) = decode value := by
  cases value with
  | table entries => rw [laidOver, hdecode, hdecode]
  | flag | whole | real | text | list => rw [laidOver]

/-- Where no table is wanted, a key has the last of its values. -/
theorem decodeOr_lookup_layOver (hdecode : ∀ entries, decode (.table entries) = none)
    (fallback : α) (entries : Layer) (key : String) :
    decodeOr fallback decode ((layOver [] entries).lookup key) =
      decodeOr fallback decode (valuesOf key entries).getLast? := by
  rw [lookup_layOver]
  rcases List.eq_nil_or_concat (valuesOf key entries) with hnil | ⟨earlier, last, hlast⟩
  · rw [hnil]
    rfl
  · rw [hlast, List.concat_eq_append, List.foldl_append, List.getLast?_concat]
    exact decode_laidOver hdecode _ last

end Scalars

/-! ## Keys of sections -/

/-- The entries given to a section by all tables that stand for it. -/
def sectionEntries (key : String) (entries : Layer) : Layer :=
  (valuesOf key entries).flatMap fun value => entriesOf (some value)

/-- Tables laid over a table. -/
theorem foldl_laidOver_tables {values : List Setting} (h : ∀ value ∈ values, value.isTable = true)
    (inner : Layer) :
    values.foldl (fun held value => some (laidOver held value)) (some (.table inner)) =
      some (.table (layOver inner (values.flatMap fun value => entriesOf (some value)))) := by
  induction values generalizing inner with
  | nil => rfl
  | cons value rest ih =>
    obtain ⟨hvalue, hrest⟩ := List.forall_mem_cons.mp h
    cases value with
    | table entries =>
      rw [List.foldl_cons, laidOver, ih hrest, List.flatMap_cons, layOver_append]
      rfl
    | flag | whole | real | text | list => cases hvalue

/-- A section to which only tables are given has their entries as its parts. -/
theorem partsOf?_lookup_layOver {key : String} {entries : Layer}
    (h : ∀ value ∈ valuesOf key entries, value.isTable = true) (names : List String) :
    partsOf? names ((layOver [] entries).lookup key) =
      some (names.map fun name => (layOver [] (sectionEntries key entries)).lookup name) := by
  rw [lookup_layOver, sectionEntries]
  cases hvalues : valuesOf key entries with
  | nil => rfl
  | cons value rest =>
    rw [hvalues] at h
    obtain ⟨hvalue, hrest⟩ := List.forall_mem_cons.mp h
    cases value with
    | table inner =>
      have hlay : laidOver none (.table inner) = .table (layOver [] inner) := by rw [laidOver]; rfl
      rw [List.foldl_cons, List.lookup_nil, hlay, foldl_laidOver_tables hrest, List.flatMap_cons,
        layOver_append]
      rfl
    | flag | whole | real | text | list => cases hvalue

end PostfixRules.Setting
