import PostfixRules.Proofs.RequiredFields
import PostfixRules.Proofs.Store.Run

/-!
# What every run keeps

In a store that has been used in any way, every entry is a checked rule under its own id, with
exactly the fields that it reads. Versions number the rules that have been loaded: the version of an
entry is its place in the list of all ids loaded so far, and the compiler is at the end of that
list. Since an id is the key of one entry at most, versions are distinct.
-/

namespace PostfixRules

/-- What holds of a compiled rule that a store keeps under an id. -/
structure CompiledRule.IsEntry (compiled : CompiledRule) (id : String) : Prop where
  id_eq : compiled.rule.id = id
  id_ne_empty : id ≠ ""
  sound : compiled.rule.expr.IsSound
  mem_requiredFields : ∀ field, field ∈ compiled.requiredFields ↔ field ∈ compiled.rule.expr.fields
  nodup_requiredFields : compiled.requiredFields.Nodup

namespace Store

/-- A store whose rules have been loaded under the ids of a log, the last one last. Entries may have
been replaced or taken out since, but none has come from anywhere else. -/
structure Reflects (store : Store) (log : List String) : Prop where
  nodup_keys : (store.entries.map Prod.fst).Nodup
  isEntry : ∀ entry ∈ store.entries, entry.2.IsEntry entry.1
  /-- The compiler has counted the log. -/
  version_eq : store.compiler.version = log.length
  /-- The version of an entry is its place in the log, counted from one. -/
  numbered : ∀ entry ∈ store.entries,
    1 ≤ entry.2.version ∧ log[entry.2.version - 1]? = some entry.1

namespace Reflects

variable {store : Store} {log : List String}

theorem empty : Store.empty.Reflects [] where
  nodup_keys := List.nodup_nil
  isEntry := by simp [Store.empty]
  version_eq := rfl
  numbered := by simp [Store.empty]

theorem version_le (h : store.Reflects log) {entry : String × CompiledRule}
    (hentry : entry ∈ store.entries) : entry.2.version ≤ log.length := by
  obtain ⟨hpos, hplace⟩ := h.numbered entry hentry
  obtain ⟨hlt, -⟩ := List.getElem?_eq_some_iff.mp hplace
  omega

/-- A key stands for one entry only. -/
theorem eq_of_key_eq (h : store.Reflects log) {a b : String × CompiledRule}
    (ha : a ∈ store.entries) (hb : b ∈ store.entries) (hkey : a.1 = b.1) : a = b :=
  List.inj_on_of_nodup_map h.nodup_keys ha hb hkey

/-- What is found under an id is an entry with the id. -/
theorem isEntry_of_get? (h : store.Reflects log) {id : String} {compiled : CompiledRule}
    (hget : store.get? id = some compiled) : compiled.IsEntry id :=
  h.isEntry _ ((Keyed.lookup_eq_some_iff_mem h.nodup_keys).mp hget)

/-- Two entries with one version have one place in the log and hence one key. -/
theorem nodup_versions (h : store.Reflects log) :
    (store.entries.map fun entry => entry.2.version).Nodup := by
  refine h.nodup_keys.of_map.map_on ?_
  intro a ha b hb hversion
  have hplace := (h.numbered a ha).2
  rw [hversion, (h.numbered b hb).2] at hplace
  exact h.eq_of_key_eq ha hb (Option.some.inj hplace).symm

/-- Taking entries out leaves a store that reflects the same log. -/
theorem of_sublist (h : store.Reflects log) {entries : List (String × CompiledRule)}
    (hsublist : entries.Sublist store.entries) :
    Reflects { store with entries := entries } log where
  nodup_keys := h.nodup_keys.sublist (hsublist.map Prod.fst)
  isEntry := fun entry hentry => h.isEntry entry (hsublist.subset hentry)
  version_eq := h.version_eq
  numbered := fun entry hentry => h.numbered entry (hsublist.subset hentry)

/-- Loading a rule appends its id to the log. -/
theorem afterLoad (h : store.Reflects log) {rule : Rule} (hid : rule.id ≠ "")
    (hsound : rule.expr.IsSound) : (store.afterLoad rule).Reflects (log ++ [rule.id]) where
  nodup_keys := by
    rw [entries_afterLoad]
    exact Keyed.nodup_keys_put rule.id _ h.nodup_keys
  isEntry := by
    intro entry hentry
    rw [entries_afterLoad] at hentry
    rcases (Keyed.mem_put h.nodup_keys).mp hentry with rfl | ⟨hold, -⟩
    · exact ⟨rfl, hid, hsound, fun _ => Expr.mem_requiredFields, rule.expr.nodup_requiredFields⟩
    · exact h.isEntry entry hold
  version_eq := by
    rw [compiler_afterLoad, h.version_eq, List.length_append, List.length_singleton]
  numbered := by
    intro entry hentry
    rw [entries_afterLoad] at hentry
    rcases (Keyed.mem_put h.nodup_keys).mp hentry with rfl | ⟨hold, -⟩
    · rw [compiledNext, h.version_eq]
      exact ⟨Nat.le_add_left 1 _, List.getElem?_concat_length⟩
    · obtain ⟨hpos, hplace⟩ := h.numbered entry hold
      obtain ⟨hlt, -⟩ := List.getElem?_eq_some_iff.mp hplace
      have hsame : (log ++ [rule.id])[entry.2.version - 1]? = log[entry.2.version - 1]? :=
        List.getElem?_append_left hlt
      exact ⟨hpos, hsame.trans hplace⟩

/-- Whatever an operation does, the log goes on with the id under which it has loaded a rule. -/
theorem change (h : store.Reflects log) {loaded : Option String} {store' : Store}
    (hchange : store.Change loaded store') : store'.Reflects (log ++ loaded.toList) := by
  cases hchange with
  | loaded hid hsound => exact h.afterLoad hid hsound
  | deleted id =>
    rw [Option.toList_none, List.append_nil]
    exact h.of_sublist List.filter_sublist
  | cleared =>
    rw [Option.toList_none, List.append_nil]
    exact h.of_sublist (List.nil_sublist _)
  | unchanged =>
    rw [Option.toList_none, List.append_nil]
    exact h

/-- A run takes a store that reflects a log to one that reflects the log and what the run has
loaded. -/
theorem run (h : store.Reflects log) (operations : List Operation) :
    (store.run operations).Reflects (log ++ store.loadedIds operations) := by
  induction operations generalizing store log with
  | nil =>
    rw [loadedIds, List.append_nil]
    exact h
  | cons operation rest ih =>
    have hrest := ih (h.change (store.change_perform operation))
    rw [List.append_assoc] at hrest
    exact hrest

end Reflects

/-- What holds of a store at any time. -/
structure IsCoherent (store : Store) : Prop where
  nodup_keys : (store.entries.map Prod.fst).Nodup
  isEntry : ∀ entry ∈ store.entries, entry.2.IsEntry entry.1
  checked : ∀ entry ∈ store.entries, ∀ path, validate entry.2.rule.expr path = .ok ()
  version_pos : ∀ entry ∈ store.entries, 1 ≤ entry.2.version
  version_le : ∀ entry ∈ store.entries, entry.2.version ≤ store.compiler.version
  nodup_versions : (store.entries.map fun entry => entry.2.version).Nodup

theorem Reflects.isCoherent {store : Store} {log : List String} (h : store.Reflects log) :
    store.IsCoherent where
  nodup_keys := h.nodup_keys
  isEntry := h.isEntry
  checked := fun entry hentry _ => validate_eq_ok_iff.mpr (h.isEntry entry hentry).sound
  version_pos := fun entry hentry => (h.numbered entry hentry).1
  version_le := fun _ hentry => h.version_eq ▸ h.version_le hentry
  nodup_versions := h.nodup_versions

/-- After every run on a fresh store the store is coherent, the compiler has counted the rules that
were loaded, and the version of an entry is the number of the loading that it came from. The next
rule to be loaded gets the next version, and no other operation, failed or not, has to do with
versions. -/
theorem run_coherent_and_numbered (operations : List Operation) :
    (empty.run operations).IsCoherent ∧
    (empty.run operations).compiler.version = (empty.loadedIds operations).length ∧
    (∀ entry ∈ (empty.run operations).entries,
      (empty.loadedIds operations)[entry.2.version - 1]? = some entry.1) ∧
    ∀ next : Operation,
      (∀ id, next.loadedId? ((empty.run operations).perform next).1 = some id →
        ∃ compiled, ((empty.run operations).perform next).2.get? id = some compiled ∧
          compiled.version = (empty.loadedIds operations).length + 1) ∧
      (next.loadedId? ((empty.run operations).perform next).1 = none →
        ((empty.run operations).perform next).2.compiler = (empty.run operations).compiler) := by
  have hreflects := Reflects.empty.run operations
  rw [List.nil_append] at hreflects
  refine ⟨hreflects.isCoherent, hreflects.version_eq,
    fun entry hentry => (hreflects.numbered entry hentry).2, ?_⟩
  intro next
  have hchange := (empty.run operations).change_perform next
  constructor
  · intro id hid
    rw [hid] at hchange
    rw [← hreflects.version_eq]
    exact hchange.exists_get?
  · intro hnone
    rw [hnone] at hchange
    exact hchange.compiler_eq

end Store

end PostfixRules
