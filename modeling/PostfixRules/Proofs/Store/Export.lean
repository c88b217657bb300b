import PostfixRules.Proofs.Rule.Codec
import PostfixRules.Proofs.Store.History

/-!
# Listed rules can be loaded elsewhere

A store lists the rules of its entries. However a rule has come into a store, its id is not empty
and its tree is sound, so that its document passes every check of another store: it is loaded there
under its own id, as the same rule with the same required fields, and nothing else changes.
-/

namespace PostfixRules.Store

/-- A document is loaded if the rule that it denotes is. -/
theorem loadText_of_ofText {store : Store} {now : Timestamp} {document : String} {rule : Rule}
    (h : Rule.ofText now document = .ok rule) (hid : rule.id ≠ "") (hsound : rule.expr.IsSound) :
    store.loadText now document = (.ok rule.id, store.afterLoad rule) := by
  simp only [loadText, h, load_eq_ok hid hsound]

/-- The document of a sound rule with an id is loaded as the rule. -/
theorem loadText_write_toJson {rule : Rule} (hid : rule.id ≠ "") (hsound : rule.expr.IsSound)
    (hcreated : rule.createdAt.HasPlainYear) (hupdated : rule.updatedAt.HasPlainYear)
    (store : Store) (now : Timestamp) :
    store.loadText now (Json.write rule.toJson) = (.ok rule.id, store.afterLoad rule) := by
  have hread := Rule.ofText_write_toJson hsound.depth_le hsound.leaves.hasFiniteNumbers hcreated
    hupdated now
  exact loadText_of_ofText hread hid hsound

/-- The rules of the entries are listed. -/
theorem mem_list_iff {store : Store} {rule : Rule} :
    rule ∈ store.list ↔ ∃ entry ∈ store.entries, entry.2.rule = rule := by
  rw [list, List.mem_mergeSort, List.mem_map]

/-- After any run, a listed rule is stored under its id, with the fields that its tree reads, and
both the id and the tree pass the checks of loading. -/
theorem exists_get?_of_mem_list {operations : List Operation} {rule : Rule}
    (h : rule ∈ (empty.run operations).list) :
    ∃ compiled, (empty.run operations).get? rule.id = some compiled ∧ compiled.rule = rule ∧
      compiled.requiredFields = rule.expr.requiredFields ∧ rule.id ≠ "" ∧ rule.expr.IsSound := by
  have hreflects := Reflects.empty.run operations
  have hfollows := Follows.empty.run operations
  obtain ⟨⟨id, compiled⟩, hentry, rfl⟩ := mem_list_iff.mp h
  dsimp only
  obtain ⟨rfl, hid, hsound, -, -⟩ : compiled.IsEntry id := hreflects.isEntry _ hentry
  have hget : (empty.run operations).get? compiled.rule.id = some compiled :=
    (Keyed.lookup_eq_some_iff_mem hreflects.nodup_keys).mpr hentry
  obtain ⟨before, rule, later, -, -, -, hcompiled⟩ :=
    (hfollows.get?_eq_some_iff _ compiled).mp hget
  have hfields : compiled.requiredFields = compiled.rule.expr.requiredFields := by rw [hcompiled]
  exact ⟨compiled, hget, rfl, hfields, hid, hsound⟩

/-- The document of a rule that a store lists after any run is loaded by every store, at any time,
under the id of the rule. There it makes the same rule with the same required fields, and leaves
what is stored under other ids alone. -/
theorem listed_rule_loads (operations : List Operation) {rule : Rule}
    (hlisted : rule ∈ (empty.run operations).list) (hcreated : rule.createdAt.HasPlainYear)
    (hupdated : rule.updatedAt.HasPlainYear) (other : Store) (now : Timestamp) :
    ∃ (exported loaded : CompiledRule) (other' : Store),
      (empty.run operations).get? rule.id = some exported ∧ exported.rule = rule ∧
      other.loadText now (Json.write rule.toJson) = (.ok rule.id, other') ∧
      other'.get? rule.id = some loaded ∧ loaded.rule = rule ∧
      loaded.requiredFields = exported.requiredFields ∧
      ∀ id, id ≠ rule.id → other'.get? id = other.get? id := by
  obtain ⟨exported, hget, hrule, hfields, hid, hsound⟩ := exists_get?_of_mem_list hlisted
  refine ⟨exported, other.compiledNext rule, other.afterLoad rule, hget, hrule,
    loadText_write_toJson hid hsound hcreated hupdated other now, other.get?_afterLoad rule, rfl,
    hfields.symm, ?_⟩
  intro id hne
  rw [get?_afterLoad_eq_ite, if_neg hne]

/-- A rule with a quote, a line end and a character beyond the basic ones in its texts, made in a
leap second of the year 2016 and changed in the last nanosecond of the year 9999. -/
def leapRule : Rule where
  id := "\"é\n"
  name := "\\ 😀"
  description := ""
  expr := .logical .and (.comparison .atLeast "age" (.number (Double.ofNat 30)))
    (.comparison .equal "dépt" (.string "\t"))
  createdAt := ⟨1483228799, 1500000000, by decide, .inr (by decide)⟩
  updatedAt := ⟨253402300799, 999999999, by decide, .inl (by decide)⟩

/-- That rule, loaded by a store and listed there, goes into an empty store unchanged. -/
theorem listed_rule_loads_leap :
    leapRule ∈ (empty.run [.load leapRule]).list ∧ leapRule.createdAt.HasPlainYear ∧
      leapRule.updatedAt.HasPlainYear ∧
      ∃ (loaded : CompiledRule) (store : Store),
        empty.loadText (.ofSeconds 0) (Json.write leapRule.toJson) = (.ok "\"é\n", store) ∧
        store.get? "\"é\n" = some loaded ∧ loaded.rule = leapRule ∧
        loaded.requiredFields = ["age", "dépt"] := by
  have hfinite : (Double.ofNat 30).isFinite = true := by decide +kernel
  have hsound : leapRule.expr.IsSound := ⟨by decide, ⟨by decide, hfinite⟩, by decide, trivial⟩
  have hrun : empty.run [.load leapRule] = empty.afterLoad leapRule := by
    have hload : empty.load leapRule = (.ok (), empty.afterLoad leapRule) :=
      load_eq_ok (by decide) hsound
    simp only [run, List.foldl_cons, List.foldl_nil, perform, hload]
  have hlisted : leapRule ∈ (empty.run [.load leapRule]).list := by
    rw [hrun]
    exact mem_list_iff.mpr ⟨_, List.mem_singleton_self _, rfl⟩
  have hcreated : leapRule.createdAt.HasPlainYear := by decide +kernel
  have hupdated : leapRule.updatedAt.HasPlainYear := by decide +kernel
  obtain ⟨exported, loaded, store, hget, -, hload, hloaded, hrule, hfields, -⟩ :=
    listed_rule_loads [.load leapRule] hlisted hcreated hupdated empty (.ofSeconds 0)
  have hexported : exported = empty.compiledNext leapRule := by
    rw [hrun, get?_afterLoad] at hget
    exact (Option.some.inj hget).symm
  refine ⟨hlisted, hcreated, hupdated, loaded, store, hload, hloaded, hrule, ?_⟩
  rw [hfields, hexported]
  decide +kernel

end PostfixRules.Store
