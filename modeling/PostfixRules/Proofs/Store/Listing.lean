import Mathlib.Algebra.Order.BigOperators.Group.List
import Mathlib.Data.Finset.Dedup
import PostfixRules.Proofs.Number.Quotient
import PostfixRules.Proofs.Rule.Order
import PostfixRules.Proofs.Store.Reachable

/-!
# Listing and counting

The rules of a store are listed in the order of their creation times and ids. Since no two rules of
a store have the same id, this order puts every rule in a place of its own: the list says which
rules there are and nothing else, neither in what order the store goes through its entries nor how
they came there. The numbers about a store are those of its list.
-/

namespace PostfixRules

namespace Expr

/-- How many fields the comparisons of a tree name, each counted once. -/
def fieldCount (expr : Expr) : Nat :=
  expr.fields.toFinset.card

/-- A tree has fewer comparisons than a full tree of its depth has nodes. -/
theorem length_fields_lt (expr : Expr) : expr.fields.length < 2 ^ expr.depth := by
  induction expr with
  | comparison operator field value => exact Nat.one_lt_two
  | logical operator left right ihl ihr =>
    have hl := Nat.pow_le_pow_right Nat.two_pos (Nat.le_max_left left.depth right.depth)
    have hr := Nat.pow_le_pow_right Nat.two_pos (Nat.le_max_right left.depth right.depth)
    rw [fields, List.length_append, depth, Nat.add_comm 1, Nat.pow_succ]
    omega

theorem IsSound.fieldCount_le {expr : Expr} (h : expr.IsSound) :
    expr.fieldCount ≤ 2 ^ maxDepth :=
  calc expr.fieldCount ≤ expr.fields.length := List.toFinset_card_le expr.fields
    _ ≤ 2 ^ expr.depth := expr.length_fields_lt.le
    _ ≤ 2 ^ maxDepth := Nat.pow_le_pow_right Nat.two_pos h.depth_le

end Expr

/-- An entry has as many required fields as its tree names. -/
theorem CompiledRule.IsEntry.length_requiredFields {compiled : CompiledRule} {id : String}
    (h : compiled.IsEntry id) :
    compiled.requiredFields.length = compiled.rule.expr.fieldCount := by
  have hsame : compiled.requiredFields.toFinset = compiled.rule.expr.fields.toFinset := by
    ext field
    rw [List.mem_toFinset, List.mem_toFinset, h.mem_requiredFields]
  rw [Expr.fieldCount, ← hsame, List.toFinset_card_of_nodup h.nodup_requiredFields]

namespace Store

/-- A rule that is stored, under whatever id. -/
def Stores (store : Store) (rule : Rule) : Prop :=
  ∃ id compiled, store.get? id = some compiled ∧ compiled.rule = rule

theorem list_perm (store : Store) :
    store.list.Perm (store.entries.map fun entry => entry.2.rule) :=
  List.mergeSort_perm _ _

namespace KeepsRules

variable {store : Store}

/-! ## The list -/

theorem mem_list_iff (h : store.KeepsRules) {rule : Rule} :
    rule ∈ store.list ↔ store.Stores rule := by
  rw [store.list_perm.mem_iff, List.mem_map]
  constructor
  · rintro ⟨⟨id, compiled⟩, hentry, rfl⟩
    exact ⟨id, compiled, (Keyed.lookup_eq_some_iff_mem h.nodup_keys).mpr hentry, rfl⟩
  · rintro ⟨id, compiled, hget, rfl⟩
    exact ⟨(id, compiled), (Keyed.lookup_eq_some_iff_mem h.nodup_keys).mp hget, rfl⟩

/-- The ids of the listed rules are the keys of the entries. -/
theorem nodup_ids (h : store.KeepsRules) : (store.list.map Rule.id).Nodup := by
  have hkeys : (store.entries.map fun entry => entry.2.rule).map Rule.id =
      store.entries.map Prod.fst := by
    rw [List.map_map]
    exact List.map_congr_left fun entry hentry => (h.isEntry entry hentry).id_eq
  rw [(store.list_perm.map Rule.id).nodup_iff, hkeys]
  exact h.nodup_keys

theorem nodup_list (h : store.KeepsRules) : store.list.Nodup :=
  h.nodup_ids.of_map

/-- Sorting puts no rule before an earlier one, and different ids decide where times are equal. -/
theorem pairwise_list (h : store.KeepsRules) : store.list.Pairwise Rule.Precedes := by
  have hids : store.list.Pairwise fun a b => a.id ≠ b.id := List.pairwise_map.mp h.nodup_ids
  exact (Rule.pairwise_mergeSort _).imp₂ (fun a b => Rule.precedes_of_le) hids

/-- Two stores with the same rules list them alike. -/
theorem list_eq {other : Store} (h : store.KeepsRules) (h' : other.KeepsRules)
    (hsame : ∀ rule, other.Stores rule ↔ store.Stores rule) : other.list = store.list := by
  have hperm : other.list.Perm store.list := by
    rw [List.perm_ext_iff_of_nodup h'.nodup_list h.nodup_list]
    intro rule
    rw [h'.mem_list_iff, h.mem_list_iff, hsame]
  refine List.Perm.eq_of_pairwise ?_ h'.pairwise_list h.pairwise_list hperm
  intro a b _ _ hab hba
  exact absurd hba hab.asymm

/-- The order of the entries does not show in what is stored. -/
theorem stores_of_perm (h : store.KeepsRules) {entries : List (String × CompiledRule)}
    {compiler : Compiler} (hperm : entries.Perm store.entries) (rule : Rule) :
    Stores ⟨entries, compiler⟩ rule ↔ store.Stores rule := by
  have hlookup (id : String) : get? ⟨entries, compiler⟩ id = store.get? id :=
    (Keyed.lookup_eq_of_perm hperm.symm h.nodup_keys id).symm
  simp only [Stores, hlookup]

end KeepsRules

/-! ## The numbers -/

theorem rules_stats (store : Store) : store.stats.rules = store.list.length := by
  rw [store.list_perm.length_eq, List.length_map]
  rfl

/-- The average is that of the other two numbers. -/
theorem average_stats (store : Store) : store.stats.average =
    if 0 < store.stats.rules then Double.ofRatio false store.stats.fields store.stats.rules
    else Double.ofNat 0 := rfl

theorem KeepsRules.fields_stats {store : Store} (h : store.KeepsRules) :
    store.stats.fields = (store.list.map fun rule => rule.expr.fieldCount).sum := by
  have hentries : (store.entries.map fun entry => entry.2.requiredFields.length) =
      (store.entries.map fun entry => entry.2.rule).map fun rule => rule.expr.fieldCount := by
    rw [List.map_map]
    exact List.map_congr_left fun entry hentry => (h.isEntry entry hentry).length_requiredFields
  calc store.stats.fields
    _ = (store.entries.map fun entry => entry.2.requiredFields.length).sum := rfl
    _ = (store.list.map fun rule => rule.expr.fieldCount).sum := by
      rw [hentries, (store.list_perm.map _).sum_eq]

/-- Stores that list the same rules have the same numbers. -/
theorem KeepsRules.stats_eq {store other : Store} (h : store.KeepsRules) (h' : other.KeepsRules)
    (hlist : other.list = store.list) : other.stats = store.stats := by
  have hrules : other.stats.rules = store.stats.rules := by rw [rules_stats, rules_stats, hlist]
  have hfields : other.stats.fields = store.stats.fields := by
    rw [h'.fields_stats, h.fields_stats, hlist]
  have haverage : other.stats.average = store.stats.average := by
    rw [average_stats, average_stats, hrules, hfields]
  calc other.stats = ⟨other.stats.rules, other.stats.fields, other.stats.average⟩ := rfl
    _ = ⟨store.stats.rules, store.stats.fields, store.stats.average⟩ := by
      rw [hrules, hfields, haverage]
    _ = store.stats := rfl

/-- No rule names more fields than a tree within the depth limit can have. -/
theorem KeepsRules.fields_le {store : Store} (h : store.KeepsRules) :
    store.stats.fields ≤ store.stats.rules * 2 ^ maxDepth := by
  rw [h.fields_stats, rules_stats]
  have hbound : ∀ count ∈ store.list.map (fun rule => rule.expr.fieldCount),
      count ≤ 2 ^ maxDepth := by
    intro count hcount
    obtain ⟨rule, hrule, rfl⟩ := List.mem_map.mp hcount
    obtain ⟨id, compiled, hget, rfl⟩ := h.mem_list_iff.mp hrule
    have hentry := h.isEntry _ ((Keyed.lookup_eq_some_iff_mem h.nodup_keys).mp hget)
    exact hentry.sound.fieldCount_le
  simpa using List.sum_le_card_nsmul _ _ hbound

/-! ## The main result -/

/-- What a store shows of its rules depends on the rules alone. -/
structure ShowsRules (store : Store) : Prop where
  /-- The creation times increase along the list, and where they are equal the ids do. -/
  pairwise_precedes : store.list.Pairwise fun a b => a.createdAt.order b.createdAt = .lt ∨
    a.createdAt = b.createdAt ∧ Text.byteOrder a.id b.id = .lt
  count_eq_one : ∀ rule, store.Stores rule → store.list.count rule = 1
  stores_of_mem : ∀ rule ∈ store.list, store.Stores rule
  /-- The order in which the entries are gone through does not matter. -/
  eq_of_perm : ∀ entries : List (String × CompiledRule), entries.Perm store.entries →
    list ⟨entries, store.compiler⟩ = store.list ∧ stats ⟨entries, store.compiler⟩ = store.stats
  rules_eq : store.stats.rules = store.list.length
  fields_eq : store.stats.fields =
    (store.list.map fun rule => rule.expr.fields.toFinset.card).sum
  average_of_nil : store.list = [] → store.stats.average = .finite (Finite.zero false)
  average_of_ne_nil : store.list ≠ [] → ∃ x : Finite, store.stats.average = .finite x ∧
    x.IsNearestTo ((store.stats.fields : ℚ) / (store.stats.rules : ℚ))
  /-- Whatever else leads to the same rules leads to the same list and the same numbers. -/
  eq_of_stores : ∀ other : Store, Reachable other →
    (∀ rule, other.Stores rule ↔ store.Stores rule) →
    other.list = store.list ∧ other.stats = store.stats

/-- In every store that comes about the list has each stored rule once, strictly in the order of
creation times and ids, and the numbers are those of the list; the average is the double nearest to
the quotient of the other two numbers, and zero if there are no rules. Neither the order in which
the store goes through its entries nor what was done to it before matters. -/
theorem showsRules_of_reachable {store : Store} (h : Reachable store) : store.ShowsRules where
  pairwise_precedes := h.keepsRules.pairwise_list
  count_eq_one := by
    intro rule hrule
    exact List.count_eq_one_of_mem h.keepsRules.nodup_list (h.keepsRules.mem_list_iff.mpr hrule)
  stores_of_mem := fun rule hrule => h.keepsRules.mem_list_iff.mp hrule
  eq_of_perm := by
    intro entries hperm
    have hkeeps : KeepsRules ⟨entries, store.compiler⟩ := h.keepsRules.of_perm hperm
    have hlist := h.keepsRules.list_eq hkeeps (h.keepsRules.stores_of_perm hperm)
    exact ⟨hlist, h.keepsRules.stats_eq hkeeps hlist⟩
  rules_eq := store.rules_stats
  fields_eq := h.keepsRules.fields_stats
  average_of_nil := by
    intro hnil
    have hzero : 2 * (0 * unitsPerOne) < 1 := by
      rw [Nat.zero_mul]
      decide
    rw [average_stats, rules_stats, hnil, List.length_nil, if_neg (Nat.lt_irrefl 0)]
    exact Double.ofRatio_zero false hzero
  average_of_ne_nil := by
    intro hne
    have hpos : 0 < store.stats.rules := by
      rw [rules_stats]
      exact List.length_pos_iff.mpr hne
    rw [average_stats, if_pos hpos]
    exact Double.ofRatio_isNearestTo hpos h.keepsRules.fields_le
  eq_of_stores := by
    intro other hother hsame
    have hlist := h.keepsRules.list_eq hother.keepsRules hsame
    exact ⟨hlist, h.keepsRules.stats_eq hother.keepsRules hlist⟩

/-- A store to which two rules of one time were added, the later id first, and the first one then
loaded again under another name. -/
def reloadedPair : Store :=
  let tree := Expr.comparison .equal "age" (.boolean true)
  empty.run
    [.load (.create "b" (.ofSeconds 0) "first" "" tree),
      .load (.create "a" (.ofSeconds 0) "second" "" tree),
      .load (.create "b" (.ofSeconds 0) "third" "" tree)]

theorem showsRules_reloadedPair :
    Reachable reloadedPair ∧ reloadedPair.ShowsRules ∧
      (reloadedPair.entries.map fun entry => entry.2.rule.name) = ["third", "second"] :=
  ⟨Reachable.empty.run _, showsRules_of_reachable (Reachable.empty.run _), by decide +kernel⟩

end Store

end PostfixRules
