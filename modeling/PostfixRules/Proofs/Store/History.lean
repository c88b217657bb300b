import PostfixRules.Proofs.Store.Coherence

/-!
# A store is what was written last

What a store holds is determined by what has happened to it: rules were loaded, the rule under an id
was taken out, or all rules were. What has happened can be told from the operations and their
answers alone. Under every id a store holds the rule that was loaded last, unless it has been taken
out since, compiled with the number of its loading; it holds nothing else. An operation that fails
or only reads makes nothing happen and leaves the store exactly as it was.
-/

namespace PostfixRules.Store

/-- Whether a rule was loaded. -/
def Event.isLoaded (event : Event) : Bool :=
  event.loadedId?.isSome

/-- Whether an event settles what is stored under an id, whatever was stored there before. -/
def Event.Settles (id : String) : Event → Prop
  | .loaded rule => rule.id = id
  | .deleted other => other = id
  | .cleared => True

/-- Whether an operation only asks for something. -/
def Operation.isRead : Operation → Bool
  | .create _ _ _ _ _ | .load _ | .loadText _ _ | .delete _ | .clear => false
  | .get _ | .contains _ | .list | .combine _ | .stats | .size | .isEmpty => true

/-- What a run has made happen, in order. -/
def history (store : Store) : List Operation → List Event
  | [] => []
  | operation :: rest =>
    (operation.event? (store.perform operation).1).toList ++
      (store.perform operation).2.history rest

/-- The last that was written under an id and not taken out since: a rule that was loaded under the
id, compiled with its number among all rules loaded so far. -/
def IsLastWrite (history : List Event) (id : String) (compiled : CompiledRule) : Prop :=
  ∃ before rule later, history = before ++ .loaded rule :: later ∧ rule.id = id ∧
    (∀ event ∈ later, ¬ event.Settles id) ∧
    compiled = ⟨rule, rule.expr.requiredFields, before.countP Event.isLoaded + 1⟩

/-- One more event is the last write itself, settles the id otherwise, or makes no difference. -/
theorem isLastWrite_concat_iff {history : List Event} {event : Event} {id : String}
    {compiled : CompiledRule} :
    IsLastWrite (history ++ [event]) id compiled ↔
      (∃ rule, event = .loaded rule ∧ rule.id = id ∧
        compiled = ⟨rule, rule.expr.requiredFields, history.countP Event.isLoaded + 1⟩) ∨
      ¬ event.Settles id ∧ IsLastWrite history id compiled := by
  constructor
  · rintro ⟨before, rule, later, hsplit, hid, hlater, hcompiled⟩
    rcases List.eq_nil_or_concat later with rfl | ⟨earlier, last, rfl⟩
    · obtain ⟨rfl, rfl⟩ := List.append_singleton_inj.mp hsplit
      exact .inl ⟨rule, rfl, hid, hcompiled⟩
    · rw [List.concat_eq_append, ← List.cons_append, ← List.append_assoc] at hsplit
      obtain ⟨rfl, rfl⟩ := List.append_singleton_inj.mp hsplit
      rw [List.concat_eq_append] at hlater
      exact .inr ⟨hlater event (List.mem_append_right _ List.mem_cons_self), before, rule,
        earlier, rfl, hid, fun other hother => hlater other (List.mem_append_left _ hother),
        hcompiled⟩
  · rintro (⟨rule, rfl, hid, hcompiled⟩ |
      ⟨hevent, before, rule, later, rfl, hid, hlater, hcompiled⟩)
    · exact ⟨history, rule, [], rfl, hid, List.forall_mem_nil _, hcompiled⟩
    · refine ⟨before, rule, later ++ [event], ?_, hid, ?_, hcompiled⟩
      · rw [List.append_assoc, List.cons_append]
      · intro other hother
        rcases List.mem_append.mp hother with hother | hother
        · exact hlater other hother
        · rw [List.mem_singleton.mp hother]
          exact hevent

/-- After something was taken out there is no last write under its id. -/
theorem not_isLastWrite_concat {history : List Event} {event : Event} {id : String}
    (hsettles : event.Settles id) (hloaded : event.isLoaded = false) (compiled : CompiledRule) :
    ¬ IsLastWrite (history ++ [event]) id compiled := by
  rw [isLastWrite_concat_iff]
  rintro (⟨rule, rfl, -⟩ | ⟨hnot, -⟩)
  · cases hloaded
  · exact hnot hsettles

/-- A last write is numbered among the rules that were loaded. -/
theorem IsLastWrite.version_le {history : List Event} {id : String} {compiled : CompiledRule}
    (h : IsLastWrite history id compiled) : compiled.version ≤ history.countP Event.isLoaded := by
  obtain ⟨before, rule, later, rfl, -, -, rfl⟩ := h
  rw [List.countP_append, List.countP_cons]
  simp only [Event.isLoaded, Event.loadedId?, Option.isSome_some, if_true]
  omega

/-! ## One event -/

/-- Under the ids that an event does not settle the store is as it was. -/
theorem get?_after_of_not_settles {store : Store} {event : Event} {id : String}
    (h : ¬ event.Settles id) : (store.after event).get? id = store.get? id := by
  cases event with
  | loaded rule =>
    have hne : id ≠ rule.id := fun he => h he.symm
    rw [after, get?, entries_afterLoad, Keyed.lookup_put, if_neg hne, get?]
  | deleted other =>
    have hne : id ≠ other := fun he => h he.symm
    rw [after, get?, Keyed.lookup_erase, if_neg hne, get?]
  | cleared => exact absurd trivial h

/-- Where an event takes something out, nothing is left. -/
theorem get?_after_of_settles {store : Store} {event : Event} {id : String}
    (h : event.Settles id) (hloaded : event.isLoaded = false) :
    (store.after event).get? id = none := by
  cases event with
  | loaded rule => cases hloaded
  | deleted other =>
    rw [after, get?, Keyed.lookup_erase, if_pos h.symm]
  | cleared => rfl

/-- Only loading a rule counts. -/
theorem version_after (store : Store) (event : Event) :
    (store.after event).compiler.version =
      store.compiler.version + [event].countP Event.isLoaded := by
  cases event <;> rfl

/-! ## Histories -/

/-- The store holds what was written last, and its compiler has counted the rules loaded. -/
structure Follows (store : Store) (history : List Event) : Prop where
  version_eq : store.compiler.version = history.countP Event.isLoaded
  get?_eq_some_iff : ∀ id compiled,
    store.get? id = some compiled ↔ IsLastWrite history id compiled

namespace Follows

variable {store : Store} {history : List Event}

theorem empty : Store.empty.Follows [] where
  version_eq := rfl
  get?_eq_some_iff := by
    intro id compiled
    refine iff_of_false (fun h => by cases h) ?_
    rintro ⟨before, rule, later, h, -⟩
    cases before <;> cases h

/-- After one more event the store follows the longer history. -/
theorem after (h : store.Follows history) (event : Event) :
    (store.after event).Follows (history ++ [event]) where
  version_eq := by rw [version_after, h.version_eq, List.countP_append]
  get?_eq_some_iff := by
    intro id compiled
    by_cases hsettles : event.Settles id
    · cases event with
      | loaded rule =>
        have hid : rule.id = id := hsettles
        subst hid
        rw [isLastWrite_concat_iff, Store.after, get?_afterLoad, compiledNext, h.version_eq]
        constructor
        · intro hcompiled
          exact .inl ⟨rule, rfl, rfl, (Option.some.inj hcompiled).symm⟩
        · rintro (⟨rule', hrule, -, rfl⟩ | ⟨hnot, -⟩)
          · cases hrule
            rfl
          · exact absurd hsettles hnot
      | deleted other =>
        rw [get?_after_of_settles hsettles rfl]
        exact iff_of_false (Option.some_ne_none compiled).symm
          (not_isLastWrite_concat hsettles rfl compiled)
      | cleared =>
        rw [get?_after_of_settles hsettles rfl]
        exact iff_of_false (Option.some_ne_none compiled).symm
          (not_isLastWrite_concat hsettles rfl compiled)
    · rw [isLastWrite_concat_iff, get?_after_of_not_settles hsettles, h.get?_eq_some_iff]
      constructor
      · intro hlast
        exact .inr ⟨hsettles, hlast⟩
      · rintro (⟨rule, rfl, hid, -⟩ | ⟨-, hlast⟩)
        · exact absurd hid hsettles
        · exact hlast

/-- After a run, a store that followed a history also follows what has happened since. -/
theorem run (h : store.Follows history) (operations : List Operation) :
    (store.run operations).Follows (history ++ store.history operations) := by
  induction operations generalizing store history with
  | nil =>
    rw [Store.history, List.append_nil]
    exact h
  | cons operation rest ih =>
    have hstep : (store.perform operation).2.Follows
        (history ++ (operation.event? (store.perform operation).1).toList) := by
      rw [(store.explains_perform operation).store_eq]
      cases operation.event? (store.perform operation).1 with
      | none =>
        rw [Option.toList_none, List.append_nil]
        exact h
      | some event => exact h.after event
    have hrest := ih hstep
    rw [List.append_assoc] at hrest
    exact hrest

end Follows

/-! ## What a store shows -/

/-- A store that holds the last writes of a history and nothing else. -/
structure Mirrors (store : Store) (history : List Event) : Prop where
  get?_eq_some_iff : ∀ id compiled,
    store.get? id = some compiled ↔ IsLastWrite history id compiled
  get?_eq_none_iff : ∀ id, store.get? id = none ↔ ∀ compiled, ¬ IsLastWrite history id compiled
  contains_iff : ∀ id, store.contains id = true ↔ ∃ compiled, IsLastWrite history id compiled
  /-- The size is the number of ids with a last write. -/
  size_eq : ∃ ids : List String, ids.Nodup ∧
    (∀ id, id ∈ ids ↔ ∃ compiled, IsLastWrite history id compiled) ∧ store.size = ids.length
  isEmpty_iff : store.isEmpty = true ↔ store.size = 0

/-- What an operation on a store may change. -/
structure Confines (store : Store) (operation : Operation) : Prop where
  /-- Loading a rule changes what is stored under its id only, and in place of an older rule there
  the store gets no larger and the version greater. -/
  of_loaded : ∀ rule, operation.event? (store.perform operation).1 = some (.loaded rule) →
    (∀ id, id ≠ rule.id → (store.perform operation).2.get? id = store.get? id) ∧
    ∀ old, store.get? rule.id = some old →
      (store.perform operation).2.size = store.size ∧
      ∃ new, (store.perform operation).2.get? rule.id = some new ∧ new.rule = rule ∧
        old.version < new.version
  /-- Taking out a rule succeeds exactly if it is there, and changes nothing else. -/
  of_delete : ∀ id, operation = .delete id →
    ((∃ answer, (store.perform operation).1 = .ok answer) ↔ store.contains id = true) ∧
    (store.perform operation).2.get? id = none ∧
    (∀ other, other ≠ id → (store.perform operation).2.get? other = store.get? other) ∧
    (store.perform operation).2.compiler = store.compiler
  /-- After an error the store is as it was, its compiler included. -/
  of_error : ∀ e, (store.perform operation).1 = .error e → (store.perform operation).2 = store
  of_read : operation.isRead = true → (store.perform operation).2 = store

theorem Operation.event?_error (operation : Operation) (e : RuleError) :
    operation.event? (.error e) = none := by
  cases operation <;> rfl

theorem Operation.event?_of_isRead {operation : Operation} (h : operation.isRead = true)
    (answer : Except RuleError Answer) : operation.event? answer = none := by
  cases operation with
  | create | load | loadText | delete | clear => cases h
  | get | contains | list | combine | stats | size | isEmpty => rfl

theorem perform_delete (store : Store) (id : String) :
    store.perform (.delete id) =
      if store.contains id then (.ok .done, store.after (.deleted id))
      else (.error (.ruleNotFound id), store) := by
  rw [perform, delete]
  cases store.contains id <;> rfl

namespace Follows

variable {store : Store} {history : List Event}

theorem mirrors (h : store.Follows history) (hkeys : (store.entries.map Prod.fst).Nodup) :
    store.Mirrors history where
  get?_eq_some_iff := h.get?_eq_some_iff
  get?_eq_none_iff := by
    intro id
    simp only [Option.eq_none_iff_forall_ne_some, ne_eq, h.get?_eq_some_iff]
  contains_iff := by
    intro id
    simp only [contains, Option.isSome_iff_exists, h.get?_eq_some_iff]
  size_eq := by
    refine ⟨store.entries.map Prod.fst, hkeys, ?_, ?_⟩
    · intro id
      simp only [Keyed.mem_keys_iff, ← h.get?_eq_some_iff, get?]
    · rw [List.length_map, size]
  isEmpty_iff := by rw [isEmpty, size, List.isEmpty_iff, List.length_eq_zero_iff]

theorem confines (h : store.Follows history) (operation : Operation) :
    store.Confines operation where
  of_loaded := by
    intro rule hevent
    have hperform := (store.explains_perform operation).store_eq
    rw [hevent] at hperform
    change _ = store.afterLoad rule at hperform
    rw [hperform]
    constructor
    · intro id hne
      have hother : ¬ (Event.loaded rule).Settles id := fun he => hne he.symm
      exact get?_after_of_not_settles hother
    · intro old hold
      have hkey : rule.id ∈ store.entries.map Prod.fst := Keyed.mem_keys_iff.mpr ⟨old, hold⟩
      refine ⟨?_, _, store.get?_afterLoad rule, rfl, ?_⟩
      · rw [size, entries_afterLoad, Keyed.length_put_of_mem _ hkey, size]
      · have hle := ((h.get?_eq_some_iff rule.id old).mp hold).version_le
        rw [← h.version_eq] at hle
        exact Nat.lt_succ_of_le hle
  of_delete := by
    rintro id rfl
    rw [perform_delete]
    by_cases hcontains : store.contains id = true
    · rw [if_pos hcontains]
      refine ⟨iff_of_true ⟨_, rfl⟩ hcontains, get?_after_of_settles rfl rfl, ?_, rfl⟩
      intro other hne
      have hother : ¬ (Event.deleted id).Settles other := fun he => hne he.symm
      exact get?_after_of_not_settles hother
    · rw [if_neg hcontains]
      have hrefused : ¬ ∃ answer : Answer,
          (Except.error (.ruleNotFound id) : Except RuleError Answer) = .ok answer := by
        rintro ⟨answer, he⟩
        cases he
      refine ⟨iff_of_false hrefused hcontains, ?_, fun _ _ => rfl, rfl⟩
      rw [contains, Bool.not_eq_true, Option.isSome_eq_false_iff, Option.isNone_iff_eq_none]
        at hcontains
      exact hcontains
  of_error := by
    intro e he
    rw [(store.explains_perform operation).store_eq, he, Operation.event?_error]
    rfl
  of_read := by
    intro hread
    rw [(store.explains_perform operation).store_eq, Operation.event?_of_isRead hread]
    rfl

end Follows

/-- After every run on a fresh store, the store holds the last writes of what has happened and
nothing else, and no further operation changes more than what it has made happen. -/
theorem run_mirrors_history (operations : List Operation) :
    (empty.run operations).Mirrors (empty.history operations) ∧
    ∀ next : Operation, (empty.run operations).Confines next := by
  have hfollows := Follows.empty.run operations
  rw [List.nil_append] at hfollows
  exact ⟨hfollows.mirrors (Reflects.empty.run operations).nodup_keys, hfollows.confines⟩

end PostfixRules.Store
