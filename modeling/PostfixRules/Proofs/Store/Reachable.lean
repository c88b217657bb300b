import PostfixRules.Proofs.Store.Coherence
import PostfixRules.Proofs.Store.Session

/-!
# The stores that come about

A store starts without rules. From then on rules are compiled, compiled rules are put under their
ids, ids are deleted, and the store is cleared, all in any order: between the two steps of loading a
rule anything may happen, so a compiled rule may be put into a store that is not the one it was
compiled in. Operations one after the other and calls at the same time never lead anywhere else. In
every such store each id is the key of one entry at most, and each entry is a checked rule under its
own id.
-/

namespace PostfixRules.Store

/-- A store that comes about, whatever is done to it and in whatever order. -/
inductive Reachable : Store → Prop where
  | empty : Reachable .empty
  /-- The first step of loading a rule. -/
  | compile {store : Store} (h : Reachable store) (rule : Rule) :
    Reachable (store.compile rule).2
  /-- The second step of loading a rule, some time after the first one. -/
  | insert {store source : Store} (h : Reachable store) (hsource : Reachable source) {rule : Rule}
    {compiled : CompiledRule} (hcompile : (source.compile rule).1 = .ok compiled) :
    Reachable (store.insert compiled)
  | delete {store : Store} (h : Reachable store) (id : String) : Reachable (store.delete id).2
  | clear {store : Store} (h : Reachable store) : Reachable store.clear

/-- What a sound rule with an id compiles to. -/
theorem compile_eq_ok (store : Store) {rule : Rule} (hid : rule.id ≠ "")
    (hsound : rule.expr.IsSound) : store.compile rule =
      (.ok (store.compiledNext rule), ⟨store.entries, ⟨store.compiler.version + 1⟩⟩) := by
  simp only [compile, Compiler.compile_eq_ok hid hsound, compiledNext]

/-- A rule that compiles has an id, and a tree that passes the check. -/
theorem of_compile_eq_ok {store : Store} {rule : Rule} {compiled : CompiledRule}
    (h : (store.compile rule).1 = .ok compiled) :
    rule.id ≠ "" ∧ rule.expr.IsSound ∧ compiled = store.compiledNext rule := by
  rcases store.compile_cases rule with ⟨hid, hsound, hcompile⟩ | ⟨e, hcompile⟩
  · rw [hcompile] at h
    exact ⟨hid, hsound, (Except.ok.inj h).symm⟩
  · rw [hcompile store] at h
    cases h

/-- Deleting takes out what is stored under the id, if anything is. -/
theorem delete_snd (store : Store) (id : String) :
    (store.delete id).2 = { store with entries := Keyed.erase id store.entries } := by
  rw [delete]
  split_ifs with hcontains
  · rfl
  · rw [contains, get?, Option.isSome_iff_exists, ← Keyed.mem_keys_iff] at hcontains
    have hsame : Keyed.erase id store.entries = store.entries := by
      refine List.filter_eq_self.mpr fun entry hentry => bne_iff_ne.mpr ?_
      rintro rfl
      exact hcontains (List.mem_map_of_mem hentry)
    rw [hsame]

namespace Reachable

variable {store : Store}

/-! ## Operations and calls -/

/-- Both steps of loading a rule, one right after the other. -/
theorem afterLoad (h : Reachable store) {rule : Rule} (hid : rule.id ≠ "")
    (hsound : rule.expr.IsSound) : Reachable (store.afterLoad rule) := by
  have hcompile := store.compile_eq_ok hid hsound
  have hfirst := h.compile rule
  rw [hcompile] at hfirst
  exact hfirst.insert h (congrArg Prod.fst hcompile)

/-- An operation leads from one of these stores to another. -/
theorem perform (h : Reachable store) (operation : Operation) :
    Reachable (store.perform operation).2 := by
  have hchange := store.change_perform operation
  generalize (store.perform operation).2 = store' at hchange
  generalize operation.loadedId? (store.perform operation).1 = loaded at hchange
  cases hchange with
  | loaded hid hsound => exact h.afterLoad hid hsound
  | cleared => exact h.clear
  | unchanged => exact h
  | deleted id => exact store.delete_snd id ▸ h.delete id

/-- Operations one after the other. -/
theorem run (h : Reachable store) (operations : List Operation) :
    Reachable (store.run operations) := by
  induction operations generalizing store with
  | nil => exact h
  | cons operation rest ih => exact ih (h.perform operation)

end Reachable

namespace Session

variable {ι : Type} [DecidableEq ι] {calls : ι → Call} {session : Session ι}

/-- A session whose store has come about, and whose compiled rules come from such stores. -/
structure IsReachable (session : Session ι) : Prop where
  store : Reachable session.store
  compiled : ∀ i compiled answer, session.stage i = .compiled compiled answer →
    ∃ (source : Store) (rule : Rule), Reachable source ∧ (source.compile rule).1 = .ok compiled

/-- A step of a call keeps it so. Only the call that takes the step may come to hold a rule that it
did not hold before. -/
theorem IsReachable.step (h : session.IsReachable) (i : ι) :
    (session.step calls i).IsReachable := by
  have hstep := session.advances_step calls i
  have hother : ∀ j, j ≠ i → (session.step calls i).stage j = session.stage j :=
    fun j hj => session.stage_step_of_ne calls i hj
  have hheld := h.compiled i
  generalize session.step calls i = next at hstep hother
  generalize session.stage i = stage at hstep hheld
  generalize hstage : next.stage i = stage' at hstep
  generalize hstore : next.store = store' at hstep
  have hcompiled (hnew : ∀ compiled answer, stage' = .compiled compiled answer →
      ∃ (source : Store) (rule : Rule), Reachable source ∧
        (source.compile rule).1 = .ok compiled) :
      ∀ j compiled answer, next.stage j = .compiled compiled answer →
        ∃ (source : Store) (rule : Rule), Reachable source ∧
          (source.compile rule).1 = .ok compiled := by
    intro j compiled answer hj
    by_cases hji : j = i
    · subst hji
      exact hnew compiled answer (hstage.symm.trans hj)
    · exact h.compiled j compiled answer ((hother j hji).symm.trans hj)
  cases hstep with
  | idle answer => exact ⟨hstore ▸ h.store, hcompiled fun _ _ heq => by cases heq⟩
  | refused e hrefused => exact ⟨hstore ▸ h.store, hcompiled fun _ _ heq => by cases heq⟩
  | direct hdraft =>
    exact ⟨hstore ▸ h.store.perform _, hcompiled fun _ _ heq => by cases heq⟩
  | @compiled rule answer hdraft hid hsound =>
    have hcompile := session.store.compile_eq_ok hid hsound
    refine ⟨?_, hcompiled ?_⟩
    · have hfirst := h.store.compile rule
      rw [hcompile] at hfirst
      exact hstore ▸ hfirst
    · intro compiled answer' heq
      cases heq
      exact ⟨session.store, rule, h.store, congrArg Prod.fst hcompile⟩
  | inserted compiled answer =>
    obtain ⟨source, rule, hsource, hcompile⟩ := hheld compiled answer rfl
    exact ⟨hstore ▸ h.store.insert hsource hcompile, hcompiled fun _ _ heq => by cases heq⟩

/-- Calls at the same time, from their first steps on. -/
theorem IsReachable.run (h : session.IsReachable) (schedule : List ι) :
    (session.run calls schedule).IsReachable := by
  induction schedule generalizing session with
  | nil => exact h
  | cons i rest ih => exact ih (h.step i)

end Session

/-- Calls at the same time lead from one of these stores to another, wherever they are stopped. -/
theorem Reachable.session {ι : Type} [DecidableEq ι] {store : Store} (h : Reachable store)
    (calls : ι → Call) (schedule : List ι) :
    Reachable ((Session.start store).run calls schedule).store := by
  have hstart : (Session.start store : Session ι).IsReachable := by
    refine ⟨h, ?_⟩
    intro i compiled answer heq
    cases heq
  exact (hstart.run schedule).store

/-! ## What all of them keep -/

/-- A store whose keys are not repeated, with a checked rule of its own id under each. -/
structure KeepsRules (store : Store) : Prop where
  nodup_keys : (store.entries.map Prod.fst).Nodup
  isEntry : ∀ entry ∈ store.entries, entry.2.IsEntry entry.1

namespace KeepsRules

variable {store : Store}

/-- Taking entries out keeps the others. -/
theorem of_sublist (h : store.KeepsRules) {entries : List (String × CompiledRule)}
    {compiler : Compiler} (hsublist : entries.Sublist store.entries) :
    KeepsRules ⟨entries, compiler⟩ where
  nodup_keys := h.nodup_keys.sublist (hsublist.map Prod.fst)
  isEntry := fun entry hentry => h.isEntry entry (hsublist.subset hentry)

/-- The order of the entries does not matter. -/
theorem of_perm (h : store.KeepsRules) {entries : List (String × CompiledRule)}
    {compiler : Compiler} (hperm : entries.Perm store.entries) :
    KeepsRules ⟨entries, compiler⟩ where
  nodup_keys := h.nodup_keys.perm (hperm.map Prod.fst).symm
  isEntry := fun entry hentry => h.isEntry entry (hperm.mem_iff.mp hentry)

/-- A compiled rule takes the place of the entry with its id. -/
theorem insert (h : store.KeepsRules) {compiled : CompiledRule}
    (hcompiled : compiled.IsEntry compiled.rule.id) : (store.insert compiled).KeepsRules where
  nodup_keys := Keyed.nodup_keys_put compiled.rule.id compiled h.nodup_keys
  isEntry := by
    intro entry hentry
    rcases (Keyed.mem_put h.nodup_keys).mp hentry with rfl | ⟨hold, -⟩
    · exact hcompiled
    · exact h.isEntry entry hold

end KeepsRules

theorem Reachable.keepsRules {store : Store} (h : Reachable store) : store.KeepsRules := by
  induction h with
  | empty => exact ⟨List.nodup_nil, fun _ hentry => by cases hentry⟩
  | @compile store h rule ih =>
    have hentries : (store.compile rule).2.entries = store.entries := by
      rw [Store.compile]
      cases store.compiler.compile rule <;> rfl
    have hkept : KeepsRules ⟨store.entries, (store.compile rule).2.compiler⟩ :=
      ih.of_sublist (.refl _)
    rw [← hentries] at hkept
    exact hkept
  | insert h hsource hcompile ih =>
    obtain ⟨hid, hsound, rfl⟩ := of_compile_eq_ok hcompile
    exact ih.insert ⟨rfl, hid, hsound, fun _ => Expr.mem_requiredFields,
      Expr.nodup_requiredFields _⟩
  | @delete store h id ih =>
    rw [store.delete_snd]
    exact ih.of_sublist List.filter_sublist
  | clear h ih => exact ih.of_sublist (List.nil_sublist _)

end PostfixRules.Store
