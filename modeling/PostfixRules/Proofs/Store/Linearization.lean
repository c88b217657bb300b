import PostfixRules.Proofs.Store.History
import PostfixRules.Proofs.Store.Session

/-!
# Calls at the same time are calls in a row

Whatever order the steps of calls come in, the calls might as well have been carried out one after
the other, in the order in which they were answered: apart from version numbers each has the answer
that it would have had then, and the rules that are left are the same. A call that was answered
before another took its first step stands before it. A rule that was loaded is therefore still there
at the end, unless its id was deleted later or another rule loaded under it.
-/

namespace PostfixRules.Store

/-! ## Versions do not matter -/

/-- Apart from versions, stores with the same rules contain the same ids. -/
theorem contains_eq_of_unversioned {store other : Store}
    (h : store.unversioned = other.unversioned) (id : String) :
    store.contains id = other.contains id := by
  rw [contains, contains, ← Option.isSome_map (f := CompiledRule.unversioned),
    map_get?_of_unversioned h, Option.isSome_map]

/-- A call that loads nothing does the same to stores with the same rules. -/
theorem perform_unversioned {store other : Store} (h : store.unversioned = other.unversioned)
    {call : Call} (hdraft : call.draft? = none) :
    (store.perform call.operation).1.map Answer.unversioned =
      (other.perform call.operation).1.map Answer.unversioned ∧
    (store.perform call.operation).2.unversioned =
      (other.perform call.operation).2.unversioned := by
  obtain ⟨id, rfl | rfl | rfl⟩ := Call.exists_id_of_draft? hdraft
  · have herased : unversioned { store with entries := Keyed.erase id store.entries } =
        unversioned { other with entries := Keyed.erase id other.entries } := by
      simp only [unversioned, Keyed.map_erase]
      exact congrArg (Keyed.erase id) h
    simp only [Call.operation, perform, delete, contains_eq_of_unversioned h id]
    cases other.contains id with
    | true => exact ⟨rfl, herased⟩
    | false => exact ⟨rfl, h⟩
  · exact ⟨congrArg (fun found => Except.ok (Answer.found found)) (map_get?_of_unversioned h id), h⟩
  · refine ⟨?_, h⟩
    simp only [Call.operation, perform, contains_eq_of_unversioned h id]

/-- Loading a rule at once does to a store what putting the compiled rule does to another with the
same rules, whichever version it was compiled with. -/
theorem perform_of_compiled {store other : Store} (h : store.unversioned = other.unversioned)
    {call : Call} {rule : Rule} {answer : Answer}
    (hdraft : call.draft? = some (.ok (rule, answer))) (hid : rule.id ≠ "")
    (hsound : rule.expr.IsSound) (version : Nat) :
    (other.perform call.operation).1 = .ok answer ∧
    (store.insert ⟨rule, rule.expr.requiredFields, version⟩).unversioned =
      (other.perform call.operation).2.unversioned := by
  have hperform : other.perform call.operation = (.ok answer, other.afterLoad rule) := by
    simp only [other.perform_of_draft? hdraft, loadDraft, load_eq_ok hid hsound]
  rw [hperform]
  refine ⟨rfl, ?_⟩
  rw [unversioned_insert, afterLoad, unversioned_insert, h]
  rfl

/-- What an operation has made happen does not depend on the versions in its answer. -/
theorem Operation.event?_unversioned (operation : Operation) (answer : Except RuleError Answer) :
    operation.event? (answer.map Answer.unversioned) = operation.event? answer := by
  cases answer with
  | error e => rfl
  | ok answer => cases operation <;> cases answer <;> rfl

/-- No call takes out all rules. -/
theorem Call.event?_operation_ne_cleared (call : Call) (answer : Except RuleError Answer) :
    call.operation.event? answer ≠ some .cleared := by
  intro h
  cases call with
  | create | load | delete =>
    cases answer with
    | error e => cases h
    | ok answer => cases answer <;> cases h
  | loadText now document =>
    cases answer with
    | error e => cases h
    | ok answer =>
      obtain ⟨rule, -, hrule⟩ := Option.map_eq_some_iff.mp h
      cases hrule
  | get | contains => cases answer <;> cases h

/-! ## The rules that stay -/

/-- A run does to a store what has happened in it. -/
theorem run_eq_foldl_history (store : Store) (operations : List Operation) :
    store.run operations = (store.history operations).foldl after store := by
  induction operations generalizing store with
  | nil => rfl
  | cons operation rest ih =>
    have hstep := (store.explains_perform operation).store_eq
    have hafter : (store.perform operation).2 =
        (operation.event? (store.perform operation).1).toList.foldl after store := by
      rw [hstep]
      cases operation.event? (store.perform operation).1 <;> rfl
    rw [history, List.foldl_append, run, List.foldl_cons, ← run, ih, ← hafter]

/-- What stands under an id stays until other rules are loaded under the id, if it is not
removed. -/
theorem exists_get?_foldl_after {store : Store} {events : List Event} {id : String}
    {compiled : CompiledRule} (hget : store.get? id = some compiled)
    (hkept : ∀ event ∈ events, event.Settles id → event.isLoaded = true) :
    ∃ compiled', (events.foldl after store).get? id = some compiled' ∧
      (compiled'.rule = compiled.rule ∨
        .loaded compiled'.rule ∈ events ∧ compiled'.rule.id = id) := by
  induction events generalizing store compiled with
  | nil => exact ⟨compiled, hget, .inl rfl⟩
  | cons event rest ih =>
    obtain ⟨hevent, hrest⟩ := List.forall_mem_cons.mp hkept
    rw [List.foldl_cons]
    by_cases hsettles : event.Settles id
    · cases event with
      | deleted other => cases hevent hsettles
      | cleared => cases hevent hsettles
      | loaded rule =>
        have hid : rule.id = id := hsettles
        subst hid
        obtain ⟨last, hlast, hrule⟩ := ih (store.get?_afterLoad rule) hrest
        refine ⟨last, hlast, .inr ?_⟩
        rcases hrule with hrule | ⟨hmem, hid⟩
        · have hsame : last.rule = rule := hrule
          rw [hsame]
          exact ⟨List.mem_cons_self, rfl⟩
        · exact ⟨List.mem_cons_of_mem _ hmem, hid⟩
    · have hsame := (get?_after_of_not_settles hsettles).trans hget
      obtain ⟨last, hlast, hrule⟩ := ih hsame hrest
      exact ⟨last, hlast, hrule.imp_right fun h => ⟨List.mem_cons_of_mem _ h.1, h.2⟩⟩

namespace Session

variable {ι : Type} (calls : ι → Call)

/-! ## One call after the other -/

/-- What a call has made happen, once it has been answered. -/
def event? (session : Session ι) (i : ι) : Option Event :=
  match session.stage i with
  | .answered answer => (calls i).operation.event? answer
  | .called | .compiled _ _ => none

theorem event?_ne_cleared (session : Session ι) (i : ι) :
    session.event? calls i ≠ some .cleared := by
  rw [event?]
  cases session.stage i with
  | called | compiled => exact fun h => by cases h
  | answered answer => exact (calls i).event?_operation_ne_cleared answer

/-- The store after calls have been carried out one after the other. -/
def inTurn (store : Store) (order : List ι) : Store :=
  store.run (order.map fun i => (calls i).operation)

theorem inTurn_concat (store : Store) (order : List ι) (i : ι) :
    inTurn calls store (order ++ [i]) =
      ((inTurn calls store order).perform (calls i).operation).2 := by
  simp only [inTurn, Store.run, List.map_append, List.foldl_append, List.map_cons, List.map_nil,
    List.foldl_cons, List.foldl_nil]

/-- A session that has come to what its answered calls come to one after the other. -/
structure IsSerial (session : Session ι) (store : Store) (order : List ι) : Prop where
  nodup : order.Nodup
  mem_iff : ∀ i, i ∈ order ↔ session.Answers i
  /-- Each call has the answer that it has in its turn. -/
  answer_eq : ∀ before i after, order = before ++ i :: after →
    ∃ answer, session.stage i = .answered answer ∧ answer.map Answer.unversioned =
      ((inTurn calls store before).perform (calls i).operation).1.map Answer.unversioned
  /-- The rules are those that are there in the end. -/
  rules_eq : session.store.unversioned = (inTurn calls store order).unversioned

/-- Between its steps a call holds its own rule, which could be loaded at any time. -/
def HoldsDrafts (session : Session ι) : Prop :=
  ∀ i compiled answer, session.stage i = .compiled compiled answer →
    ∃ rule version, (calls i).draft? = some (.ok (rule, answer)) ∧ rule.id ≠ "" ∧
      rule.expr.IsSound ∧ compiled = ⟨rule, rule.expr.requiredFields, version⟩

variable {calls} {session : Session ι} {store : Store} {order : List ι}

theorem isSerial_start : (start store).IsSerial calls store [] where
  nodup := List.nodup_nil
  mem_iff := by
    intro i
    refine iff_of_false (List.not_mem_nil) ?_
    rintro ⟨answer, h⟩
    cases h
  answer_eq := by
    intro before i after h
    cases before <;> cases h
  rules_eq := rfl

/-- When a call is answered as in its turn, it goes to the end of the order. -/
theorem IsSerial.concat (h : session.IsSerial calls store order) {i : ι} {session' : Session ι}
    {answer : Except RuleError Answer} (hpending : ¬ session.Answers i)
    (hother : ∀ j, j ≠ i → session'.stage j = session.stage j)
    (hstage : session'.stage i = .answered answer)
    (hanswer : answer.map Answer.unversioned =
      ((inTurn calls store order).perform (calls i).operation).1.map Answer.unversioned)
    (hrules : session'.store.unversioned =
      ((inTurn calls store order).perform (calls i).operation).2.unversioned) :
    session'.IsSerial calls store (order ++ [i]) where
  nodup := by
    have hnew : i ∉ order := fun hmem => hpending ((h.mem_iff i).mp hmem)
    exact List.concat_eq_append ▸ h.nodup.concat hnew
  mem_iff := by
    intro j
    rw [List.mem_append, List.mem_singleton, h.mem_iff]
    by_cases hj : j = i
    · subst hj
      exact iff_of_true (.inr rfl) ⟨answer, hstage⟩
    · rw [Answers, Answers, hother j hj]
      exact or_iff_left hj
  answer_eq := by
    intro before j after hsplit
    rcases List.eq_nil_or_concat after with rfl | ⟨earlier, last, rfl⟩
    · obtain ⟨rfl, rfl⟩ := List.append_singleton_inj.mp hsplit
      exact ⟨answer, hstage, hanswer⟩
    · rw [List.concat_eq_append, ← List.cons_append, ← List.append_assoc] at hsplit
      obtain ⟨rfl, rfl⟩ := List.append_singleton_inj.mp hsplit
      obtain ⟨answer', hstage', hanswer'⟩ := h.answer_eq before j earlier rfl
      have hne : j ≠ i := by
        rintro rfl
        exact hpending ⟨answer', hstage'⟩
      exact ⟨answer', (hother j hne).trans hstage', hanswer'⟩
  rules_eq := by rw [inTurn_concat, hrules]

/-- A step that answers no call and keeps the rules keeps the order. -/
theorem IsSerial.unanswered (h : session.IsSerial calls store order) {session' : Session ι}
    (hstages : ∀ j answer, session'.stage j = .answered answer ↔ session.stage j = .answered answer)
    (hrules : session'.store.unversioned = session.store.unversioned) :
    session'.IsSerial calls store order where
  nodup := h.nodup
  mem_iff := by
    intro j
    rw [h.mem_iff, Answers, Answers]
    exact exists_congr fun answer => (hstages j answer).symm
  answer_eq := by
    intro before j after hsplit
    obtain ⟨answer, hstage, hanswer⟩ := h.answer_eq before j after hsplit
    exact ⟨answer, (hstages j answer).mpr hstage, hanswer⟩
  rules_eq := hrules.trans h.rules_eq

/-- What is known of a call that has been answered shows in its turn, too. -/
theorem IsSerial.history_eq (h : session.IsSerial calls store order) :
    store.history (order.map fun i => (calls i).operation) =
      order.filterMap (session.event? calls) := by
  suffices hsuffix : ∀ rest before, order = before ++ rest →
      (inTurn calls store before).history (rest.map fun i => (calls i).operation) =
        rest.filterMap (session.event? calls) from hsuffix order [] rfl
  intro rest
  induction rest with
  | nil =>
    intro before hsplit
    rfl
  | cons i rest ih =>
    intro before hsplit
    obtain ⟨answer, hstage, hanswer⟩ := h.answer_eq before i rest hsplit
    have hevent : (calls i).operation.event?
        ((inTurn calls store before).perform (calls i).operation).1 = session.event? calls i := by
      rw [← Operation.event?_unversioned, ← hanswer, Operation.event?_unversioned, event?, hstage]
    have hrest := ih (before ++ [i]) (by rw [hsplit, List.append_assoc]; rfl)
    rw [inTurn_concat] at hrest
    rw [List.map_cons, history, hevent, hrest, List.filterMap_cons]
    cases session.event? calls i <;> rfl

/-- A rule that a call has loaded stays until others are loaded under its id, if none of the calls
answered later has deleted it. -/
theorem IsSerial.exists_loaded (h : session.IsSerial calls store order) {before after : List ι}
    {i : ι} {rule : Rule} (hsplit : order = before ++ i :: after)
    (hloaded : session.event? calls i = some (.loaded rule))
    (hkept : ∀ j ∈ after, session.event? calls j ≠ some (.deleted rule.id)) :
    ∃ k ∈ i :: after, ∃ compiled, session.store.get? rule.id = some compiled ∧
      session.event? calls k = some (.loaded compiled.rule) ∧ compiled.rule.id = rule.id := by
  obtain ⟨middle, hinTurn⟩ : ∃ middle : Store, inTurn calls store order =
      (after.filterMap (session.event? calls)).foldl Store.after (middle.afterLoad rule) := by
    refine ⟨(before.filterMap (session.event? calls)).foldl Store.after store, ?_⟩
    rw [inTurn, run_eq_foldl_history, h.history_eq, hsplit, List.filterMap_append,
      List.filterMap_cons, hloaded, List.foldl_append]
    rfl
  have hafter : ∀ event ∈ after.filterMap (session.event? calls),
      event.Settles rule.id → event.isLoaded = true := by
    intro event hmem hsettles
    obtain ⟨j, hj, hevent⟩ := List.mem_filterMap.mp hmem
    cases event with
    | loaded other => rfl
    | deleted other =>
      have hother : other = rule.id := hsettles
      subst hother
      exact absurd hevent (hkept j hj)
    | cleared => exact absurd hevent (event?_ne_cleared calls session j)
  obtain ⟨last, hlast, hrule⟩ := exists_get?_foldl_after (middle.get?_afterLoad rule) hafter
  obtain ⟨compiled, hcompiled, hunversioned⟩ : ∃ compiled,
      session.store.get? rule.id = some compiled ∧ compiled.unversioned = last.unversioned := by
    have hget := map_get?_of_unversioned h.rules_eq rule.id
    rwa [hinTurn, hlast, Option.map_some, Option.map_eq_some_iff] at hget
  have hsame : compiled.unversioned.rule = last.unversioned.rule :=
    congrArg CompiledRule.rule hunversioned
  change compiled.rule = last.rule at hsame
  rcases hrule with hrule | ⟨hmem, hid⟩
  · have hown : compiled.rule = rule := hsame.trans hrule
    refine ⟨i, List.mem_cons_self, compiled, hcompiled, ?_, congrArg Rule.id hown⟩
    rw [hown]
    exact hloaded
  · obtain ⟨k, hk, hevent⟩ := List.mem_filterMap.mp hmem
    rw [← hsame] at hevent hid
    exact ⟨k, List.mem_cons_of_mem i hk, compiled, hcompiled, hevent, hid⟩

/-- A call that has not begun has no answer. -/
theorem not_answers_of_called {i : ι} (h : session.stage i = .called) : ¬ session.Answers i := by
  rintro ⟨answer, hanswer⟩
  rw [h] at hanswer
  cases hanswer

/-! ## The order of the answers -/

variable [DecidableEq ι]

variable (calls) in
/-- The call that is answered when a call takes a step, if any. -/
def completion? (session : Session ι) (i : ι) : Option ι :=
  match session.stage i, (session.step calls i).stage i with
  | .answered _, _ => none
  | _, .answered _ => some i
  | _, _ => none

variable (calls) in
/-- The calls that are answered in the course of a schedule, in this order. -/
def completions (session : Session ι) : List ι → List ι
  | [] => []
  | i :: rest => (session.completion? calls i).toList ++ (session.step calls i).completions rest

theorem completions_append (earlier later : List ι) :
    session.completions calls (earlier ++ later) =
      session.completions calls earlier ++ (session.run calls earlier).completions calls later := by
  induction earlier generalizing session with
  | nil => rfl
  | cons i rest ih =>
    rw [List.cons_append, completions, completions, ih, List.append_assoc]
    rfl

/-- Calls hold their own rules after every step. -/
theorem HoldsDrafts.step (h : session.HoldsDrafts calls) (i : ι) :
    (session.step calls i).HoldsDrafts calls := by
  intro j compiled answer hheld
  by_cases hj : j = i
  · subst hj
    have hstep := session.advances_step calls j
    rw [hheld] at hstep
    generalize session.stage j = stage at hstep
    generalize (session.step calls j).store = store' at hstep
    cases hstep with
    | compiled hdraft hid hsound => exact ⟨_, _, hdraft, hid, hsound, rfl⟩
  · rw [session.stage_step_of_ne calls i hj] at hheld
    exact h j compiled answer hheld

/-- A step keeps what sessions and calls in turn have in common: the call that is answered, if there
is one, goes to the end of the order. -/
theorem IsSerial.step (h : session.IsSerial calls store order) (hdrafts : session.HoldsDrafts calls)
    (i : ι) :
    (session.step calls i).IsSerial calls store
      (order ++ (session.completion? calls i).toList) := by
  have hstep := session.advances_step calls i
  have hother : ∀ j, j ≠ i → (session.step calls i).stage j = session.stage j :=
    fun j hj => session.stage_step_of_ne calls i hj
  have hheld := hdrafts i
  have hcalled : session.stage i = .called → ¬ session.Answers i := not_answers_of_called
  unfold completion?
  generalize session.step calls i = next at hstep hother
  generalize hstage : session.stage i = stage at hstep hheld hcalled
  generalize hstage' : next.stage i = stage' at hstep
  generalize hstore : next.store = store' at hstep
  cases hstep with
  | idle answer =>
    rw [Option.toList_none, List.append_nil]
    refine h.unanswered (fun j answer' => ?_) (congrArg unversioned hstore)
    by_cases hj : j = i
    · rw [hj, hstage, hstage']
    · rw [hother j hj]
  | direct hdraft =>
    obtain ⟨hanswer, hrules⟩ := perform_unversioned h.rules_eq hdraft
    exact h.concat (hcalled rfl) hother hstage' hanswer
      ((congrArg unversioned hstore).trans hrules)
  | refused e hrefused =>
    have hturn := hrefused (inTurn calls store order)
    refine h.concat (hcalled rfl) hother hstage' (by rw [hturn]) ?_
    rw [hturn, hstore]
    exact h.rules_eq
  | compiled hdraft hid hsound =>
    rw [Option.toList_none, List.append_nil]
    refine h.unanswered (fun j answer' => ?_) (by rw [hstore]; rfl)
    by_cases hj : j = i
    · rw [hj, hstage, hstage']
      exact iff_of_false (fun heq => by cases heq) (fun heq => by cases heq)
    · rw [hother j hj]
  | inserted compiled answer =>
    obtain ⟨rule, version, hdraft, hid, hsound, rfl⟩ := hheld compiled answer rfl
    have hpending : ¬ session.Answers i := by
      rintro ⟨answer', hanswer'⟩
      rw [hstage] at hanswer'
      cases hanswer'
    obtain ⟨hanswer, hrules⟩ := perform_of_compiled h.rules_eq hdraft hid hsound version
    refine h.concat hpending hother hstage' (by rw [hanswer]) ?_
    rw [hstore]
    exact hrules

/-- What sessions and calls in turn have in common is kept throughout a schedule. -/
theorem IsSerial.run (h : session.IsSerial calls store order) (hdrafts : session.HoldsDrafts calls)
    (schedule : List ι) :
    (session.run calls schedule).IsSerial calls store
      (order ++ session.completions calls schedule) := by
  induction schedule generalizing session order with
  | nil =>
    rw [completions, List.append_nil]
    exact h
  | cons i rest ih =>
    rw [completions, ← List.append_assoc]
    exact ih (h.step hdrafts i) (hdrafts.step i)

theorem isSerial_run_start (store : Store) (calls : ι → Call) (schedule : List ι) :
    ((start store).run calls schedule).IsSerial calls store
      ((start store).completions calls schedule) :=
  isSerial_start.run (fun i compiled answer h => by cases h) schedule

/-! ## The main result -/

/-- A session agrees with its answered calls carried out one after the other in an order that fits
the schedule, and loses no rule. -/
structure Linearizes (calls : ι → Call) (store : Store) (schedule order : List ι) : Prop where
  isSerial : ((start store).run calls schedule).IsSerial calls store order
  /-- A call that was answered before another took its first step stands before it. -/
  before_of_called : ∀ earlier later i j, schedule = earlier ++ later →
    ((start store).run calls earlier).Answers i →
    ((start store).run calls earlier).stage j = .called → j ∈ order →
    ∃ front rest, order = front ++ rest ∧ i ∈ front ∧ j ∈ rest
  /-- A rule that was loaded is still there, or another that was loaded under its id, unless one of
  the calls after it has deleted the id. -/
  exists_loaded : ∀ before i after rule, order = before ++ i :: after →
    ((start store).run calls schedule).event? calls i = some (.loaded rule) →
    (∀ j ∈ after,
      ((start store).run calls schedule).event? calls j ≠ some (.deleted rule.id)) →
    ∃ k ∈ i :: after, ∃ compiled,
      ((start store).run calls schedule).store.get? rule.id = some compiled ∧
      ((start store).run calls schedule).event? calls k = some (.loaded compiled.rule) ∧
      compiled.rule.id = rule.id

/-- Calls that are under way at the same time come to what they come to one after the other, in an
order that fits the schedule; every call is answered that takes both its steps. The versions handed
out are all different, and the compiler has counted them. -/
theorem session_linearizes (calls : ι → Call) (store : Store) (schedule : List ι) :
    (∃ order, Linearizes calls store schedule order) ∧
      (∀ i, 2 ≤ schedule.count i → ((start store).run calls schedule).Answers i) ∧
      ((start store).issued calls schedule).Nodup ∧
      (∀ version ∈ (start store).issued calls schedule, store.compiler.version < version) ∧
      ((start store).run calls schedule).store.compiler.version =
        store.compiler.version + ((start store).issued calls schedule).length := by
  obtain ⟨hrange, hversion⟩ := (start store).issued_eq_range calls schedule
  have hserial := isSerial_run_start store calls schedule
  refine ⟨⟨(start store).completions calls schedule, hserial, ?_, ?_⟩,
    fun i => (start store).answers_of_two_le_count calls i schedule, ?_, ?_, hversion⟩
  · intro earlier later i j hschedule hanswers hcalled hmem
    have hearlier := isSerial_run_start store calls earlier
    rw [hschedule, completions_append] at hmem ⊢
    refine ⟨_, _, rfl, (hearlier.mem_iff i).mpr hanswers, ?_⟩
    have hnew : j ∉ (start store).completions calls earlier :=
      fun hold => not_answers_of_called hcalled ((hearlier.mem_iff j).mp hold)
    exact (List.mem_append.mp hmem).resolve_left hnew
  · intro before i after rule hsplit hloaded hkept
    exact hserial.exists_loaded hsplit hloaded hkept
  · rw [hrange]
    exact List.nodup_range'
  · intro version hmem
    rw [hrange, List.mem_range'_1] at hmem
    exact hmem.1

end Session

end PostfixRules.Store
