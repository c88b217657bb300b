import Mathlib.Data.List.Nodup
import Mathlib.Data.List.Range
import Mathlib.Logic.Function.Basic
import PostfixRules.Proofs.Store.Run

/-!
# Calls at the same time

The handles to a store may be used at the same time. A call that loads a rule takes two steps: the
compiler checks the rule and gives it a number, and then the rule is put under its id. Between them
other calls may take steps of their own. A call of another kind, and one whose rule is refused, is
answered in one step. Each successful check takes the next number, whichever call asks for it, so no
number is handed out twice.
-/

namespace PostfixRules

/-- A compiled rule without regard to its version. -/
def CompiledRule.unversioned (compiled : CompiledRule) : CompiledRule :=
  { compiled with version := 0 }

namespace Store

/-- An answer without regard to versions. -/
def Answer.unversioned : Answer → Answer
  | .found compiled => .found (compiled.map CompiledRule.unversioned)
  | answer => answer

/-- The rules of a store by id, without regard to versions. -/
def unversioned (store : Store) : List (String × CompiledRule) :=
  store.entries.map (Prod.map id CompiledRule.unversioned)

theorem get?_unversioned (store : Store) (id : String) :
    store.unversioned.lookup id = (store.get? id).map CompiledRule.unversioned :=
  Keyed.lookup_map _ id store.entries

/-- Apart from versions, stores with the same rules have the same rule under every id. -/
theorem map_get?_of_unversioned {store other : Store} (h : store.unversioned = other.unversioned)
    (id : String) : (store.get? id).map CompiledRule.unversioned =
      (other.get? id).map CompiledRule.unversioned := by
  rw [← get?_unversioned, h, get?_unversioned]

theorem unversioned_insert (store : Store) (compiled : CompiledRule) :
    (store.insert compiled).unversioned =
      Keyed.put compiled.rule.id compiled.unversioned store.unversioned :=
  Keyed.map_put _ compiled.rule.id compiled store.entries

/-! ## Calls and their steps -/

/-- What may be asked of a store at any time. -/
inductive Call where
  | create (id : String) (now : Timestamp) (name description text : String)
  | load (rule : Rule)
  | loadText (now : Timestamp) (document : String)
  | delete (id : String)
  | get (id : String)
  | contains (id : String)

namespace Call

/-- The operation that a call is when nothing comes between its steps. -/
def operation : Call → Operation
  | .create id now name description text => .create id now name description text
  | .load rule => .load rule
  | .loadText now document => .loadText now document
  | .delete id => .delete id
  | .get id => .get id
  | .contains id => .contains id

/-- The rule that a call is to load, with what is answered once it is loaded, or why there is no
such rule. Calls of other kinds load nothing. -/
def draft? : Call → Option (Except RuleError (Rule × Answer))
  | .create id now name description text =>
    some ((parse text).map fun expr =>
      (Rule.create id now name description expr, .rule (Rule.create id now name description expr)))
  | .load rule => some (.ok (rule, .done))
  | .loadText now document =>
    match Rule.ofText now document with
    | .error fault => some (.error (.json fault))
    | .ok rule => some (.ok (rule, .id rule.id))
  | .delete _ | .get _ | .contains _ => none

/-- A call that loads nothing only asks for an id or deletes it. -/
theorem exists_id_of_draft? {call : Call} (h : call.draft? = none) :
    ∃ id, call = .delete id ∨ call = .get id ∨ call = .contains id := by
  cases call with
  | create | load => cases h
  | loadText now document =>
    rw [draft?] at h
    split at h <;> cases h
  | delete id => exact ⟨id, .inl rfl⟩
  | get id => exact ⟨id, .inr (.inl rfl)⟩
  | contains id => exact ⟨id, .inr (.inr rfl)⟩

end Call

/-- How far a call has come. -/
inductive Stage where
  | called
  /-- The rule has been compiled but not yet put under its id. -/
  | compiled (compiled : CompiledRule) (answer : Answer)
  | answered (answer : Except RuleError Answer)

/-- How many steps a call may still have to take. -/
def Stage.remaining : Stage → Nat
  | .called => 2
  | .compiled _ _ => 1
  | .answered _ => 0

/-- The first step of a call that loads a rule. A rule that is refused ends the call. -/
def compileDraft (store : Store) : Except RuleError (Rule × Answer) → Stage × Store
  | .error e => (.answered (.error e), store)
  | .ok (rule, answer) =>
    match store.compile rule with
    | (.error e, store) => (.answered (.error e), store)
    | (.ok compiled, store) => (.compiled compiled answer, store)

/-- Both steps of a call that loads a rule, with nothing between them. -/
def loadDraft (store : Store) : Except RuleError (Rule × Answer) → Except RuleError Answer × Store
  | .error e => (.error e, store)
  | .ok (rule, answer) =>
    match store.load rule with
    | (.error e, store) => (.error e, store)
    | (.ok (), store) => (.ok answer, store)

/-- The next step of a call. A call that has been answered takes no more steps. -/
def advance (store : Store) (call : Call) : Stage → Stage × Store
  | .called =>
    match call.draft? with
    | some draft => store.compileDraft draft
    | none =>
      let (answer, store) := store.perform call.operation
      (.answered answer, store)
  | .compiled compiled answer => (.answered (.ok answer), store.insert compiled)
  | .answered answer => (.answered answer, store)

/-! ## What one step does -/

/-- Whether a rule compiles, and with what error it is refused, does not depend on the rules
compiled before. -/
theorem compile_cases (store : Store) (rule : Rule) :
    (rule.id ≠ "" ∧ rule.expr.IsSound ∧ store.compile rule =
      (.ok (store.compiledNext rule), ⟨store.entries, ⟨store.compiler.version + 1⟩⟩)) ∨
    ∃ e, ∀ other : Store, other.compile rule = (.error e, other) := by
  by_cases hrule : rule.id ≠ "" ∧ rule.expr.IsSound
  · refine .inl ⟨hrule.1, hrule.2, ?_⟩
    simp only [compile, Compiler.compile_eq_ok hrule.1 hrule.2, compiledNext]
  · obtain ⟨e, he⟩ := @Compiler.exists_compile_eq_error store.compiler rule hrule
    refine .inr ⟨e, fun other => ?_⟩
    have hother : other.compiler.compile rule = .error e := by
      rw [Compiler.compile] at he ⊢
      split_ifs at he ⊢ with hid
      · exact he
      · cases hvalid : validate rule.expr rootPath with
        | error e' => rw [hvalid] at he; exact he
        | ok u => rw [hvalid] at he; cases he
    simp only [compile, hother]

/-- When nothing comes between its steps, a call that loads a rule is the operation. -/
theorem perform_of_draft? (store : Store) {call : Call}
    {draft : Except RuleError (Rule × Answer)} (hdraft : call.draft? = some draft) :
    store.perform call.operation = store.loadDraft draft := by
  cases call with
  | create id now name description text =>
    cases hdraft
    rw [Call.operation, perform, create]
    cases parse text with
    | error e => rfl
    | ok expr =>
      dsimp only [loadDraft, Except.map]
      cases store.load (Rule.create id now name description expr) with
      | mk result store' => cases result <;> rfl
  | load rule =>
    cases hdraft
    rw [Call.operation, perform, loadDraft]
    cases store.load rule with
    | mk result store' => cases result <;> rfl
  | loadText now document =>
    rw [Call.draft?] at hdraft
    rw [Call.operation, perform, loadText]
    cases hrule : Rule.ofText now document with
    | error fault =>
      rw [hrule] at hdraft
      cases hdraft
      rfl
    | ok rule =>
      rw [hrule] at hdraft
      cases hdraft
      dsimp only [loadDraft]
      cases store.load rule with
      | mk result store' => cases result <;> rfl
  | delete id => cases hdraft
  | get id => cases hdraft
  | contains id => cases hdraft

/-- What a step may do to a call and to the store. -/
inductive Advances (store : Store) (call : Call) : Stage → Stage → Store → Prop where
  /-- The call had been answered before. -/
  | idle (answer : Except RuleError Answer) :
    Advances store call (.answered answer) (.answered answer) store
  /-- The call loads nothing and is carried out at once. -/
  | direct (hdraft : call.draft? = none) :
    Advances store call .called (.answered (store.perform call.operation).1)
      (store.perform call.operation).2
  /-- The call would be refused at any time. -/
  | refused (e : RuleError) (hrefused : ∀ other : Store,
      other.perform call.operation = (.error e, other)) :
    Advances store call .called (.answered (.error e)) store
  | compiled {rule : Rule} {answer : Answer} (hdraft : call.draft? = some (.ok (rule, answer)))
    (hid : rule.id ≠ "") (hsound : rule.expr.IsSound) :
    Advances store call .called (.compiled (store.compiledNext rule) answer)
      ⟨store.entries, ⟨store.compiler.version + 1⟩⟩
  | inserted (compiled : CompiledRule) (answer : Answer) :
    Advances store call (.compiled compiled answer) (.answered (.ok answer))
      (store.insert compiled)

/-- Every step brings a call closer to its answer. -/
theorem Advances.remaining_le {store store' : Store} {call : Call} {stage stage' : Stage}
    (h : Advances store call stage stage' store') :
    stage'.remaining ≤ stage.remaining - 1 := by
  cases h with
  | idle | direct | refused | compiled | inserted => simp [Stage.remaining]

theorem advances (store : Store) (call : Call) (stage : Stage) :
    Advances store call stage (store.advance call stage).1 (store.advance call stage).2 := by
  cases stage with
  | answered answer => exact .idle answer
  | compiled compiled answer => exact .inserted compiled answer
  | called =>
    rw [advance]
    cases hdraft : call.draft? with
    | none => exact .direct hdraft
    | some draft =>
      cases draft with
      | error e => exact .refused e fun other => other.perform_of_draft? hdraft
      | ok loaded =>
        obtain ⟨rule, answer⟩ := loaded
        dsimp only [compileDraft]
        rcases store.compile_cases rule with ⟨hid, hsound, hcompile⟩ | ⟨e, hcompile⟩
        · rw [hcompile]
          exact .compiled hdraft hid hsound
        · rw [hcompile store]
          refine .refused e fun other => ?_
          simp only [other.perform_of_draft? hdraft, loadDraft, load, hcompile other]

/-- A store in use by calls, each with the stage it has come to. -/
structure Session (ι : Type) where
  store : Store
  stage : ι → Stage

namespace Session

variable {ι : Type}

/-- A session in which no call has taken a step. -/
def start (store : Store) : Session ι :=
  ⟨store, fun _ => .called⟩

/-- Whether a call has been answered. -/
def Answers (session : Session ι) (i : ι) : Prop :=
  ∃ answer, session.stage i = .answered answer

variable [DecidableEq ι] (calls : ι → Call)

/-- Let one call take its next step. -/
def step (session : Session ι) (i : ι) : Session ι :=
  let (stage, store) := session.store.advance (calls i) (session.stage i)
  ⟨store, Function.update session.stage i stage⟩

/-- Let calls take steps in the order of a schedule. -/
def run (session : Session ι) (schedule : List ι) : Session ι :=
  schedule.foldl (step calls) session

/-- The version that a call is given at its next step, if that compiles a rule. -/
def issue? (session : Session ι) (i : ι) : Option Nat :=
  match session.stage i, (session.step calls i).stage i with
  | .called, .compiled compiled _ => some compiled.version
  | _, _ => none

/-- The versions given to calls in the course of a schedule, one for each rule compiled. -/
def issued (session : Session ι) : List ι → List Nat
  | [] => []
  | i :: rest => (session.issue? calls i).toList ++ (session.step calls i).issued rest

variable (session : Session ι) (i : ι)

theorem advances_step : Advances session.store (calls i) (session.stage i)
    ((session.step calls i).stage i) (session.step calls i).store := by
  have hstage : (session.step calls i).stage i =
      (session.store.advance (calls i) (session.stage i)).1 := Function.update_self i _ _
  rw [hstage]
  exact session.store.advances (calls i) (session.stage i)

/-- A step of one call leaves the others where they are. -/
theorem stage_step_of_ne {other : ι} (h : other ≠ i) :
    (session.step calls i).stage other = session.stage other :=
  Function.update_of_ne h _ _

/-- Every step of its own brings a call closer to its answer, and no step of another takes it
back. -/
theorem remaining_run_le (schedule : List ι) :
    ((session.run calls schedule).stage i).remaining ≤
      (session.stage i).remaining - schedule.count i := by
  induction schedule generalizing session with
  | nil => exact Nat.le_refl _
  | cons j rest ih =>
    have hrest := ih (session.step calls j)
    rw [run, List.foldl_cons, ← run, List.count_cons]
    by_cases hj : j = i
    · subst hj
      have hstep := (session.advances_step calls j).remaining_le
      rw [if_pos (beq_self_eq_true j)]
      omega
    · rw [session.stage_step_of_ne calls j (Ne.symm hj)] at hrest
      rw [if_neg (by simpa using hj)]
      exact hrest

/-- A call is answered after two steps of its own. -/
theorem answers_of_two_le_count (schedule : List ι) (h : 2 ≤ schedule.count i) :
    (session.run calls schedule).Answers i := by
  have hremaining := session.remaining_run_le calls i schedule
  have htwo : (session.stage i).remaining ≤ 2 := by
    cases session.stage i <;> simp [Stage.remaining]
  cases hstage : (session.run calls schedule).stage i with
  | answered answer => exact ⟨answer, hstage⟩
  | called | compiled =>
    rw [hstage, Stage.remaining] at hremaining
    omega

/-! ## Versions -/

/-- A step compiles a rule and hands out the next version, or leaves the compiler alone. -/
theorem issue_cases :
    (session.issue? calls i = some (session.store.compiler.version + 1) ∧
      (session.step calls i).store.compiler.version = session.store.compiler.version + 1) ∨
    (session.issue? calls i = none ∧
      (session.step calls i).store.compiler = session.store.compiler) := by
  have hstep := session.advances_step calls i
  unfold issue?
  generalize session.stage i = stage at hstep
  generalize (session.step calls i).stage i = stage' at hstep
  generalize (session.step calls i).store = store' at hstep
  cases hstep with
  | idle answer => exact .inr ⟨rfl, rfl⟩
  | refused e hrefused => exact .inr ⟨rfl, rfl⟩
  | compiled hdraft hid hsound => exact .inl ⟨rfl, rfl⟩
  | inserted compiled answer => exact .inr ⟨rfl, rfl⟩
  | direct hdraft =>
    refine .inr ⟨rfl, ?_⟩
    have hchange := session.store.change_perform (calls i).operation
    obtain ⟨id, hcall | hcall | hcall⟩ := Call.exists_id_of_draft? hdraft
    all_goals
      rw [hcall] at hchange ⊢
      exact hchange.compiler_eq

/-- The versions handed out follow each other, and the compiler has counted them. -/
theorem issued_eq_range (schedule : List ι) :
    session.issued calls schedule = List.range' (session.store.compiler.version + 1)
      (session.issued calls schedule).length ∧
    (session.run calls schedule).store.compiler.version =
      session.store.compiler.version + (session.issued calls schedule).length := by
  induction schedule generalizing session with
  | nil => exact ⟨rfl, rfl⟩
  | cons i rest ih =>
    obtain ⟨hrange, hversion⟩ := ih (session.step calls i)
    rw [run, List.foldl_cons, ← run, hversion, issued]
    rcases session.issue_cases calls i with ⟨hissue, hstep⟩ | ⟨hissue, hstep⟩
    · rw [hissue, hstep, Option.toList_some, List.singleton_append, List.length_cons,
        List.range'_succ]
      rw [hstep] at hrange
      exact ⟨congrArg _ hrange, by omega⟩
    · rw [hissue, hstep, Option.toList_none, List.nil_append]
      rw [hstep] at hrange
      exact ⟨hrange, rfl⟩

end Session

end Store

end PostfixRules
