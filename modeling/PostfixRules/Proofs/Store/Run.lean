import PostfixRules.Proofs.Store

/-!
# Runs of a store

A store is used by one operation after the other. Handles to a store share its state, so a run is
the sequence of all operations, whichever handle they came through. Only four things ever happen to
a store: a sound rule is loaded, an entry is taken out, all entries are taken out, or nothing. Which
of them it is can be told from the operation and its answer.
-/

namespace PostfixRules.Store

/-- What a store can be asked to do. The operations after `clear` only read. -/
inductive Operation where
  | create (id : String) (now : Timestamp) (name description text : String)
  | load (rule : Rule)
  | loadText (now : Timestamp) (document : String)
  | delete (id : String)
  | clear
  | get (id : String)
  | contains (id : String)
  | list
  | combine (ids : List String)
  | stats
  | size
  | isEmpty

/-- What a store tells when an operation succeeds. -/
inductive Answer where
  | done
  | rule (rule : Rule)
  | id (id : String)
  | found (compiled : Option CompiledRule)
  | rules (rules : List Rule)
  | expr (expr : Expr)
  | stats (stats : Stats)
  | count (number : Nat)
  | truth (value : Bool)

/-- Carry out an operation. -/
def perform (store : Store) : Operation → Except RuleError Answer × Store
  | .create id now name description text =>
    let (result, store) := store.create id now name description text
    (result.map .rule, store)
  | .load rule =>
    let (result, store) := store.load rule
    (result.map fun _ => .done, store)
  | .loadText now document =>
    let (result, store) := store.loadText now document
    (result.map .id, store)
  | .delete id =>
    let (result, store) := store.delete id
    (result.map fun _ => .done, store)
  | .clear => (.ok .done, store.clear)
  | .get id => (.ok (.found (store.get? id)), store)
  | .contains id => (.ok (.truth (store.contains id)), store)
  | .list => (.ok (.rules store.list), store)
  | .combine ids => ((store.combine ids).map .expr, store)
  | .stats => (.ok (.stats store.stats), store)
  | .size => (.ok (.count store.size), store)
  | .isEmpty => (.ok (.truth store.isEmpty), store)

/-- The store after a run of operations. -/
def run (store : Store) (operations : List Operation) : Store :=
  operations.foldl (fun store operation => (store.perform operation).2) store

/-- The id under which an operation with this answer has loaded a rule: creating a rule, loading a
rule and loading a document do so exactly if they succeed, and nothing else does. -/
def Operation.loadedId? : Operation → Except RuleError Answer → Option String
  | .create id _ _ _ _, .ok _ => some id
  | .load rule, .ok _ => some rule.id
  | .loadText _ _, .ok (.id id) => some id
  | _, _ => none

/-- The ids under which a run has loaded rules, in the order of loading. -/
def loadedIds (store : Store) : List Operation → List String
  | [] => []
  | operation :: rest =>
    (operation.loadedId? (store.perform operation).1).toList ++
      (store.perform operation).2.loadedIds rest

/-- What may happen to a store. -/
inductive Event where
  | loaded (rule : Rule)
  | deleted (id : String)
  | cleared

/-- The id under which an event has loaded a rule. -/
def Event.loadedId? : Event → Option String
  | .loaded rule => some rule.id
  | .deleted _ | .cleared => none

/-- What an operation with this answer has made happen, if anything. -/
def Operation.event? : Operation → Except RuleError Answer → Option Event
  | .create _ _ _ _ _, .ok (.rule rule) => some (.loaded rule)
  | .load rule, .ok _ => some (.loaded rule)
  | .loadText now document, .ok _ => (Rule.ofText now document).toOption.map .loaded
  | .delete id, .ok _ => some (.deleted id)
  | .clear, .ok _ => some .cleared
  | _, _ => none

/-- The store after an event. -/
def after (store : Store) : Event → Store
  | .loaded rule => store.afterLoad rule
  | .deleted id => { store with entries := Keyed.erase id store.entries }
  | .cleared => store.clear

/-- What an event explains of an operation that led from one store to another: the rule that it has
loaded is sound and has an id, its answer tells that id, and the store has changed accordingly. -/
structure Explains (event : Option Event) (store : Store) (loaded : Option String)
    (store' : Store) : Prop where
  sound : ∀ rule, event = some (.loaded rule) → rule.id ≠ "" ∧ rule.expr.IsSound
  loaded_eq : loaded = event.bind Event.loadedId?
  store_eq : store' = event.elim store store.after

theorem explains_loaded (store : Store) {rule : Rule} (hid : rule.id ≠ "")
    (hsound : rule.expr.IsSound) :
    Explains (some (.loaded rule)) store (some rule.id) (store.afterLoad rule) where
  sound := by
    intro rule' h
    cases h
    exact ⟨hid, hsound⟩
  loaded_eq := rfl
  store_eq := rfl

/-- Any other event, and the lack of one, explains what it does to the store. -/
theorem explains_unloaded (store : Store) (event : Option Event)
    (h : event.bind Event.loadedId? = none) :
    Explains event store none (event.elim store store.after) where
  sound := by
    rintro rule rfl
    cases h
  loaded_eq := h.symm
  store_eq := rfl

/-- What an operation has made happen explains all that it has done. -/
theorem explains_perform (store : Store) (operation : Operation) :
    Explains (operation.event? (store.perform operation).1) store
      (operation.loadedId? (store.perform operation).1) (store.perform operation).2 := by
  cases operation with
  | create id now name description text =>
    rcases store.create_cases id now name description text with
      ⟨rule, rfl, hid, hsound, h⟩ | ⟨e, h⟩
    · rw [perform, h]
      exact store.explains_loaded hid hsound
    · rw [perform, h]
      exact store.explains_unloaded none rfl
  | load rule =>
    rcases store.load_cases rule with ⟨hid, hsound, h⟩ | ⟨e, h⟩
    · rw [perform, h]
      exact store.explains_loaded hid hsound
    · rw [perform, h]
      exact store.explains_unloaded none rfl
  | loadText now document =>
    rcases store.loadText_cases now document with ⟨rule, hrule, hid, hsound, h⟩ | ⟨e, h⟩
    · have hevent : Operation.event? (.loadText now document) (.ok (.id rule.id)) =
          some (.loaded rule) := by
        rw [Operation.event?, hrule]
        rfl
      rw [perform, h]
      change Explains (Operation.event? _ (.ok (.id rule.id))) _ _ _
      rw [hevent]
      exact store.explains_loaded hid hsound
    · rw [perform, h]
      exact store.explains_unloaded none rfl
  | delete id =>
    rw [perform, delete]
    cases store.contains id with
    | true => exact store.explains_unloaded (some (.deleted id)) rfl
    | false => exact store.explains_unloaded none rfl
  | clear => exact store.explains_unloaded (some .cleared) rfl
  | combine ids =>
    rw [perform]
    cases store.combine ids <;> exact store.explains_unloaded none rfl
  | get id => exact store.explains_unloaded none rfl
  | contains id => exact store.explains_unloaded none rfl
  | list => exact store.explains_unloaded none rfl
  | stats => exact store.explains_unloaded none rfl
  | size => exact store.explains_unloaded none rfl
  | isEmpty => exact store.explains_unloaded none rfl

/-- What an operation may do to a store, with the id under which it has loaded a rule, if any. -/
inductive Change (store : Store) : Option String → Store → Prop where
  | loaded {rule : Rule} (hid : rule.id ≠ "") (hsound : rule.expr.IsSound) :
    Change store (some rule.id) (store.afterLoad rule)
  | deleted (id : String) :
    Change store none { store with entries := Keyed.erase id store.entries }
  | cleared : Change store none store.clear
  | unchanged : Change store none store

/-- When a rule has been loaded under an id, it is found there with the next version. -/
theorem Change.exists_get? {store store' : Store} {id : String}
    (h : store.Change (some id) store') : ∃ compiled, store'.get? id = some compiled ∧
      compiled.version = store.compiler.version + 1 := by
  cases h with
  | @loaded rule _ _ => exact ⟨_, store.get?_afterLoad rule, rfl⟩

/-- Nothing but loading a rule has to do with the compiler. -/
theorem Change.compiler_eq {store store' : Store} (h : store.Change none store') :
    store'.compiler = store.compiler := by
  cases h <;> rfl

/-- Every operation does one of the four things, and it loads a rule exactly if its answer says so.
-/
theorem change_perform (store : Store) (operation : Operation) :
    store.Change (operation.loadedId? (store.perform operation).1)
      (store.perform operation).2 := by
  obtain ⟨hsound, hloaded, hstore⟩ := store.explains_perform operation
  rw [hloaded, hstore]
  cases hevent : operation.event? (store.perform operation).1 with
  | none => exact .unchanged
  | some event =>
    cases event with
    | loaded rule => exact .loaded (hsound rule hevent).1 (hsound rule hevent).2
    | deleted id => exact .deleted id
    | cleared => exact .cleared

end PostfixRules.Store
