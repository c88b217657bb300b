/-!
# Outcomes

An outcome is a value or an error. Mapping an outcome keeps its error, and what follows an outcome
has a value only if the outcome has. Going through a list, one outcome after the other, gives all
values if there is no error and otherwise the first error, which is that of a single step. The same
holds of the conjunction of a list of verdicts.
-/

namespace PostfixRules.Outcome

variable {ε α β : Type}

theorem map_eq_error_iff {f : α → β} {x : Except ε α} {e : ε} :
    x.map f = .error e ↔ x = .error e := by
  cases x <;> simp [Except.map]

theorem map_eq_ok_iff {f : α → β} {x : Except ε α} {b : β} :
    x.map f = .ok b ↔ ∃ a, x = .ok a ∧ f a = b := by
  cases x <;> simp [Except.map]

/-- Mapping an outcome gives a value where there is one. -/
theorem exists_map_eq_ok_iff {f : α → β} {x : Except ε α} :
    (∃ b, x.map f = .ok b) ↔ ∃ a, x = .ok a := by
  cases x <;> simp [Except.map]

variable {f : α → Except ε β}

theorem bind_eq_ok_iff {x : Except ε α} {b : β} :
    x.bind f = .ok b ↔ ∃ a, x = .ok a ∧ f a = .ok b := by
  cases x <;> simp [Except.bind]

/-- A second step fails on its own, or there was nothing for it to go on. -/
theorem bind_eq_error_iff {x : Except ε α} {e : ε} :
    x.bind f = .error e ↔ x = .error e ∨ ∃ a, x = .ok a ∧ f a = .error e := by
  cases x <;> simp [Except.bind]

/-- Two outcomes that end in the same error, or both in a value. -/
def FailsAlike {γ : Type} (x : Except ε α) (y : Except ε γ) : Prop :=
  ∀ e, x = .error e ↔ y = .error e

theorem FailsAlike.exists_ok_iff {γ : Type} {x : Except ε α} {y : Except ε γ}
    (h : FailsAlike x y) : (∃ a, x = .ok a) ↔ ∃ c, y = .ok c := by
  have hiff (e : ε) := h e
  cases x <;> cases y <;> simp_all

/-- Two steps of which neither depends on the value of the other fail as their parts do. -/
theorem FailsAlike.bind_map {α' β' γ γ' : Type} {x : Except ε α} {x' : Except ε α'}
    {y : Except ε β} {y' : Except ε β'} (hx : FailsAlike x x') (hy : FailsAlike y y')
    (join : α → β → γ) (join' : α' → β' → γ') :
    FailsAlike (x.bind fun a => y.map (join a)) (x'.bind fun a => y'.map (join' a)) := by
  intro e
  cases x with
  | error e' =>
    rw [(hx e').mp rfl]
    simp [Except.bind]
  | ok a =>
    cases x' with
    | error e' => cases (hx e').mpr rfl
    | ok a' =>
      simp only [Except.bind, map_eq_error_iff]
      exact hy e

theorem mapM_cons_of_error {x : α} {xs : List α} {e : ε} (hx : f x = .error e) :
    (x :: xs).mapM f = .error e := by
  rw [List.mapM_cons, hx]
  rfl

theorem mapM_cons_of_ok {x : α} {xs : List α} {y : β} (hx : f x = .ok y) :
    (x :: xs).mapM f = (xs.mapM f).map (y :: ·) := by
  rw [List.mapM_cons, hx]
  cases xs.mapM f <;> rfl

/-- Going through two lists is going through the one and then through the other. -/
theorem mapM_append {xs ys : List α} :
    (xs ++ ys).mapM f = (xs.mapM f).bind fun as => (ys.mapM f).map (as ++ ·) := by
  rw [List.mapM_append]
  cases xs.mapM f with
  | error e => rfl
  | ok as => cases ys.mapM f <;> rfl

/-- A list is gone through to its end exactly if there is a value for each of its members. -/
theorem mapM_eq_ok_iff {xs : List α} {ys : List β} :
    xs.mapM f = .ok ys ↔ xs.map f = ys.map .ok := by
  induction xs generalizing ys with
  | nil =>
    rw [List.mapM_nil, List.map_nil]
    cases ys with
    | nil => exact iff_of_true rfl rfl
    | cons y ys => exact iff_of_false (fun h => by cases h) (fun h => by cases h)
  | cons x xs ih =>
    rw [List.map_cons]
    cases hx : f x with
    | error e =>
      rw [mapM_cons_of_error hx]
      cases ys <;> simp
    | ok y =>
      rw [mapM_cons_of_ok hx, map_eq_ok_iff]
      cases ys with
      | nil => simp
      | cons y' ys =>
        rw [List.map_cons, List.cons.injEq, Except.ok.injEq]
        constructor
        · rintro ⟨zs, hzs, heq⟩
          cases heq
          exact ⟨rfl, ih.mp hzs⟩
        · rintro ⟨rfl, hys⟩
          exact ⟨ys, ih.mpr hys, rfl⟩

/-- The first error of a list is the error of going through it. -/
theorem mapM_eq_error_of_first {before after : List α} {failing : α} {e : ε}
    (hbefore : ∀ x ∈ before, ∃ y, f x = .ok y) (hfailing : f failing = .error e) :
    (before ++ failing :: after).mapM f = .error e := by
  induction before with
  | nil => exact mapM_cons_of_error hfailing
  | cons x before ih =>
    obtain ⟨y, hx⟩ := hbefore x List.mem_cons_self
    have hrest := ih fun z hz => hbefore z (List.mem_cons_of_mem x hz)
    rw [List.cons_append, mapM_cons_of_ok hx, hrest]
    rfl

/-- Going through a list ends in the first error of its members. -/
theorem mapM_eq_error_iff {xs : List α} {e : ε} :
    xs.mapM f = .error e ↔ ∃ before failing after, xs = before ++ failing :: after ∧
      (∀ x ∈ before, ∃ y, f x = .ok y) ∧ f failing = .error e := by
  constructor
  · intro h
    induction xs with
    | nil => cases h
    | cons x rest ih =>
      cases hx : f x with
      | error e' =>
        rw [mapM_cons_of_error hx] at h
        cases h
        exact ⟨[], x, rest, rfl, List.forall_mem_nil _, hx⟩
      | ok y =>
        rw [mapM_cons_of_ok hx] at h
        obtain ⟨before, failing, after, rfl, hbefore, hfailing⟩ := ih (map_eq_error_iff.mp h)
        refine ⟨x :: before, failing, after, rfl, ?_, hfailing⟩
        intro z hz
        rcases List.mem_cons.mp hz with rfl | hz
        · exact ⟨y, hx⟩
        · exact hbefore z hz
  · rintro ⟨before, failing, after, rfl, hbefore, hfailing⟩
    exact mapM_eq_error_of_first hbefore hfailing

/-- Going through a list ends in the error of one of its members. -/
theorem exists_of_mapM_eq_error {xs : List α} {e : ε} (h : xs.mapM f = .error e) :
    ∃ x ∈ xs, f x = .error e := by
  obtain ⟨before, failing, after, rfl, -, hfailing⟩ := mapM_eq_error_iff.mp h
  exact ⟨failing, List.mem_append_right before List.mem_cons_self, hfailing⟩

/-- The values of the members are the values of going through the list. -/
theorem mem_iff_of_mapM_eq_ok {xs : List α} {ys : List β} (h : xs.mapM f = .ok ys) {y : β} :
    y ∈ ys ↔ ∃ x ∈ xs, f x = .ok y := by
  have hmem : Except.ok y ∈ ys.map (Except.ok (ε := ε)) ↔ y ∈ ys := by simp
  rw [← hmem, ← mapM_eq_ok_iff.mp h, List.mem_map]

/-- If a list is gone through to its end, there is a value for each of its members. -/
theorem exists_of_mapM_eq_ok {xs : List α} {ys : List β} (h : xs.mapM f = .ok ys) {x : α}
    (hx : x ∈ xs) : ∃ y, f x = .ok y := by
  have hmem : f x ∈ ys.map .ok := mapM_eq_ok_iff.mp h ▸ List.mem_map_of_mem hx
  obtain ⟨y, -, hy⟩ := List.mem_map.mp hmem
  exact ⟨y, hy.symm⟩

/-- If there is a value for each of its members, a list is gone through to its end. -/
theorem exists_mapM_eq_ok {xs : List α} (h : ∀ x ∈ xs, ∃ y, f x = .ok y) :
    ∃ ys, xs.mapM f = .ok ys := by
  cases hxs : xs.mapM f with
  | ok ys => exact ⟨ys, rfl⟩
  | error e =>
    obtain ⟨x, hx, he⟩ := exists_of_mapM_eq_error hxs
    obtain ⟨y, hy⟩ := h x hx
    rw [he] at hy
    cases hy

/-- Going through the values of a list is going through the list with both steps. -/
theorem mapM_of_mapM_eq_ok {γ : Type} {g : β → Except ε γ} {xs : List α} {ys : List β}
    (h : xs.mapM f = .ok ys) : ys.mapM g = xs.mapM fun x => (f x).bind g := by
  induction xs generalizing ys with
  | nil =>
    cases h
    rfl
  | cons x rest ih =>
    cases hx : f x with
    | error e =>
      rw [mapM_cons_of_error hx] at h
      cases h
    | ok y =>
      rw [mapM_cons_of_ok hx] at h
      obtain ⟨ys, hrest, rfl⟩ := map_eq_ok_iff.mp h
      rw [List.mapM_cons, List.mapM_cons, ih hrest, hx]
      rfl

/-- All of several verdicts hold if each of them does. -/
theorem map_all_eq_true_iff {f : α → Except ε Bool} {xs : List α} :
    (xs.mapM f).map (List.all · id) = .ok true ↔ ∀ x ∈ xs, f x = .ok true := by
  rw [map_eq_ok_iff]
  constructor
  · rintro ⟨verdicts, hverdicts, hall⟩ x hx
    obtain ⟨verdict, hverdict⟩ := exists_of_mapM_eq_ok hverdicts hx
    have hmem := (mem_iff_of_mapM_eq_ok hverdicts).mpr ⟨x, hx, hverdict⟩
    have htrue : verdict = true := List.all_eq_true.mp hall verdict hmem
    rw [hverdict, htrue]
  · intro h
    obtain ⟨verdicts, hverdicts⟩ := exists_mapM_eq_ok fun x hx => ⟨true, h x hx⟩
    refine ⟨verdicts, hverdicts, List.all_eq_true.mpr ?_⟩
    intro verdict hmem
    obtain ⟨x, hx, hverdict⟩ := (mem_iff_of_mapM_eq_ok hverdicts).mp hmem
    rw [h x hx] at hverdict
    exact (Except.ok.inj hverdict).symm

/-- Some of several verdicts does not hold, if all are there and one of them does not. -/
theorem map_all_eq_false_iff {f : α → Except ε Bool} {xs : List α} :
    (xs.mapM f).map (List.all · id) = .ok false ↔
      (∀ x ∈ xs, ∃ verdict, f x = .ok verdict) ∧ ∃ x ∈ xs, f x = .ok false := by
  rw [map_eq_ok_iff]
  constructor
  · rintro ⟨verdicts, hverdicts, hall⟩
    obtain ⟨verdict, hmem, hfalse⟩ := List.all_eq_false.mp hall
    rw [id, Bool.not_eq_true] at hfalse
    subst hfalse
    exact ⟨fun x hx => exists_of_mapM_eq_ok hverdicts hx,
      (mem_iff_of_mapM_eq_ok hverdicts).mp hmem⟩
  · rintro ⟨h, hfalse⟩
    obtain ⟨verdicts, hverdicts⟩ := exists_mapM_eq_ok h
    exact ⟨verdicts, hverdicts, List.all_eq_false.mpr
      ⟨false, (mem_iff_of_mapM_eq_ok hverdicts).mpr hfalse, Bool.false_ne_true⟩⟩

/-- Taking the members of a list one after the other ends in the error of one step. -/
theorem exists_of_foldlM_eq_error {σ : Type} {step : σ → α → Except ε σ} {s : σ} {xs : List α}
    {e : ε} (h : xs.foldlM step s = .error e) : ∃ s' x, step s' x = .error e := by
  induction xs generalizing s with
  | nil => cases h
  | cons x rest ih =>
    rw [List.foldlM_cons] at h
    rcases bind_eq_error_iff.mp h with hx | ⟨s', -, hrest⟩
    · exact ⟨s, x, hx⟩
    · exact ih hrest

end PostfixRules.Outcome
