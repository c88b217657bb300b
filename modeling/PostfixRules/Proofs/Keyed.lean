import PostfixRules.Keyed

/-!
# Tables without repeated keys

Putting a value under a key, or taking a key out, changes what the table holds under that key and
under no other, and as long as no key is repeated no key will be. Such a table is a set of pairs:
putting a pair adds it and removes the pair with the same key.
-/

namespace PostfixRules.Keyed

variable {α : Type}

/-- A table holds the value that was put under a key, and the other keys are as they were. -/
theorem lookup_put (key : String) (value : α) (entries : List (String × α)) (other : String) :
    (put key value entries).lookup other =
      if other = key then some value else entries.lookup other := by
  induction entries with
  | nil =>
    rw [put, List.lookup_cons]
    by_cases h : other = key
    · rw [if_pos h, beq_iff_eq.mpr h]
    · rw [if_neg h, beq_eq_false_iff_ne.mpr h]
  | cons entry rest ih =>
    obtain ⟨k, v⟩ := entry
    rw [put]
    by_cases hk : k = key
    · rw [if_pos hk, List.lookup_cons, List.lookup_cons, hk]
      by_cases h : other = key
      · rw [if_pos h, beq_iff_eq.mpr h]
      · rw [if_neg h, beq_eq_false_iff_ne.mpr h]
    · rw [if_neg hk, List.lookup_cons, List.lookup_cons, ih]
      by_cases h : other = k
      · rw [beq_iff_eq.mpr h]
        exact (if_neg fun he => hk (h.symm.trans he)).symm
      · rw [beq_eq_false_iff_ne.mpr h]

/-- A table holds nothing under a key that was taken out, and the other keys are as they were. -/
theorem lookup_erase (key : String) (entries : List (String × α)) (other : String) :
    (erase key entries).lookup other = if other = key then none else entries.lookup other := by
  induction entries with
  | nil => simp [erase]
  | cons entry rest ih =>
    obtain ⟨k, v⟩ := entry
    by_cases hk : k = key
    · have hkept : erase key ((k, v) :: rest) = erase key rest :=
        List.filter_cons_of_neg (by simpa using hk)
      rw [hkept, ih, List.lookup_cons]
      by_cases h : other = key
      · rw [if_pos h, if_pos h]
      · have hne : other ≠ k := fun he => h (he.trans hk)
        rw [if_neg h, if_neg h, beq_eq_false_iff_ne.mpr hne]
    · have hkept : erase key ((k, v) :: rest) = (k, v) :: erase key rest :=
        List.filter_cons_of_pos (by simpa using hk)
      rw [hkept, List.lookup_cons, List.lookup_cons, ih]
      by_cases h : other = k
      · have hne : other ≠ key := fun he => hk (h.symm.trans he)
        rw [beq_iff_eq.mpr h]
        exact (if_neg hne).symm
      · rw [beq_eq_false_iff_ne.mpr h]

/-- The keys of a table are those under which it holds a value. -/
theorem mem_keys_iff {key : String} {entries : List (String × α)} :
    key ∈ entries.map Prod.fst ↔ ∃ value, entries.lookup key = some value := by
  rw [← Option.isSome_iff_exists, List.lookup_isSome_iff, List.mem_map]
  constructor
  · rintro ⟨entry, hentry, rfl⟩
    exact ⟨entry, hentry, beq_self_eq_true _⟩
  · rintro ⟨entry, hentry, hkey⟩
    exact ⟨entry, hentry, (beq_iff_eq.mp hkey).symm⟩

/-- Taking a key out leaves the other keys. -/
theorem mem_keys_erase {key other : String} {entries : List (String × α)} :
    other ∈ (erase key entries).map Prod.fst ↔ other ≠ key ∧ other ∈ entries.map Prod.fst := by
  simp only [mem_keys_iff, lookup_erase]
  by_cases h : other = key
  · simp [h]
  · simp [h]

/-- A table that repeats no key holds the values of its pairs. -/
theorem lookup_eq_some_iff_mem {entries : List (String × α)} (h : (entries.map Prod.fst).Nodup)
    {key : String} {value : α} : entries.lookup key = some value ↔ (key, value) ∈ entries := by
  rw [List.lookup_eq_some_iff]
  constructor
  · rintro ⟨before, after, rfl, -⟩
    exact List.mem_append_right before List.mem_cons_self
  · intro hmem
    obtain ⟨before, after, rfl⟩ := List.append_of_mem hmem
    refine ⟨before, after, rfl, ?_⟩
    intro entry hentry
    rw [List.map_append] at h
    have hdisjoint := (List.nodup_append.mp h).2.2 entry.1 (List.mem_map_of_mem hentry) key
      List.mem_cons_self
    exact bne_iff_ne.mpr hdisjoint.symm

/-- The order of the pairs does not matter to what a table holds. -/
theorem lookup_eq_of_perm {entries entries' : List (String × α)} (hperm : entries.Perm entries')
    (h : (entries.map Prod.fst).Nodup) (key : String) :
    entries.lookup key = entries'.lookup key := by
  have h' : (entries'.map Prod.fst).Nodup := h.perm (hperm.map Prod.fst)
  apply Option.ext
  intro value
  rw [lookup_eq_some_iff_mem h, lookup_eq_some_iff_mem h', hperm.mem_iff]

/-- Putting a value under a key that is there already makes a table no longer. -/
theorem length_put_of_mem {key : String} (value : α) {entries : List (String × α)}
    (h : key ∈ entries.map Prod.fst) : (put key value entries).length = entries.length := by
  induction entries with
  | nil => cases h
  | cons entry rest ih =>
    obtain ⟨k, v⟩ := entry
    rw [put]
    by_cases hk : k = key
    · rw [if_pos hk, List.length_cons, List.length_cons]
    · have hrest := (List.mem_cons.mp h).resolve_left fun he => hk he.symm
      rw [if_neg hk, List.length_cons, List.length_cons, ih hrest]

theorem mem_keys_put {key other : String} {value : α} {entries : List (String × α)} :
    other ∈ (put key value entries).map Prod.fst ↔
      other = key ∨ other ∈ entries.map Prod.fst := by
  induction entries with
  | nil => simp [put]
  | cons entry rest ih =>
    obtain ⟨k, v⟩ := entry
    rw [put]
    by_cases hk : k = key
    · simp [hk]
    · rw [if_neg hk, List.map_cons, List.map_cons, List.mem_cons, List.mem_cons, ih]
      exact or_left_comm

/-- A value with a new key comes last. -/
theorem put_of_not_mem {key : String} (value : α) {entries : List (String × α)}
    (h : key ∉ entries.map Prod.fst) : put key value entries = entries ++ [(key, value)] := by
  induction entries with
  | nil => rfl
  | cons entry rest ih =>
    obtain ⟨k, v⟩ := entry
    rw [List.map_cons, List.mem_cons, not_or] at h
    rw [put, if_neg fun he => h.1 he.symm, ih h.2, List.cons_append]

/-- No key is repeated by putting a value under a key. -/
theorem nodup_keys_put (key : String) (value : α) {entries : List (String × α)}
    (h : (entries.map Prod.fst).Nodup) : ((put key value entries).map Prod.fst).Nodup := by
  induction entries with
  | nil => exact List.pairwise_singleton _ key
  | cons entry rest ih =>
    obtain ⟨k, v⟩ := entry
    obtain ⟨hfresh, hrest⟩ := List.nodup_cons.mp h
    rw [put]
    by_cases hk : k = key
    · rw [if_pos hk, ← hk]
      exact h
    · rw [if_neg hk]
      refine List.nodup_cons.mpr ⟨?_, ih hrest⟩
      intro hmem
      rcases mem_keys_put.mp hmem with heq | hmem
      · exact hk heq
      · exact hfresh hmem

/-- Putting a pair into a table without repeated keys adds it and removes what had its key. -/
theorem mem_put {key : String} {value : α} {entries : List (String × α)}
    (h : (entries.map Prod.fst).Nodup) {entry : String × α} :
    entry ∈ put key value entries ↔ entry = (key, value) ∨ entry ∈ entries ∧ entry.1 ≠ key := by
  induction entries with
  | nil => simp [put]
  | cons first rest ih =>
    obtain ⟨k, v⟩ := first
    obtain ⟨hfresh, hrest⟩ := List.nodup_cons.mp h
    rw [put]
    by_cases hk : k = key
    · have hne : ∀ other ∈ rest, other.1 ≠ key := by
        intro other hmem heq
        exact hfresh (List.mem_map.mpr ⟨other, hmem, heq.trans hk.symm⟩)
      rw [if_pos hk, List.mem_cons, List.mem_cons]
      constructor
      · rintro (rfl | hmem)
        · exact .inl rfl
        · exact .inr ⟨.inr hmem, hne entry hmem⟩
      · rintro (rfl | ⟨rfl | hmem, hkey⟩)
        · exact .inl rfl
        · exact absurd hk hkey
        · exact .inr hmem
    · rw [if_neg hk, List.mem_cons, List.mem_cons, ih hrest]
      constructor
      · rintro (rfl | rfl | ⟨hmem, hkey⟩)
        · exact .inr ⟨.inl rfl, hk⟩
        · exact .inl rfl
        · exact .inr ⟨.inr hmem, hkey⟩
      · rintro (rfl | ⟨rfl | hmem, hkey⟩)
        · exact .inr (.inl rfl)
        · exact .inl rfl
        · exact .inr (.inr ⟨hmem, hkey⟩)

/-! ## Tables of mapped values -/

section Map

variable {β : Type} (f : α → β)

theorem lookup_map (key : String) (entries : List (String × α)) :
    (entries.map (Prod.map id f)).lookup key = (entries.lookup key).map f := by
  induction entries with
  | nil => rfl
  | cons entry rest ih =>
    obtain ⟨k, v⟩ := entry
    simp only [List.map_cons, Prod.map, id_eq, List.lookup_cons, ih]
    cases key == k <;> rfl

theorem map_put (key : String) (value : α) (entries : List (String × α)) :
    (put key value entries).map (Prod.map id f) =
      put key (f value) (entries.map (Prod.map id f)) := by
  induction entries with
  | nil => rfl
  | cons entry rest ih =>
    simp only [put, List.map_cons, Prod.map, id_eq]
    split
    · rfl
    · simp only [List.map_cons, Prod.map, id_eq, ih]

theorem map_erase (key : String) (entries : List (String × α)) :
    (erase key entries).map (Prod.map id f) = erase key (entries.map (Prod.map id f)) := by
  simp only [erase, List.filter_map]
  rfl

end Map

end PostfixRules.Keyed
