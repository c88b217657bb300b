import Mathlib.Data.List.Forall2
import PostfixRules.Record
import PostfixRules.Proofs.Text.Digits
import PostfixRules.Proofs.Text.Segments

/-!
# Looking a field up

An address leads into a value step by step, to the member of an object under a key or to the element
of an array at an index. The segments of a dotted text name the steps of an address, each according
to the value that it is met at. Every value below the top level is found by the text of its address,
unless it is null or the text is itself a key at the top level, and nothing else is ever found. Only
the members at the top level under the text and under its first segment have a part in this.
-/

namespace PostfixRules

theorem Json.isNull_eq_false_iff {value : Json} : value.isNull = false ↔ value ≠ .null := by
  cases value <;> simp [isNull]

namespace Record

/-! ## Addresses -/

/-- A step into a value: to a member of an object, or to an element of an array. An index is a word
of 64 bits; no array has more elements than such words can count. -/
inductive Step where
  | key (name : String)
  | index (place : UInt64)
  deriving DecidableEq, Repr

namespace Step

/-- How a step is written: an index is written in decimal. -/
def text : Step → String
  | .key name => name
  | .index place => Text.natText place.toNat

/-- What a segment of a text may stand for: a key is written as it is, an index as a row of digits,
perhaps after a plus sign. -/
inductive NamedBy (segment : String) : Step → Prop where
  | key : NamedBy segment (.key segment)
  | index {place : UInt64} {digits : List Char}
    (hsegment : segment.toList = digits ∨ segment.toList = '+' :: digits) (hne : digits ≠ [])
    (hdigits : ∀ c ∈ digits, c.isDigit = true) (hvalue : Text.natOfDigits digits = place.toNat) :
    NamedBy segment (.index place)

theorem namedBy_key_iff {segment name : String} : NamedBy segment (.key name) ↔ segment = name := by
  constructor
  · rintro ⟨⟩
    rfl
  · rintro rfl
    exact .key

/-- A segment stands for an index exactly if it is read as this number. -/
theorem namedBy_index_iff {segment : String} {place : UInt64} :
    NamedBy segment (.index place) ↔
      Text.unsigned? (2 ^ (64 : Nat)) segment.toList = some place.toNat := by
  rw [Text.unsigned?_eq_some_iff]
  constructor
  · rintro (_ | ⟨hsegment, hne, hdigits, hvalue⟩)
    exact ⟨place.toNat_lt, _, hsegment, hne, hdigits, hvalue⟩
  · rintro ⟨-, digits, hsegment, hne, hdigits, hvalue⟩
    exact .index hsegment hne hdigits hvalue

/-- A step is named by what is written for it. -/
theorem namedBy_text (step : Step) : NamedBy step.text step := by
  cases step with
  | key name => exact .key
  | index place =>
    exact .index (.inl (String.toList_ofList)) (Text.decimal_ne_nil _)
      (Text.isDigit_of_mem_decimal _) (Text.natOfDigits_decimal _)

end Step

/-- The value that steps lead to from a value. -/
inductive Leads : Json → List Step → Json → Prop where
  | here (value : Json) : Leads value [] value
  | member {members : List (String × Json)} {name : String} {child value : Json}
    {steps : List Step} (hmember : members.lookup name = some child)
    (hrest : Leads child steps value) : Leads (.object members) (.key name :: steps) value
  | element {elements : List Json} {place : UInt64} {child value : Json} {steps : List Step}
    (helement : elements[place.toNat]? = some child) (hrest : Leads child steps value) :
    Leads (.array elements) (.index place :: steps) value

/-- Following segments leads to a value exactly if they name steps that do. -/
theorem follow?_eq_some_iff {segments : List String} {root value : Json} :
    follow? segments root = some value ↔
      ∃ steps, List.Forall₂ Step.NamedBy segments steps ∧ Leads root steps value := by
  induction segments generalizing root with
  | nil =>
    rw [follow?, Option.some.injEq]
    constructor
    · rintro rfl
      exact ⟨[], .nil, .here root⟩
    · rintro ⟨steps, hnames, hleads⟩
      cases hnames
      cases hleads
      rfl
  | cons segment segments ih =>
    cases root with
    | object members =>
      rw [follow?, Option.bind_eq_some_iff]
      constructor
      · rintro ⟨child, hmember, hfollow⟩
        obtain ⟨steps, hnames, hleads⟩ := ih.mp hfollow
        exact ⟨.key segment :: steps, .cons .key hnames, .member hmember hleads⟩
      · rintro ⟨steps, hnames, hleads⟩
        cases hleads with
        | here => cases hnames
        | member hmember hleads =>
          obtain ⟨hname, hnames⟩ := List.forall₂_cons.mp hnames
          rw [Step.namedBy_key_iff.mp hname]
          exact ⟨_, hmember, ih.mpr ⟨_, hnames, hleads⟩⟩
    | array elements =>
      rw [follow?, Option.bind_eq_some_iff]
      constructor
      · rintro ⟨child, helement, hfollow⟩
        obtain ⟨place, hplace, helement⟩ := Option.bind_eq_some_iff.mp helement
        obtain ⟨steps, hnames, hleads⟩ := ih.mp hfollow
        have hbound := (Text.unsigned?_eq_some_iff.mp hplace).1
        obtain ⟨word, rfl⟩ : ∃ word : UInt64, word.toNat = place := ⟨.ofNatLT place hbound, rfl⟩
        exact ⟨.index word :: steps, .cons (Step.namedBy_index_iff.mpr hplace) hnames,
          .element helement hleads⟩
      · rintro ⟨steps, hnames, hleads⟩
        cases hleads with
        | here => cases hnames
        | element helement hleads =>
          obtain ⟨hplace, hnames⟩ := List.forall₂_cons.mp hnames
          rw [Step.namedBy_index_iff.mp hplace]
          exact ⟨_, helement, ih.mpr ⟨_, hnames, hleads⟩⟩
    | _ =>
      refine iff_of_false (fun h => by cases h) ?_
      rintro ⟨steps, hnames, hleads⟩
      cases hleads
      cases hnames

/-! ## Texts of addresses -/

/-- Segments that have no points and make up a text when they are joined with points. -/
structure IsCut (name : String) (segments : List String) : Prop where
  ne_nil : segments ≠ []
  apart : ∀ segment ∈ segments, '.' ∉ segment.toList
  joined : String.intercalate "." segments = name

theorem isCut_iff {name : String} {segments : List String} :
    IsCut name segments ↔ Text.segments '.' name = segments := by
  rw [Text.segments_eq_iff]
  constructor
  · intro h
    exact ⟨h.ne_nil, h.apart, h.joined⟩
  · rintro ⟨hne, hapart, hjoined⟩
    exact ⟨hne, hapart, hjoined⟩

/-- A text with more than one segment has a point. -/
theorem IsCut.point_mem {name : String} {segments : List String} (h : IsCut name segments)
    (hlength : 2 ≤ segments.length) : '.' ∈ name.toList := by
  by_contra hpoint
  have hwhole : IsCut name [name] :=
    ⟨List.cons_ne_nil name [], by simpa using hpoint, by simp⟩
  have hsegments : segments = [name] := (isCut_iff.mp h).symm.trans (isCut_iff.mp hwhole)
  rw [hsegments] at hlength
  exact absurd hlength (Nat.not_succ_le_self 1)

/-- A field is a value that is not null, under its name at the top level or, if there is none, at an
address that the name, cut at its points, stands for. -/
theorem field?_eq_some_iff {record : Record} {name : String} {value : Json} :
    record.field? name = some value ↔ value ≠ .null ∧
      (record.data.member? name = some value ∨
        record.data.member? name = none ∧ '.' ∈ name.toList ∧
          ∃ segments steps, IsCut name segments ∧ List.Forall₂ Step.NamedBy segments steps ∧
            Leads record.data steps value) := by
  have hnull : (!value.isNull) = true ↔ value ≠ .null := by
    rw [Bool.not_eq_true', Json.isNull_eq_false_iff]
  rw [field?, Option.filter_eq_some_iff, hnull, and_comm]
  refine and_congr_right fun _ => ?_
  cases record.data.member? name with
  | some w => simp
  | none =>
    by_cases hpoint : '.' ∈ name.toList
    · have hcontains : name.toList.contains '.' = true := by simpa using hpoint
      dsimp only
      rw [if_pos hcontains, follow?_eq_some_iff]
      constructor
      · rintro ⟨steps, hnames, hleads⟩
        exact .inr ⟨rfl, hpoint, _, steps, isCut_iff.mpr rfl, hnames, hleads⟩
      · rintro (h | ⟨-, -, segments, steps, hcut, hnames, hleads⟩)
        · cases h
        · rw [isCut_iff.mp hcut]
          exact ⟨steps, hnames, hleads⟩
    · have hcontains : ¬ name.toList.contains '.' = true := by simpa using hpoint
      dsimp only
      rw [if_neg hcontains]
      refine iff_of_false (fun h => by cases h) ?_
      rintro (h | ⟨-, h, -⟩)
      · cases h
      · exact hpoint h

/-- The text of an address, with a point between two steps. -/
def Step.join (steps : List Step) : String :=
  String.intercalate "." (steps.map Step.text)

/-- The text of an address is cut into what was written for its steps, if there is no point in its
keys. -/
theorem isCut_join {steps : List Step} (hne : steps ≠ [])
    (hkeys : ∀ name, .key name ∈ steps → '.' ∉ name.toList) :
    IsCut (Step.join steps) (steps.map Step.text) where
  ne_nil := fun h => hne (List.map_eq_nil_iff.mp h)
  apart := by
    intro segment hsegment
    obtain ⟨step, hstep, rfl⟩ := List.mem_map.mp hsegment
    cases step with
    | key name => exact hkeys name hstep
    | index place =>
      intro hpoint
      rw [Step.text, Text.natText, String.toList_ofList] at hpoint
      exact Text.not_isDigit (Text.isDigit_of_mem_decimal _ '.' hpoint) (by decide) rfl
  joined := rfl

/-- Where an address leads to is found by its text, unless the text is a key at the top level. -/
theorem field?_join {record : Record} {steps : List Step} {value : Json}
    (hleads : Leads record.data steps value) (hvalue : value ≠ .null) (hlength : 2 ≤ steps.length)
    (hkeys : ∀ name, .key name ∈ steps → '.' ∉ name.toList)
    (hmember : record.data.member? (Step.join steps) = none) :
    record.field? (Step.join steps) = some value := by
  have hne : steps ≠ [] := by
    rintro rfl
    cases hlength
  have hcut := isCut_join hne hkeys
  have hnames : List.Forall₂ Step.NamedBy (steps.map Step.text) steps :=
    List.forall₂_map_left_iff.mpr (List.forall₂_same.mpr fun step _ => step.namedBy_text)
  have hpoint := hcut.point_mem (by rwa [List.length_map])
  exact field?_eq_some_iff.mpr ⟨hvalue, .inr ⟨hmember, hpoint, _, steps, hcut, hnames, hleads⟩⟩

/-- A key at the top level comes before any address. -/
theorem field?_of_member? {record : Record} {name : String} {value : Json}
    (h : record.data.member? name = some value) :
    record.field? name = if value.isNull then none else some value := by
  rw [field?, h]
  cases value <;> rfl

/-- A field of an object depends on two members at most. -/
theorem field?_object_congr {members members' : List (String × Json)} {name first : String}
    {others : List String} (hcut : IsCut name (first :: others))
    (hname : members.lookup name = members'.lookup name)
    (hfirst : members.lookup first = members'.lookup first) :
    (⟨.object members⟩ : Record).field? name = (⟨.object members'⟩ : Record).field? name := by
  simp only [field?, Json.member?, hname, isCut_iff.mp hcut, follow?, hfirst]

/-- The text of an address of two or more steps that leads to a value finds this value, unless the
text is a key at the top level, which then counts. In return whatever a field text finds is not null
and is either under that key or, if there is no such key, at the address that the text stands for
when it is cut at its points. Members of an object at the top level make no difference if their keys
are neither the text nor its first segment. -/
theorem field?_addresses (record : Record) :
    (∀ steps value, Leads record.data steps value → 2 ≤ steps.length →
      (∀ name, .key name ∈ steps → '.' ∉ name.toList) → value ≠ .null →
      record.field? (Step.join steps) =
        match record.data.member? (Step.join steps) with
        | some member => if member.isNull then none else some member
        | none => some value) ∧
    (∀ name value, record.field? name = some value ↔ value ≠ .null ∧
      (record.data.member? name = some value ∨
        record.data.member? name = none ∧ '.' ∈ name.toList ∧
          ∃ segments steps, IsCut name segments ∧ List.Forall₂ Step.NamedBy segments steps ∧
            Leads record.data steps value)) ∧
    ∀ members members' name first others, record.data = .object members →
      IsCut name (first :: others) →
      (∀ key, key = name ∨ key = first → members.lookup key = members'.lookup key) →
      record.field? name = (⟨.object members'⟩ : Record).field? name := by
  refine ⟨?_, fun name value => field?_eq_some_iff, ?_⟩
  · intro steps value hleads hlength hkeys hvalue
    cases hmember : record.data.member? (Step.join steps) with
    | some member => exact field?_of_member? hmember
    | none => exact field?_join hleads hvalue hlength hkeys hmember
  · intro members members' name first others hdata hcut hmembers
    obtain ⟨data⟩ := record
    obtain rfl : data = .object members := hdata
    exact field?_object_congr hcut (hmembers name (.inl rfl)) (hmembers first (.inr rfl))

/-- An empty segment is a key like any other, and an index may have zeros in front. -/
example : (Record.ofPairs [("a", .object [("", .array [.null, .bool true])])]).field? "a..01" =
    some (.bool true) := rfl

end Record

end PostfixRules
