import PostfixRules.Json.Form
import PostfixRules.Proofs.Json.Reader
import PostfixRules.Proofs.Keyed

/-!
# Filling in a form

A form is filled in from the tokens of an object whose keys are fields of the form, each once and
with a value of its shape. What the form holds afterwards is the value under the name of each field.
-/

namespace PostfixRules.Json

/-- Whether a value may stand in a field of a shape, if values of any shape may be so deep. -/
def Shape.Fits (depth : Nat) : Shape → Json → Prop
  | .text, .string _ => True
  | .flag, .bool _ => True
  | .texts, .array elements => ∀ element ∈ elements, ∃ s, element = .string s
  | .any, v => v.nesting ≤ depth
  | .optional inner, v => v = .null ∨ inner.Fits depth v
  | _, _ => False

/-- Whether the members of an object are fields of a form, each once and of its shape. -/
structure FitsForm (depth : Nat) (fields : List Field) (members : List (String × Json)) : Prop where
  fits : ∀ member ∈ members, ∃ field,
    fields.find? (fun field => field.name == member.1) = some field ∧
      field.shape.Fits depth member.2
  nodup : (members.map Prod.fst).Nodup

/-- It does not matter in which order the members come. -/
theorem FitsForm.perm {depth : Nat} {fields : List Field} {members members' : List (String × Json)}
    (h : FitsForm depth fields members) (hperm : members.Perm members') :
    FitsForm depth fields members' where
  fits := fun member hmember => h.fits member (hperm.mem_iff.mpr hmember)
  nodup := h.nodup.perm (hperm.map Prod.fst)

/-! ## Values -/

/-- The other texts of a list are read from their tokens. -/
theorem takeTexts_tokens {elements : List Json} (h : ∀ element ∈ elements, ∃ s, element = .string s)
    (reversed : List Json) (rest : List Token) :
    takeTexts reversed (elementTokens elements ++ rest) =
      .ok (.array (reversed.reverse ++ elements), rest) := by
  induction elements generalizing reversed with
  | nil =>
    rw [List.append_nil]
    rfl
  | cons element others ih =>
    obtain ⟨s, rfl⟩ := h element List.mem_cons_self
    change takeTexts (.string s :: reversed) (elementTokens others ++ rest) = _
    rw [ih (fun element he => h element (List.mem_cons_of_mem _ he)), List.reverse_cons,
      List.append_assoc, List.singleton_append]

/-- A value that fits a shape is read from its tokens. -/
theorem takeShape_tokens {depth : Nat} {shape : Shape} {v : Json} (h : shape.Fits depth v)
    (rest : List Token) : takeShape depth shape (v.tokens ++ rest) = .ok (v, rest) := by
  induction shape with
  | text =>
    cases v with
    | string s => rfl
    | _ => cases h
  | flag =>
    cases v with
    | bool b => rfl
    | _ => cases h
  | texts =>
    cases v with
    | array elements =>
      cases elements with
      | nil => rfl
      | cons element others =>
        obtain ⟨s, rfl⟩ := h element List.mem_cons_self
        exact takeTexts_tokens (fun element he => h element (List.mem_cons_of_mem _ he))
          [.string s] rest
    | _ => cases h
  | any => exact takeValue_tokens h rest
  | optional inner ih =>
    rcases h with rfl | h
    · rfl
    · match v with
      | .null => rfl
      | .bool _ | .number _ | .string _ | .array [] | .array (_ :: _) | .object []
      | .object (_ :: _) => exact ih h

/-! ## Members -/

/-- What the members found so far lead to, by the token that follows the last of them. -/
def afterMember (depth : Nat) (fields : List Field) (found : List (String × Json))
    (rest : List Token) : Token → Except Fault (List (Option Json) × List Token)
  | .comma => takeMembers depth fields found rest
  | .closeBrace => (collect fields found).map fun values => (values, rest)
  | _ => .error .malformed

/-- With its value read, a member is found, whatever follows it. -/
theorem takeMembers_member {depth : Nat} {fields : List Field} {found : List (String × Json)}
    {key : String} {field : Field} {value : Json} {next : Token} {tokens rest : List Token}
    (hfield : fields.find? (fun field => field.name == key) = some field)
    (hnew : found.lookup key = none)
    (htake : takeShape depth field.shape tokens = .ok (value, next :: rest)) :
    takeMembers depth fields found (.string (some key) :: .colon :: tokens) =
      afterMember depth fields ((key, value) :: found) rest next := by
  rw [takeMembers]
  simp only [hfield, hnew, Option.isSome_none, Bool.false_eq_true, if_false]
  split
  next heq =>
    cases htake.symm.trans heq
    rfl
  next heq =>
    cases htake.symm.trans heq
    rfl
  next other hcomma hbrace heq =>
    cases htake.symm.trans heq
    cases next with
    | comma => exact absurd rfl (hcomma value rest)
    | closeBrace => exact absurd rfl (hbrace value rest)
    | _ => rfl
  next heq => cases htake.symm.trans heq

/-- Members that fit a form are all found. -/
theorem takeMembers_tokens {depth : Nat} {fields : List Field} {key : String} {value : Json}
    {members : List (String × Json)} (h : FitsForm depth fields ((key, value) :: members))
    {found : List (String × Json)}
    (hnew : ∀ member ∈ (key, value) :: members, found.lookup member.1 = none) (rest : List Token) :
    takeMembers depth fields found
        (.string (some key) :: .colon :: (value.tokens ++ (memberTokens members ++ rest))) =
      (collect fields (((key, value) :: members).reverse ++ found)).map
        fun values => (values, rest) := by
  induction members generalizing key value found with
  | nil =>
    obtain ⟨field, hfield, hfits⟩ := h.fits (key, value) List.mem_cons_self
    exact takeMembers_member hfield (hnew _ List.mem_cons_self) (takeShape_tokens hfits _)
  | cons next others ih =>
    obtain ⟨field, hfield, hfits⟩ := h.fits (key, value) List.mem_cons_self
    obtain ⟨hkey, hnodup⟩ := List.nodup_cons.mp h.nodup
    have hothers : FitsForm depth fields (next :: others) :=
      ⟨fun member hm => h.fits member (List.mem_cons_of_mem _ hm), hnodup⟩
    have hstill : ∀ member ∈ next :: others, ((key, value) :: found).lookup member.1 = none := by
      intro member hm
      have hne : member.1 ≠ key := fun he => hkey (List.mem_map.mpr ⟨member, hm, he⟩)
      rw [List.lookup_cons, beq_eq_false_iff_ne.mpr hne]
      exact hnew member (List.mem_cons_of_mem _ hm)
    have htokens : memberTokens (next :: others) ++ rest = .comma :: .string (some next.1) ::
        .colon :: (next.2.tokens ++ (memberTokens others ++ rest)) := by
      rw [memberTokens, List.cons_append, List.cons_append, List.cons_append, List.append_assoc]
    rw [htokens, takeMembers_member hfield (hnew _ List.mem_cons_self) (takeShape_tokens hfits _),
      afterMember, ih hothers hstill]
    conv_rhs => rw [List.reverse_cons, List.append_assoc, List.singleton_append]

/-! ## Forms -/

/-- A form collects the first value under the name of each field. -/
theorem collect_congr (fields : List Field) {found found' : List (String × Json)}
    (h : ∀ key, found.lookup key = found'.lookup key) :
    collect fields found = collect fields found' := by
  simp only [collect, h]

/-- A form is filled in from a document that has the tokens of an object that fits it. -/
theorem fillIn_of_scan {fields : List Field} {members : List (String × Json)} {document : String}
    (hscan : scan document.toList = (Json.object members).tokens)
    (h : FitsForm (nestingLimit - 1) fields members) :
    fillIn fields document = collect fields members := by
  cases members with
  | nil =>
    simp only [fillIn, hscan, tokens]
    cases collect fields [] <;> rfl
  | cons member others =>
    obtain ⟨key, value⟩ := member
    have hnew : ∀ member ∈ (key, value) :: others,
        ([] : List (String × Json)).lookup member.1 = none := fun _ _ => rfl
    have htake := takeMembers_tokens h hnew []
    have hreverse :=
      Keyed.lookup_eq_of_perm (List.reverse_perm ((key, value) :: others)).symm h.nodup
    rw [List.append_nil, List.append_nil,
      collect_congr fields fun key => (hreverse key).symm] at htake
    simp only [fillIn, hscan, tokens, htake]
    cases collect fields ((key, value) :: others) <;> rfl

/-- Members that fit a form fill it in alike in every order. -/
theorem fillIn_of_perm {fields : List Field} {members listed : List (String × Json)}
    {document : String} (hscan : scan document.toList = (Json.object members).tokens)
    (hperm : members.Perm listed) (h : FitsForm (nestingLimit - 1) fields listed) :
    fillIn fields document = collect fields listed := by
  have hmembers := h.perm hperm.symm
  rw [fillIn_of_scan hscan hmembers,
    collect_congr fields (Keyed.lookup_eq_of_perm hperm hmembers.nodup)]

end PostfixRules.Json
