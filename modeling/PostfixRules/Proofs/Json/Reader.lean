import PostfixRules.Json.Reader
import PostfixRules.Proofs.Json.Scan

/-!
# Reading a written value

The machine reads the tokens of a value as that value, above whatever stack it stands, as long as
the stack and the nesting of the value stay within the limit. A written document is therefore read
as the value it was written for.
-/

namespace PostfixRules.Json

mutual

/-- How many arrays and objects lie inside each other. -/
def nesting : Json → Nat
  | .null | .bool _ | .number _ | .string _ => 0
  | .array elements => 1 + elementsNesting elements
  | .object members => 1 + membersNesting members

/-- The deepest nesting among elements. -/
def elementsNesting : List Json → Nat
  | [] => 0
  | v :: vs => max v.nesting (elementsNesting vs)

/-- The deepest nesting among members. -/
def membersNesting : List (String × Json) → Nat
  | [] => 0
  | (_, v) :: ms => max v.nesting (membersNesting ms)

end

/-- Go on from the machine after a token. -/
def resume (limit : Option Nat) (progress : Progress) (tokens : List Token) :
    Except Fault (Json × List Token) :=
  match progress with
  | .more stack expected => drive limit stack expected tokens
  | .done value => .ok (value, tokens)

/-- Whether so many levels more are within the limit. -/
def Admits (limit : Option Nat) (stack : List Frame) (levels : Nat) : Prop :=
  ∀ depth, limit = some depth → stack.length + levels ≤ depth

theorem drive_cons {limit : Option Nat} {stack : List Frame} {expected : Expected} {token : Token}
    {progress : Progress} (h : advance limit stack expected token = .ok progress)
    (rest : List Token) :
    drive limit stack expected (token :: rest) = resume limit progress rest := by
  rw [drive, h]
  cases progress <;> rfl

/-- One level more is entered where it is admitted. -/
theorem enter_of_admits {limit : Option Nat} {stack : List Frame} (h : Admits limit stack 1)
    (frame : Frame) (expected : Expected) :
    enter limit stack frame expected = .ok (.more (frame :: stack) expected) := by
  cases limit with
  | none => rfl
  | some depth => exact if_pos (h depth rfl)

theorem drive_openBracket {limit : Option Nat} {stack : List Frame} (h : Admits limit stack 1)
    (rest : List Token) :
    drive limit stack .value (.openBracket :: rest) =
      drive limit (.array [] :: stack) .element rest := by
  have hadvance : advance limit stack .value .openBracket = _ :=
    enter_of_admits h (.array []) .element
  exact drive_cons hadvance rest

theorem drive_openBrace {limit : Option Nat} {stack : List Frame} (h : Admits limit stack 1)
    (rest : List Token) :
    drive limit stack .value (.openBrace :: rest) =
      drive limit (.object [] "" :: stack) .member rest := by
  have hadvance : advance limit stack .value .openBrace = _ :=
    enter_of_admits h (.object [] "") .member
  exact drive_cons hadvance rest

theorem Admits.mono {limit : Option Nat} {stack : List Frame} {levels fewer : Nat}
    (h : Admits limit stack levels) (hle : fewer ≤ levels) : Admits limit stack fewer := by
  intro depth hdepth
  have := h depth hdepth
  omega

/-- One level deeper one level less is admitted. -/
theorem Admits.push {limit : Option Nat} {stack : List Frame} {levels : Nat}
    (h : Admits limit stack (1 + levels)) (frame : Frame) :
    Admits limit (frame :: stack) levels := by
  intro depth hdepth
  have := h depth hdepth
  rw [List.length_cons]
  omega

/-- What is admitted inside a frame does not depend on what the frame holds. -/
theorem Admits.replace {limit : Option Nat} {frame : Frame} {stack : List Frame} {levels : Nat}
    (h : Admits limit (frame :: stack) levels) (frame' : Frame) :
    Admits limit (frame' :: stack) levels := h

/-- The tokens of a value begin with one that closes nothing. -/
theorem exists_tokens_cons (v : Json) :
    ∃ token rest, v.tokens = token :: rest ∧ token ≠ .closeBracket := by
  match v with
  | .null | .bool _ | .number _ | .string _ | .array [] | .array (_ :: _) | .object []
  | .object (_ :: _) => exact ⟨_, _, rfl, by simp⟩

/-- The first element of an array is read like any other value. -/
theorem drive_element (limit : Option Nat) (stack : List Frame) (v : Json) (rest : List Token) :
    drive limit stack .element (v.tokens ++ rest) =
      drive limit stack .value (v.tokens ++ rest) := by
  obtain ⟨token, others, htokens, hne⟩ := exists_tokens_cons v
  have hadvance : advance limit stack .element token = advance limit stack .value token :=
    if_neg hne
  rw [htokens, List.cons_append, drive, drive, hadvance]

mutual

/-- The tokens of a value are read as the value, which is handed on. -/
theorem drive_tokens (v : Json) {limit : Option Nat} {stack : List Frame}
    (h : Admits limit stack v.nesting) (rest : List Token) :
    drive limit stack .value (v.tokens ++ rest) = resume limit (deliver stack v) rest := by
  match v with
  | .null | .bool _ | .number _ | .string _ => exact drive_cons rfl rest
  | .array [] =>
    rw [tokens, List.cons_append, drive_openBracket (h.mono (Nat.le_add_right 1 _))]
    exact drive_cons rfl rest
  | .array (v :: vs) =>
    rw [nesting, elementsNesting] at h
    have hinner := h.push (.array [])
    rw [tokens, List.cons_append, List.append_assoc,
      drive_openBracket (h.mono (Nat.le_add_right 1 _)), drive_element,
      drive_tokens v (hinner.mono (Nat.le_max_left _ _)), deliver, resume,
      drive_elementTokens vs ((hinner.mono (Nat.le_max_right _ _)).replace _)]
    rfl
  | .object [] =>
    rw [tokens, List.cons_append, drive_openBrace (h.mono (Nat.le_add_right 1 _))]
    exact drive_cons rfl rest
  | .object ((k, v) :: ms) =>
    rw [nesting, membersNesting] at h
    have hinner := h.push (.object [] k)
    rw [tokens, List.cons_append, List.cons_append, List.cons_append, List.append_assoc,
      drive_openBrace (h.mono (Nat.le_add_right 1 _)), drive_cons rfl, resume, drive_cons rfl,
      resume, drive_tokens v (hinner.mono (Nat.le_max_left _ _)), deliver, resume,
      drive_memberTokens ms ((hinner.mono (Nat.le_max_right _ _)).replace _)]
    rfl

/-- The other elements of an array are read into its frame, and the array is handed on. -/
theorem drive_elementTokens (vs : List Json) {limit : Option Nat} {reversed : List Json}
    {outer : List Frame} (h : Admits limit (.array reversed :: outer) (elementsNesting vs))
    (rest : List Token) :
    drive limit (.array reversed :: outer) .separator (elementTokens vs ++ rest) =
      resume limit (deliver outer (.array (reversed.reverse ++ vs))) rest := by
  match vs with
  | [] =>
    rw [List.append_nil]
    exact drive_cons rfl rest
  | v :: vs =>
    rw [elementsNesting] at h
    rw [elementTokens, List.cons_append, List.append_assoc, drive_cons rfl, resume,
      drive_tokens v (h.mono (Nat.le_max_left _ _)), deliver, resume,
      drive_elementTokens vs ((h.mono (Nat.le_max_right _ _)).replace _), List.reverse_cons,
      List.append_assoc, List.singleton_append]

/-- The other members of an object are read into its frame, and the object is handed on. -/
theorem drive_memberTokens (ms : List (String × Json)) {limit : Option Nat}
    {reversed : List (String × Json)} {key : String} {outer : List Frame}
    (h : Admits limit (.object reversed key :: outer) (membersNesting ms)) (rest : List Token) :
    drive limit (.object reversed key :: outer) .separator (memberTokens ms ++ rest) =
      resume limit (deliver outer (.object (reversed.reverse ++ ms))) rest := by
  match ms with
  | [] =>
    rw [List.append_nil]
    exact drive_cons rfl rest
  | (k, v) :: ms =>
    rw [membersNesting] at h
    rw [memberTokens, List.cons_append, List.cons_append, List.cons_append, List.append_assoc,
      drive_cons rfl, resume, drive_cons rfl, resume, drive_cons rfl, resume,
      drive_tokens v ((h.mono (Nat.le_max_left _ _)).replace _), deliver, resume,
      drive_memberTokens ms ((h.mono (Nat.le_max_right _ _)).replace _), List.reverse_cons,
      List.append_assoc, List.singleton_append]

end

/-- A value nested within the limit is read from its tokens. -/
theorem takeValue_tokens {v : Json} {depth : Nat} (h : v.nesting ≤ depth) (rest : List Token) :
    takeValue depth (v.tokens ++ rest) = .ok (v, rest) := by
  have hadmits : Admits (some depth) [] v.nesting := by
    intro limit hlimit
    cases hlimit
    rw [List.length_nil, Nat.zero_add]
    exact h
  exact drive_tokens v hadmits rest

/-- A document written for a value is read as that value. -/
theorem read_write {v : Json} (h : v.nesting ≤ nestingLimit) : read (write v) = .ok v := by
  have htake := takeValue_tokens h []
  rw [List.append_nil] at htake
  rw [read, readWithin, scan_write, htake]
  rfl

end PostfixRules.Json
