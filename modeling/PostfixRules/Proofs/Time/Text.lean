import Mathlib.Data.List.TakeWhile
import PostfixRules.Proofs.Text.Digits
import PostfixRules.Proofs.Time.Calendar
import PostfixRules.Time.Text

/-!
# Instants read back

The text of an instant in the years from 0 to 9999 is read as that instant, to the nanosecond and
with leap seconds. Each part of the text is a row of digits of a fixed width, which is read with
whatever comes after it; together the parts give back the instant because the calendar has the date
of every day and counts up to it.
-/

namespace PostfixRules

/-- A number below a power of ten has no more digits than the power has zeros. -/
theorem Text.length_decimal_le {n width : Nat} (hwidth : 0 < width) (h : n < 10 ^ width) :
    (decimal n).length ≤ width := by
  fun_induction decimal n generalizing width with
  | case1 n hn => exact hwidth
  | case2 n hn ih =>
    obtain ⟨fewer, rfl⟩ : ∃ fewer, width = fewer + 1 := ⟨width - 1, by omega⟩
    rw [Nat.pow_succ] at h
    have hfewer : 0 < fewer := by
      by_contra hzero
      obtain rfl : fewer = 0 := by omega
      omega
    have hrest := ih hfewer (by omega)
    rw [List.length_append, List.length_singleton]
    omega

namespace Timestamp

/-! ## Rows of a fixed width -/

theorem isDigit_of_mem_padded (width n : Nat) : ∀ c ∈ padded width n, c.isDigit = true := by
  intro c hc
  rcases List.mem_append.mp hc with hc | hc
  · exact Text.isDigit_of_mem_zeros c hc
  · exact Text.isDigit_of_mem_decimal n c hc

/-- Zeros in front do not change what a row denotes. -/
theorem natOfDigits_padded (width n : Nat) : Text.natOfDigits (padded width n) = n := by
  rw [padded, Text.natOfDigits_append, Text.natOfDigits_zeros, Text.natOfDigits_decimal,
    Nat.zero_mul, Nat.zero_add]

theorem exists_padded_cons (width n : Nat) :
    ∃ first others, padded width n = first :: others ∧ first.isDigit = true := by
  have hne : padded width n ≠ [] := fun hnil =>
    Text.decimal_ne_nil n (List.append_eq_nil_iff.mp hnil).2
  obtain ⟨first, others, hrow⟩ := List.exists_cons_of_ne_nil hne
  refine ⟨first, others, hrow, isDigit_of_mem_padded width n first ?_⟩
  rw [hrow]
  exact List.mem_cons_self

variable {width n : Nat}

theorem length_padded (hwidth : 0 < width) (h : n < 10 ^ width) :
    (padded width n).length = width := by
  have hle := Text.length_decimal_le hwidth h
  rw [padded, List.length_append, List.length_replicate]
  omega

theorem skipBlanks_padded (width n : Nat) (rest : List Char) :
    skipBlanks (padded width n ++ rest) = padded width n ++ rest := by
  obtain ⟨first, others, hrow, hdigit⟩ := exists_padded_cons width n
  rw [hrow, List.cons_append, skipBlanks,
    List.dropWhile_cons_of_neg (by rw [Text.isBlank_of_isDigit hdigit]; decide)]

/-- A row is read to its end, and no further. -/
theorem takeDigits?_padded (hwidth : 0 < width) (h : n < 10 ^ width) (rest : List Char) :
    takeDigits? width (padded width n ++ rest) = some (n, rest) := by
  have hlength := length_padded hwidth h
  have hrow : ((padded width n ++ rest).take width).takeWhile Char.isDigit = padded width n := by
    rw [List.take_left' hlength]
    exact List.takeWhile_eq_self_iff.mpr (isDigit_of_mem_padded width n)
  have hne : (padded width n).isEmpty = false := by
    obtain ⟨first, others, hcons, -⟩ := exists_padded_cons width n
    rw [hcons]
    rfl
  simp only [takeDigits?, hrow, hne, Bool.false_eq_true, if_false, natOfDigits_padded, hlength,
    List.drop_left' hlength]

theorem takePart?_padded (h : n < 100) (rest : List Char) :
    takePart? (padded 2 n ++ rest) = some (n, rest) := by
  rw [takePart?, skipBlanks_padded]
  exact takeDigits?_padded (by decide) h rest

theorem takeMark?_cons {mark : Char} (h : Text.isBlank mark = false) (rest : List Char) :
    takeMark? mark (mark :: rest) = some rest := by
  rw [takeMark?, skipBlanks, List.dropWhile_cons_of_neg (by rw [h]; decide)]
  exact if_pos rfl

/-! ## Dates -/

theorem takeYear?_yearText {year : Int} (h : 0 ≤ year ∧ year ≤ 9999) (rest : List Char) :
    takeYear? (yearText year ++ rest) = some (year, rest) := by
  have hread : takeDigits? 4 (padded 4 year.natAbs ++ rest) = some (year.natAbs, rest) :=
    takeDigits?_padded (by decide) (by omega) rest
  have hcast : (year.natAbs : Int) = year := by omega
  obtain ⟨first, others, hrow, hdigit⟩ := exists_padded_cons 4 year.natAbs
  have hminus : first ≠ '-' := Text.not_isDigit hdigit rfl
  have hplus : first ≠ '+' := Text.not_isDigit hdigit rfl
  rw [yearText, if_pos h, takeYear?, skipBlanks_padded]
  rw [hrow, List.cons_append] at hread ⊢
  split
  · rename_i heq
    exact absurd (List.cons.inj heq).1 hminus
  · rename_i heq
    exact absurd (List.cons.inj heq).1 hplus
  · rw [hread, Option.map_some]
    dsimp only
    rw [hcast]

/-- Months and days have two digits at most. -/
theorem lt_hundred_of_isValid {date : Date} (h : date.isValid = true) :
    date.month < 100 ∧ date.day < 100 := by
  simp only [Date.isValid, Bool.and_eq_true, decide_eq_true_eq] at h
  have hlength : Date.daysInMonth date.year date.month ≤ 31 := by
    unfold Date.daysInMonth
    split_ifs <;> decide
  omega

/-- A date that the calendar has is read back. -/
theorem takeDate?_text {date : Date} (hvalid : date.isValid = true)
    (hyear : 0 ≤ date.year ∧ date.year ≤ 9999) (rest : List Char) :
    takeDate? (yearText date.year ++
        '-' :: (padded 2 date.month ++ '-' :: (padded 2 date.day ++ rest))) =
      some (date, rest) := by
  obtain ⟨hmonth, hday⟩ := lt_hundred_of_isValid hvalid
  have hmark : Text.isBlank '-' = false := by decide
  have hrange : yearRange.1 ≤ date.year ∧ date.year ≤ yearRange.2 := by
    simp only [yearRange]
    omega
  simp only [takeDate?, takeYear?_yearText hyear, takeMark?_cons hmark, takePart?_padded hmonth,
    takePart?_padded hday, Option.bind_eq_bind, Option.bind_some, hvalid, hrange, and_self, if_true]

/-! ## Times of day -/

/-- A part of a second is read to its end. -/
theorem takeFraction?_point (hwidth : 0 < width) (hle : width ≤ 9) (h : n < 10 ^ width)
    {rest : List Char} (hrest : rest.head?.all (fun c => !c.isDigit) = true) :
    takeFraction? ('.' :: (padded width n ++ rest)) = some (n * 10 ^ (9 - width), rest) := by
  have hlength := length_padded hwidth h
  have hdigits := isDigit_of_mem_padded width n
  have hrow : ((padded width n ++ rest).take 9).takeWhile Char.isDigit = padded width n := by
    rw [List.take_append, List.take_of_length_le (by omega)]
    refine Text.takeWhile_digits hdigits ?_
    rw [List.head?_take]
    split
    · rfl
    · exact hrest
  have hne : (padded width n).isEmpty = false := by
    obtain ⟨first, others, hcons, -⟩ := exists_padded_cons width n
    rw [hcons]
    rfl
  simp only [takeFraction?, hrow, hne, Bool.false_eq_true, if_false, natOfDigits_padded, hlength,
    Text.dropWhile_digits hdigits hrest]

theorem takeFraction?_fractionText {nanos : Nat} (h : nanos < 1000000000) (rest : List Char) :
    takeFraction? (fractionText nanos ++ 'Z' :: rest) = some (nanos, 'Z' :: rest) := by
  unfold fractionText
  split_ifs with hzero hmillis hmicros
  · rw [hzero]
    rfl
  · have hexact : nanos / 1000000 * 10 ^ (9 - 3) = nanos := by omega
    rw [List.cons_append, takeFraction?_point (by decide) (by decide) (by omega) rfl, hexact]
  · have hexact : nanos / 1000 * 10 ^ (9 - 6) = nanos := by omega
    rw [List.cons_append, takeFraction?_point (by decide) (by decide) (by omega) rfl, hexact]
  · rw [List.cons_append, takeFraction?_point (by decide) (by decide) h rfl, Nat.sub_self,
      Nat.pow_zero, Nat.mul_one]

/-- A time of day is read back. An extra second makes second 60 of the last second of a minute, and
is read as a second more of nanoseconds. -/
theorem takeTime?_text {second extra nanos : Nat} (hsecond : second < 86400)
    (hextra : extra = 0 ∨ extra = 1 ∧ second % 60 = 59) (hnanos : nanos < 1000000000)
    (rest : List Char) :
    takeTime? (padded 2 (second / 3600) ++ ':' :: (padded 2 (second / 60 % 60) ++
        ':' :: (padded 2 (second % 60 + extra) ++ (fractionText nanos ++ 'Z' :: rest)))) =
      some ((second, nanos + extra * nanosPerSecond), 'Z' :: rest) := by
  have hmark : Text.isBlank ':' = false := by decide
  have hhours : second / 3600 < 100 := by omega
  have hminutes : second / 60 % 60 < 100 := by omega
  have hseconds : second % 60 + extra < 100 := by omega
  have hrange : second / 3600 ≤ 23 ∧ second / 60 % 60 ≤ 59 ∧ second % 60 + extra ≤ 60 := by omega
  have hleap : (second % 60 + extra) / 60 = extra := by omega
  have hsum : second / 3600 * 3600 + second / 60 % 60 * 60 + (second % 60 + extra - extra) =
      second := by omega
  simp only [takeTime?, takePart?_padded hhours, takeMark?_cons hmark, takePart?_padded hminutes,
    takePart?_padded hseconds, takeFraction?_fractionText hnanos, Option.bind_eq_bind,
    Option.bind_some, if_pos hrange, hleap, hsum]

/-! ## Instants -/

/-- The date of an instant in universal time. -/
def date (t : Timestamp) : Date :=
  Date.ofDays (t.seconds / 86400)

/-- Whether the year of an instant has four digits and no sign. -/
def HasPlainYear (t : Timestamp) : Prop :=
  0 ≤ t.date.year ∧ t.date.year ≤ 9999

instance (t : Timestamp) : Decidable t.HasPlainYear :=
  inferInstanceAs (Decidable (0 ≤ t.date.year ∧ t.date.year ≤ 9999))

theorem ofParts?_self (t : Timestamp) : ofParts? t.seconds t.nanos = some t :=
  dif_pos ⟨t.nanos_lt, t.leap⟩

/-- The text of an instant, part by part. -/
theorem chars_eq (t : Timestamp) : t.chars = yearText t.date.year ++
    '-' :: (padded 2 t.date.month ++ '-' :: (padded 2 t.date.day ++
    'T' :: (padded 2 ((t.seconds % 86400).toNat / 3600) ++
    ':' :: (padded 2 ((t.seconds % 86400).toNat / 60 % 60) ++
    ':' :: (padded 2 ((t.seconds % 86400).toNat % 60 + t.nanos / nanosPerSecond) ++
    (fractionText (t.nanos % nanosPerSecond) ++ ['Z'])))))) := by
  simp only [chars, date, List.append_assoc, List.cons_append]

/-- The text of an instant is read as the instant. -/
theorem read?_text {t : Timestamp} (h : t.HasPlainYear) : read? t.text = some t := by
  have hvalid : t.date.isValid = true := Date.isValid_ofDays _
  have hyear : yearRange.1 ≤ (Date.ofDays (t.seconds / 86400)).year ∧
      (Date.ofDays (t.seconds / 86400)).year ≤ yearRange.2 := by
    have hplain : 0 ≤ (Date.ofDays (t.seconds / 86400)).year ∧
        (Date.ofDays (t.seconds / 86400)).year ≤ 9999 := h
    simp only [yearRange]
    omega
  have hsecond : (t.seconds % 86400).toNat < 86400 := by omega
  have hextra : t.nanos / nanosPerSecond = 0 ∨
      t.nanos / nanosPerSecond = 1 ∧ (t.seconds % 86400).toNat % 60 = 59 := by
    have hlt := t.nanos_lt
    have hleap := t.leap
    simp only [nanosPerSecond]
    omega
  have hnanos : t.nanos % nanosPerSecond < 1000000000 := Nat.mod_lt _ (by decide)
  have hblanks : skipBlanks ['Z'] = ['Z'] := by decide
  have hend : (skipBlanks []).isEmpty = true ∧ (0 : Int).natAbs < 86400 := by decide
  have hseconds : t.date.toDays * 86400 + ((t.seconds % 86400).toNat : Int) - 0 = t.seconds := by
    rw [date, Date.toDays_ofDays]
    omega
  have hwhole : t.nanos % nanosPerSecond + t.nanos / nanosPerSecond * nanosPerSecond = t.nanos :=
    Nat.mod_add_div' _ _
  simp only [read?, text, String.toList_ofList, chars_eq, takeDate?_text hvalid h, takeSeparator?,
    takeTime?_text hsecond hextra hnanos, Option.bind_eq_bind, Option.bind_some, hblanks,
    takeOffset?, if_pos hend, hseconds, hwhole, if_pos hyear, ofParts?_self]

/-- A leap second with nine digits, the last one that the calendar has had. -/
example : let t : Timestamp := ⟨1483228799, 1999999999, by decide, .inr (by decide)⟩
    t.text = "2016-12-31T23:59:60.999999999Z" ∧ read? t.text = some t := by
  decide +kernel

end Timestamp

end PostfixRules
