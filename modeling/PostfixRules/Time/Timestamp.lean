import PostfixRules.Time.Calendar

/-!
# Instants

An instant is counted in seconds from the beginning of 1970 in universal time, with nanoseconds.
A leap second is the part beyond `10 ^ 9` nanoseconds of the last second of a minute, so it lies
between its neighbours in the order of instants.
-/

namespace PostfixRules

/-- How many nanoseconds make a second. -/
def nanosPerSecond : Nat := 1000000000

/-- An instant in universal time. -/
structure Timestamp where
  /-- Seconds since the beginning of 1970. -/
  seconds : Int
  nanos : Nat
  nanos_lt : nanos < 2 * 1000000000
  /-- Only the last second of a minute may be a leap second. -/
  leap : nanos < 1000000000 ∨ seconds % 60 = 59
  deriving DecidableEq, Repr

namespace Timestamp

/-- The instant at the beginning of a second. -/
def ofSeconds (seconds : Int) : Timestamp :=
  ⟨seconds, 0, by decide, .inl (by decide)⟩

/-- The instant so many nanoseconds into a second, if there is one. -/
def ofParts? (seconds : Int) (nanos : Nat) : Option Timestamp :=
  if h : nanos < 2 * 1000000000 ∧ (nanos < 1000000000 ∨ seconds % 60 = 59) then
    some ⟨seconds, nanos, h.1, h.2⟩
  else none

/-- The order of instants in time. -/
def order (a b : Timestamp) : Ordering :=
  (compare a.seconds b.seconds).then (compare a.nanos b.nanos)

end Timestamp

end PostfixRules
