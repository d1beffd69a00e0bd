import EntityQuery.Calendar

/-!
# Points in time

A point in time is a date, a second of the day and the nanoseconds within that second, all in
universal time.  A leap second extends the last second of its minute: its nanoseconds run on from
one thousand million.
-/

namespace EntityQuery

def nanosPerSecond : Nat := 1000000000

def secondsPerDay : Nat := 86400

/--
Whether a second of the day and its nanoseconds name a time of day.  This takes a leap second after
the last second of a minute alone, which is where texts can have one.  Times whose nanoseconds were
set by hand to run on after another second are not covered.
-/
def IsTimeOfDay (second nano : Nat) : Prop :=
  second < secondsPerDay ∧ nano < 2 * nanosPerSecond ∧ (nanosPerSecond ≤ nano → second % 60 = 59)

instance (second nano : Nat) : Decidable (IsTimeOfDay second nano) := by
  unfold IsTimeOfDay
  infer_instance

structure Timestamp where
  date : Date
  second : Nat
  nano : Nat
  isTimeOfDay : IsTimeOfDay second nano
deriving DecidableEq

namespace Timestamp

def of? (date : Date) (second nano : Nat) : Option Timestamp :=
  if h : IsTimeOfDay second nano then some ⟨date, second, nano, h⟩ else none

def ofDate (date : Date) : Timestamp := ⟨date, 0, 0, by decide⟩

/-- The point in time at which clocks that are `offset` seconds ahead show the given time. -/
def atOffset? (date : Date) (second nano : Nat) (offset : Int) : Option Timestamp :=
  let shifted := (second : Int) - offset
  if shifted < 0 then do
    of? (← date.previous?) (shifted + secondsPerDay).toNat nano
  else if shifted < secondsPerDay then
    of? date shifted.toNat nano
  else do
    of? (← date.next?) (shifted - secondsPerDay).toNat nano

end Timestamp

end EntityQuery
