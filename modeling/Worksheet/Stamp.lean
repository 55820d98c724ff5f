/-!
# Stamps

A stamp is a moment in universal time, by the calendar and down to nanoseconds. A minute may end in a
leap second, its second number 60.

* `Stamp`, in order of time by `Stamp.before`;
* `Calendar.next` and `Calendar.previous`: the day after and the day before;
* `Stamp.ofLocal?`: from the time of day at some distance from universal time.
-/

namespace Worksheet

namespace Calendar

/-- The years that dates may have. -/
def firstYear : Int := -262143

/-- The last year that dates may have. -/
def lastYear : Int := 262142

/-- The year has a 29th of February. -/
def isLeap (year : Int) : Bool :=
  year % 4 == 0 && (year % 100 != 0 || year % 400 == 0)

/-- The number of days in a month. -/
def daysIn (year : Int) (month : Nat) : Nat :=
  if month = 2 then (if isLeap year then 29 else 28)
  else if month = 4 ∨ month = 6 ∨ month = 9 ∨ month = 11 then 30
  else 31

end Calendar

/-- A day by the calendar. -/
structure Day where
  year : Int
  month : Nat
  day : Nat
  deriving DecidableEq, Inhabited, Repr

namespace Day

/-- The calendar has the day. -/
def IsValid (d : Day) : Prop :=
  Calendar.firstYear ≤ d.year ∧ d.year ≤ Calendar.lastYear ∧ 1 ≤ d.month ∧ d.month ≤ 12 ∧
    1 ≤ d.day ∧ d.day ≤ Calendar.daysIn d.year d.month

instance (d : Day) : Decidable d.IsValid :=
  inferInstanceAs (Decidable (_ ∧ _))

/-- The day after. -/
def next (d : Day) : Day :=
  if d.day < Calendar.daysIn d.year d.month then { d with day := d.day + 1 }
  else if d.month < 12 then ⟨d.year, d.month + 1, 1⟩
  else ⟨d.year + 1, 1, 1⟩

/-- The day before. -/
def previous (d : Day) : Day :=
  if 1 < d.day then { d with day := d.day - 1 }
  else if 1 < d.month then ⟨d.year, d.month - 1, Calendar.daysIn d.year (d.month - 1)⟩
  else ⟨d.year - 1, 12, 31⟩

end Day

/-- A moment in universal time. -/
structure Stamp where
  day : Day
  hour : Nat
  minute : Nat
  /-- The second of the minute, 60 in a leap second. -/
  second : Nat
  nanosecond : Nat
  isValid : day.IsValid ∧ hour < 24 ∧ minute < 60 ∧ second ≤ 60 ∧ nanosecond < 1000000000
  deriving DecidableEq

namespace Stamp

/-- The stamp of the given parts, if there is one. -/
def of? (day : Day) (hour minute second nanosecond : Nat) : Option Stamp :=
  if h : day.IsValid ∧ hour < 24 ∧ minute < 60 ∧ second ≤ 60 ∧ nanosecond < 1000000000 then
    some ⟨day, hour, minute, second, nanosecond, h⟩
  else none

/-- The first moment of the year 1970. -/
def epoch : Stamp :=
  ⟨⟨1970, 1, 1⟩, 0, 0, 0, 0, by decide⟩

instance : Inhabited Stamp := ⟨epoch⟩

/-- The parts of a stamp, the largest first. -/
def parts (s : Stamp) : List Int :=
  [s.day.year, s.day.month, s.day.day, s.hour, s.minute, s.second, s.nanosecond]

/-- The first stamp comes before the second one. -/
def before (s t : Stamp) : Bool :=
  s.parts < t.parts

/-- The moment at which a clock shows the given time that is `offset` minutes ahead of universal
time. -/
def ofLocal? (day : Day) (hour minute second nanosecond : Nat) (offset : Int) : Option Stamp :=
  if day.IsValid ∧ hour < 24 ∧ minute < 60 then
    let total : Int := (hour * 60 + minute : Nat) - offset
    let day := if total < 0 then day.previous else if 1440 ≤ total then day.next else day
    let rest := (total % 1440).toNat
    of? day (rest / 60) (rest % 60) second nanosecond
  else none

end Stamp

end Worksheet
