/-!
# Days of traffic

A trip runs when started on some of the schedule's days. A `DayMask` is such a set of days, one bit
for each of the first sixty-four; `DayMask.runsOn` is its membership, and later days belong to no
mask.
-/

namespace JourneyPlanner

/-- The days on which a trip starts, one bit a day. -/
structure DayMask where
  bits : BitVec 64
  deriving DecidableEq, Inhabited

namespace DayMask

/-- How many days a mask can tell apart. -/
def maxDays : Nat := 64

/-- Every day. -/
def all : DayMask := ⟨BitVec.allOnes 64⟩

/-- No day. -/
def none : DayMask := ⟨0⟩

/-- Whether a trip starts on `day`. -/
def runsOn (mask : DayMask) (day : Nat) : Bool := mask.bits.getLsbD day

/-- The mask with one more day. -/
def insert (mask : DayMask) (day : Nat) : DayMask := ⟨mask.bits ||| BitVec.twoPow 64 day⟩

/-- The mask of the given days, unless one of them is beyond the last that a mask can tell. -/
def ofDays? (days : List Nat) : Option DayMask :=
  if days.all (· < maxDays) then some (days.foldl insert none) else Option.none

/-- The days of a mask, ascending. -/
def days (mask : DayMask) : List Nat := (List.range maxDays).filter mask.runsOn

/-- The last day of a mask, unless it is empty. -/
def lastDay? (mask : DayMask) : Option Nat := mask.days.getLast?

theorem mem_days {mask : DayMask} {day : Nat} : day ∈ mask.days ↔ mask.runsOn day = true := by
  simp only [days, List.mem_filter, List.mem_range, maxDays, and_iff_right_iff_imp, runsOn]
  exact fun h => BitVec.lt_of_getLsbD h

theorem runsOn_all {day : Nat} : all.runsOn day = decide (day < maxDays) := by
  simp only [all, runsOn, BitVec.getLsbD_allOnes]
  exact decide_eq_decide.2 Iff.rfl

theorem runsOn_none {day : Nat} : none.runsOn day = false := by
  simp [none, runsOn]

theorem runsOn_insert {mask : DayMask} {day other : Nat} :
    (mask.insert day).runsOn other =
      (mask.runsOn other || decide (other < maxDays ∧ other = day)) := by
  simp only [insert, runsOn, BitVec.getLsbD_or, BitVec.getLsbD_twoPow, maxDays]
  by_cases h₁ : other < 64 <;> by_cases h₂ : other = day <;> simp_all [eq_comm]

end DayMask

end JourneyPlanner
