/-!
# Numbers with a ceiling

Minutes, prices and counts are natural numbers kept below a common ceiling of thirty-two bits. A sum
that would pass the ceiling either stops there (`Bounded.add`) or is refused (`Bounded.add?`); a
difference that would fall below zero either stops at zero (subtraction of natural numbers) or is
refused (`Bounded.sub?`). Instants on the calendar are whole seconds in sixty-four bits
(`Bounded.Instant`).
-/

namespace JourneyPlanner.Bounded

/-- The largest minute, price or count. As a lower bound it means "out of reach". -/
def ceiling : Nat := 4294967295

/-- The sum, or the ceiling where the sum would pass it. -/
def add (a b : Nat) : Nat := min (a + b) ceiling

/-- The sum, unless it would pass the ceiling. -/
def add? (a b : Nat) : Option Nat := if a + b ≤ ceiling then some (a + b) else none

/-- The difference, unless it would fall below zero. -/
def sub? (a b : Nat) : Option Nat := if b ≤ a then some (a - b) else none

/-- How far two numbers lie apart. -/
def distance (a b : Nat) : Nat := (a - b) + (b - a)

theorem add_le_ceiling (a b : Nat) : add a b ≤ ceiling := Nat.min_le_right _ _

theorem add_eq_of_le {a b : Nat} (h : a + b ≤ ceiling) : add a b = a + b := Nat.min_eq_left h

theorem le_add {a b : Nat} (h : a ≤ ceiling) : a ≤ add a b := Nat.le_min.2 ⟨Nat.le_add_right a b, h⟩

theorem add_mono {a b : Nat} (h : a ≤ b) (c : Nat) : add a c ≤ add b c := by
  unfold add
  omega

/-- A sum that stays below the ceiling has not been cut. -/
theorem sum_le_of_add_le {a b c : Nat} (h : add a b ≤ c) (hc : c < ceiling) : a + b ≤ c := by
  unfold add at h
  omega

theorem add?_eq_some_iff {a b c : Nat} : add? a b = some c ↔ a + b = c ∧ c ≤ ceiling := by
  unfold add?
  split
  · next h => simp only [Option.some.injEq]; constructor
              · rintro rfl; exact ⟨rfl, h⟩
              · exact fun h => h.1
  · next h => simp only [reduceCtorEq, false_iff]; omega

theorem sub?_eq_some_iff {a b c : Nat} : sub? a b = some c ↔ a = c + b := by
  unfold sub?
  split
  · next h => simp only [Option.some.injEq]; omega
  · next h => simp only [reduceCtorEq, false_iff]; omega

/-- Seconds since the first of January 1970, UTC. -/
abbrev Instant := Int

namespace Instant

/-- The least instant of sixty-four bits. -/
def least : Instant := -9223372036854775808

/-- The greatest instant of sixty-four bits. -/
def greatest : Instant := 9223372036854775807

/-- The instant itself, unless it passes sixty-four bits. -/
def check? (x : Int) : Option Instant := if least ≤ x ∧ x ≤ greatest then some x else none

end Instant

end JourneyPlanner.Bounded
