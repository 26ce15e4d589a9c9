/-!
# Numbers with leading zeros
-/

namespace JourneyPlanner.Text

/-- A number with zeros in front up to `width` digits. -/
def padded (width n : Nat) : String :=
  let digits := toString n
  String.ofList (List.replicate (width - digits.length) '0') ++ digits

end JourneyPlanner.Text
