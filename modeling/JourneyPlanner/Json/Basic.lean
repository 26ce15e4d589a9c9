/-!
# Json values

The values that timetables, requests and settings are written in. A value keeps what a document says
and a field may ask for: the order of members and their repetitions, whether a number is a plain
integer, and whether a string's escapes name characters at all. Two views are defined on the values:
how deep they nest (`Json.height`) and whether all their texts and numbers can be held
(`Json.holds`).
-/

namespace JourneyPlanner

/-- A number as a document writes it. Only plain integers of at most sixty-four bits are ever asked for,
so of any other number (a fraction, an exponent, `-0`, or more digits) nothing is kept but whether a
double can hold it. -/
inductive Json.Number where
  | integer (value : Int)
  | real (finite : Bool)
  deriving Repr, DecidableEq

/-- The content of a string: `none` when an escape names half of a surrogate pair, which is well
formed but names no character. -/
abbrev Json.Text := Option String

/-- A Json value. -/
inductive Json where
  | null
  | bool (value : Bool)
  | number (value : Json.Number)
  | string (value : Json.Text)
  | array (items : List Json)
  | object (members : List (Json.Text × Json))
  deriving Repr, Inhabited

namespace Json

/-- The whole number `n` as a value. -/
def int (n : Int) : Json := .number (.integer n)

/-- The natural number `n` as a value. -/
def nat (n : Nat) : Json := .number (.integer n)

/-- The text `s` as a value. -/
def str (s : String) : Json := .string (some s)

/-- An object with the given members, in order. -/
def record (members : List (String × Json)) : Json :=
  .object (members.map fun (key, value) => (some key, value))

/-- `null` for an absent value. -/
def ofOption (encode : α → Json) : Option α → Json
  | none => .null
  | some a => encode a

/-- An array of encoded items. -/
def list (encode : α → Json) (items : List α) : Json := .array (items.map encode)

/-- The first member under `key`, if this is an object that has one. -/
def get? (value : Json) (key : String) : Option Json :=
  match value with
  | .object members => (members.find? fun m => m.1 == some key).map (·.2)
  | _ => none

mutual

/-- How many arrays and objects lie around the innermost value. -/
def height : Json → Nat
  | .array items => heightItems items + 1
  | .object members => heightMembers members + 1
  | _ => 0

/-- The greatest height among `items`. -/
def heightItems : List Json → Nat
  | [] => 0
  | value :: rest => max (height value) (heightItems rest)

/-- The greatest height among the values of `members`. -/
def heightMembers : List (Text × Json) → Nat
  | [] => 0
  | (_, value) :: rest => max (height value) (heightMembers rest)

end

/-- A number that a double or a machine integer can hold. -/
def Number.holds : Number → Bool
  | .integer _ => true
  | .real finite => finite

mutual

/-- Every text names characters and every number is finite, so that the whole value can be held in
memory before it is known what it is for. -/
def holds : Json → Bool
  | .number value => value.holds
  | .string value => value.isSome
  | .array items => holdsItems items
  | .object members => holdsMembers members
  | _ => true

/-- Every one of `items` can be held. -/
def holdsItems : List Json → Bool
  | [] => true
  | value :: rest => holds value && holdsItems rest

/-- Every key and every value of `members` can be held. -/
def holdsMembers : List (Text × Json) → Bool
  | [] => true
  | (key, value) :: rest => key.isSome && holds value && holdsMembers rest

end

end Json

end JourneyPlanner
