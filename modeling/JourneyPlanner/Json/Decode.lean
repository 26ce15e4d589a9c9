import JourneyPlanner.Json.Basic
/-!
# Reading fields out of Json

Decoders for the documents. A record may be written as an object, whose members stand in any order,
or as an array of its fields in their declared order, which may stop early. In an object a field that
the record does not know is passed over whatever it holds, and a field that it knows may not be
repeated. A tagged record is held in memory before its tag is known, so all of it must be holdable
and it may not nest too deep (`Json.nestingLimit`). Decoding says only whether a document has the
right shape: `none` stands for any way of not having it.
-/

namespace JourneyPlanner.Json

/-- How many arrays and objects may lie inside one another where a document is held in memory. -/
def nestingLimit : Nat := 127

/-- A text. -/
def asString? : Json → Option String
  | .string value => value
  | _ => none

/-- A truth value. -/
def asBool? : Json → Option Bool
  | .bool value => some value
  | _ => none

/-- A plain integer between `least` and `greatest`. -/
def asInt? (least greatest : Int) : Json → Option Int
  | .number (.integer value) => if least ≤ value ∧ value ≤ greatest then some value else none
  | _ => none

/-- A natural number of at most `bits` bits. -/
def asNat? (bits : Nat) (value : Json) : Option Nat :=
  (asInt? 0 (Nat.pow 2 bits - 1) value).map Int.toNat

/-- A natural number of thirty-two bits. -/
def asNat32? : Json → Option Nat := asNat? 32

/-- A whole number of sixty-four bits. -/
def asInt64? : Json → Option Int := asInt? (-Nat.pow 2 63) (Nat.pow 2 63 - 1)

/-- `null` or a value. -/
def asOption? (decode : Json → Option α) : Json → Option (Option α)
  | .null => some none
  | value => (decode value).map some

/-- An array of values. -/
def asList? (decode : Json → Option α) : Json → Option (List α)
  | .array items => items.mapM decode
  | _ => none

/-- An array of exactly two values of one kind. -/
def asPair? (decode : Json → Option α) : Json → Option (α × α)
  | .array [a, b] => do return (← decode a, ← decode b)
  | _ => none

/-- One of several names, written as a string or as an object with that one key and `null`. -/
def asName? (names : List (String × α)) : Json → Option α
  | .string (some name) => names.lookup name
  | .object [(some name, .null)] => names.lookup name
  | _ => none

/-- The fields of a record as they were found: each name with its value, if there is one. -/
abbrev Fields := List (String × Json)

/-- Collects the members whose keys are among `names`. A key that names no character, or a known
field that comes twice, spoils the record. -/
def fieldsOfMembers? (names : List String) : List (Text × Json) → Option Fields
  | [] => some []
  | (none, _) :: _ => none
  | (some key, value) :: rest => do
    let fields ← fieldsOfMembers? names rest
    if names.contains key then
      if fields.any (·.1 == key) then none else return (key, value) :: fields
    else return fields

/-- Pairs the items of an array with the declared fields; there may be fewer items, never more. -/
def fieldsOfItems? (names : List String) (items : List Json) : Option Fields :=
  if items.length ≤ names.length then some (names.zip items) else none

/-- The fields of a record with the declared `names`. -/
def fields? (names : List String) : Json → Option Fields
  | .object members => fieldsOfMembers? names members
  | .array items => fieldsOfItems? names items
  | _ => none

/-- A field that has to be there. -/
def Fields.required? (fields : Fields) (name : String) (decode : Json → Option α) : Option α :=
  (fields.lookup name).bind decode

/-- A field that may be left out. -/
def Fields.optional? (fields : Fields) (name : String) (default : α) (decode : Json → Option α) :
    Option α :=
  match fields.lookup name with
  | none => some default
  | some value => decode value

/-- The kinds of a tagged record: the name of each with its declared fields. -/
abbrev Kinds := List (String × List String)

/-- The kind that a tag names. Where `byPosition` is set, a tag may also be the position of the kind
among all of them. -/
def Kinds.ofTag? (kinds : Kinds) (byPosition : Bool) : Json → Option (String × List String)
  | .string (some name) => kinds.find? fun kind => kind.1 == name
  | .number (.integer position) =>
    if byPosition = true ∧ 0 ≤ position then kinds[position.toNat]? else none
  | _ => none

/-- The value of the one member under `tag`, and the other members. -/
def splitTag? (tag : String) (members : List (Text × Json)) : Option (Json × List (Text × Json)) :=
  match members.partition fun m => m.1 == some tag with
  | ([(_, value)], rest) => some (value, rest)
  | _ => none

/-- A record that says by a `tag` of which of several kinds it is, as an object with that member or as
an array whose first item is the tag. A record inside another tagged one is in memory by the time its
tag is looked at, and there the tag may be a position. -/
def tagged? (tag : String) (kinds : Kinds) (byPosition : Bool) (value : Json) :
    Option (String × Fields) :=
  if value.holds then
    match value with
    | .object members => do
      let (tag, rest) ← splitTag? tag members
      let (kind, names) ← kinds.ofTag? byPosition tag
      return (kind, ← fieldsOfMembers? names rest)
    | .array (tag :: rest) => do
      let (kind, names) ← kinds.ofTag? byPosition tag
      return (kind, ← fieldsOfItems? names rest)
    | _ => none
  else none

end JourneyPlanner.Json
