/-!
# Station identifiers

A station is named from outside by a short identifier of letters, digits and three marks. A
`StationId` is a text that has been checked; `StationId.fault?` says what is wrong with any other.
-/

namespace JourneyPlanner

/-- Why a text is no station identifier. -/
inductive StationIdFault where
  | empty
  | tooLong
  | badCharacter
  deriving DecidableEq, Repr

/-- What is wrong with the text. -/
def StationIdFault.reason : StationIdFault → String
  | empty => "must not be empty"
  | tooLong => "must be at most 32 bytes"
  | badCharacter => "must be ASCII alphanumerics, '-', '_' or ':'"

/-- The message for a text that is no station identifier. -/
def StationIdFault.message (fault : StationIdFault) : String :=
  "invalid station id: " ++ fault.reason

namespace StationId

/-- A character that an identifier may hold. -/
def isAllowed (c : Char) : Bool := c.isAlphanum || c == '-' || c == '_' || c == ':'

/-- What is wrong with a text as an identifier, if anything. -/
def fault? (text : String) : Option StationIdFault :=
  if text.isEmpty then some .empty
  else if 32 < text.utf8ByteSize then some .tooLong
  else if text.toList.all isAllowed then none
  else some .badCharacter

end StationId

/-- The identifier of a station. -/
structure StationId where
  text : String
  valid : StationId.fault? text = none
  deriving DecidableEq

namespace StationId

/-- The identifier that a text is, or what is wrong with it. -/
def parse (text : String) : Except StationIdFault StationId :=
  match h : fault? text with
  | none => .ok ⟨text, h⟩
  | some fault => .error fault

/-- The identifier as an error report shows it. -/
def renderFull (id : StationId) : String := "StationId(" ++ id.text ++ ")"

theorem parse_text (id : StationId) : parse id.text = .ok id := by
  unfold parse
  split
  · rfl
  · next h => simp [id.valid] at h

theorem text_of_parse {text : String} {id : StationId} (h : parse text = .ok id) : id.text = text := by
  unfold parse at h
  split at h
  · cases h; rfl
  · cases h

end StationId

end JourneyPlanner
