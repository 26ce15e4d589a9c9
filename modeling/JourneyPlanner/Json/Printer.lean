import JourneyPlanner.Json.Basic
/-!
# Writing Json

`Json.compact` writes a value on one line without blanks, `Json.pretty` over several lines with two
blanks per level, an empty array or object staying on its line. In both a string escapes the quote,
the backslash and the control characters, and nothing else.
-/

namespace JourneyPlanner.Json

/-- A hexadecimal digit in lower case. -/
def hexChar (n : Nat) : Char := if n < 10 then Char.ofNat (48 + n) else Char.ofNat (87 + n)

/-- How a character is written inside a string. -/
def escapeChar (c : Char) : String :=
  if c == '"' then "\\\""
  else if c == '\\' then "\\\\"
  else if c == '\x08' then "\\b"
  else if c == '\x0c' then "\\f"
  else if c == '\n' then "\\n"
  else if c == '\r' then "\\r"
  else if c == '\t' then "\\t"
  else if c.toNat < 32 then
    "\\u00" ++ String.ofList [hexChar (c.toNat / 16), hexChar (c.toNat % 16)]
  else c.toString

/-- A text in quotes. A string whose text is lost is written empty. -/
def quote (text : Text) : String :=
  (text.getD "").toList.foldl (fun out c => out ++ escapeChar c) "\"" ++ "\""

/-- A number. One that is no plain integer has lost its digits, and is written as zero. -/
def Number.render : Number → String
  | .integer value => toString value
  | .real _ => "0.0"

/-- A value that has no parts. -/
def renderAtom : Json → String
  | .bool true => "true"
  | .bool false => "false"
  | .number value => value.render
  | .string value => quote value
  | _ => "null"

mutual

/-- Appends the value to `out`, without blanks. -/
def compactTo (out : String) : Json → String
  | .array items => compactItems (out ++ "[") true items ++ "]"
  | .object members => compactMembers (out ++ "\x7b") true members ++ "\x7d"
  | value => out ++ renderAtom value

/-- Appends items with commas between them. -/
def compactItems (out : String) (first : Bool) : List Json → String
  | [] => out
  | value :: rest => compactItems (compactTo (if first then out else out ++ ",") value) false rest

/-- Appends members with commas between them. -/
def compactMembers (out : String) (first : Bool) : List (Text × Json) → String
  | [] => out
  | (key, value) :: rest =>
    compactMembers (compactTo ((if first then out else out ++ ",") ++ quote key ++ ":") value) false
      rest

end

/-- A value on one line. -/
def compact (value : Json) : String := compactTo "" value

/-- A line break and the indentation of `level`. -/
def lineBreak (level : Nat) : String := "\n" ++ String.ofList (List.replicate (2 * level) ' ')

mutual

/-- Appends the value to `out`, its parts on lines of their own at `level + 1`. -/
def prettyTo (level : Nat) (out : String) : Json → String
  | .array [] => out ++ "[]"
  | .array items => prettyItems level (out ++ "[") true items ++ lineBreak level ++ "]"
  | .object [] => out ++ "\x7b\x7d"
  | .object members => prettyMembers level (out ++ "\x7b") true members ++ lineBreak level ++ "\x7d"
  | value => out ++ renderAtom value

/-- Appends items, each on a line of its own. -/
def prettyItems (level : Nat) (out : String) (first : Bool) : List Json → String
  | [] => out
  | value :: rest =>
    let out := (if first then out else out ++ ",") ++ lineBreak (level + 1)
    prettyItems level (prettyTo (level + 1) out value) false rest

/-- Appends members, each on a line of its own. -/
def prettyMembers (level : Nat) (out : String) (first : Bool) : List (Text × Json) → String
  | [] => out
  | (key, value) :: rest =>
    let out := (if first then out else out ++ ",") ++ lineBreak (level + 1) ++ quote key ++ ": "
    prettyMembers level (prettyTo (level + 1) out value) false rest

end

/-- A value over several lines. -/
def pretty (value : Json) : String := prettyTo 0 "" value

end JourneyPlanner.Json
