import JourneyPlanner.Text.Hidden
/-!
# Quoted text

How an error message quotes a text that it complains about: in double quotes, with a backslash before
quotes and backslashes, short escapes for the usual control characters, and the code point in
hexadecimal for any other character that does not show.
-/

namespace JourneyPlanner.Text

/-- How a character stands inside quotes. -/
def quoteChar (c : Char) : String :=
  if c == '\x00' then "\\0"
  else if c == '\t' then "\\t"
  else if c == '\r' then "\\r"
  else if c == '\n' then "\\n"
  else if c == '\\' then "\\\\"
  else if c == '"' then "\\\""
  else if Hidden.isHidden c then
    "\\u\x7b" ++ String.ofList (Nat.toDigits 16 c.toNat) ++ "\x7d"
  else c.toString

/-- A text in quotes. -/
def quoted (text : String) : String := text.toList.foldl (fun out c => out ++ quoteChar c) "\"" ++ "\""

end JourneyPlanner.Text
