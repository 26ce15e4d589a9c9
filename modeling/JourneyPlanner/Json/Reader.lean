import JourneyPlanner.Json.Basic
import JourneyPlanner.Json.Double
/-!
# Reading Json

A document is read in two passes. `Json.Token.scan` cuts the text into tokens; `Json.Parse.step` then
takes one token at a time, holding the arrays and objects that are still open on a stack, so that
values may nest to any depth. `Json.parse?` accepts a text exactly when it is one value with nothing
but blanks around it: no byte order mark, no trailing comma, no leading zero, no raw control
character in a string.
-/

namespace JourneyPlanner.Json

/-- The pieces a document is made of. A token with no parts of its own (`null`, a number, a string)
carries its value. -/
inductive Token where
  | openArray
  | closeArray
  | openObject
  | closeObject
  | colon
  | comma
  | string (text : Text)
  | atom (value : Json)
  deriving Inhabited

namespace Token

/-- The four blanks that may stand between tokens. -/
def isBlank (c : Char) : Bool := c == ' ' || c == '\n' || c == '\t' || c == '\r'

/-- The value of a hexadecimal digit. -/
def hexDigit? (c : Char) : Option Nat :=
  if '0' ≤ c ∧ c ≤ '9' then some (c.toNat - 48)
  else if 'a' ≤ c ∧ c ≤ 'f' then some (c.toNat - 87)
  else if 'A' ≤ c ∧ c ≤ 'F' then some (c.toNat - 55)
  else none

/-- The sixteen-bit unit that four hexadecimal digits name. -/
def hexUnit? (a b c d : Char) : Option Nat := do
  return ((← hexDigit? a) * 16 + (← hexDigit? b)) * 256 + (← hexDigit? c) * 16 + (← hexDigit? d)

/-- What one piece of a string stands for: a character, or a sixteen-bit unit of an escape. -/
inductive Piece where
  | char (c : Char)
  | unit (u : Nat)

/-- The character of a one-letter escape. -/
def escaped? : Char → Option Char
  | '"' => some '"'
  | '\\' => some '\\'
  | '/' => some '/'
  | 'b' => some '\x08'
  | 'f' => some '\x0c'
  | 'n' => some '\n'
  | 'r' => some '\r'
  | 't' => some '\t'
  | _ => none

/-- Reads up to the closing quote. `done` holds the pieces read so far, last first. Answers the
pieces in order and the text after the quote. -/
def scanString (done : List Piece) : List Char → Option (List Piece × List Char)
  | [] => none
  | '"' :: rest => some (done.reverse, rest)
  | '\\' :: 'u' :: a :: b :: c :: d :: rest =>
    match hexUnit? a b c d with
    | some u => scanString (.unit u :: done) rest
    | none => none
  | '\\' :: c :: rest =>
    match escaped? c with
    | some e => scanString (.char e :: done) rest
    | none => none
  | c :: rest => if c.toNat < 32 || c == '\\' then none else scanString (.char c :: done) rest

/-- A unit that opens a surrogate pair. -/
def isHigh (u : Nat) : Bool := 0xD800 ≤ u && u < 0xDC00

/-- A unit that closes a surrogate pair. -/
def isLow (u : Nat) : Bool := 0xDC00 ≤ u && u < 0xE000

/-- Joins the pieces of a string to characters. Two escapes that form a surrogate pair give one
character; half a pair gives none, and then the string has no text. -/
def joinPieces (done : List Char) : List Piece → Option (List Char)
  | [] => some done.reverse
  | .char c :: rest => joinPieces (c :: done) rest
  | .unit u :: .unit v :: rest =>
    if isHigh u then
      if isLow v then
        joinPieces (Char.ofNat (0x10000 + (u - 0xD800) * 1024 + (v - 0xDC00)) :: done) rest
      else none
    else if isLow u then none
    else joinPieces (Char.ofNat u :: done) (.unit v :: rest)
  | .unit u :: rest =>
    if isHigh u || isLow u then none else joinPieces (Char.ofNat u :: done) rest

/-- The text of a string's pieces. -/
def text (pieces : List Piece) : Text := (joinPieces [] pieces).map String.ofList

/-- The number that decimal digits write. -/
def digitsValue (digits : List Char) : Nat :=
  digits.foldl (fun n c => n * 10 + (c.toNat - 48)) 0

/-- The number with the given parts: a sign, digits before the point, digits after it if there is a
point, and an exponent with its sign if there is one. Digits alone are a plain integer, unless they
are too many for a significand. -/
def number (negative : Bool) (whole : List Char) (fraction : Option (List Char))
    (exponent : Option (Bool × List Char)) : Number :=
  let (below, power) := exponent.getD (false, [])
  let power : Int := if below then -digitsValue power else digitsValue power
  let decimal := Decimal.ofDigits whole (fraction.getD []) power
  if fraction.isNone && exponent.isNone && decimal.scale == 0 then
    if !negative then .integer decimal.significand
    else if decimal.significand == 0 then .real true
    else .integer (-decimal.significand)
  else .real decimal.isFinite

/-- The decimal digits at the front, if there is at least one, and the rest. -/
def digits? (cs : List Char) : Option (List Char × List Char) :=
  match cs.span (·.isDigit) with
  | ([], _) => none
  | (ds, rest) => some (ds, rest)

/-- The digits before the point: a single zero, or digits that do not start with one. -/
def whole? : List Char → Option (List Char × List Char)
  | '0' :: rest =>
    match rest with
    | c :: _ => if c.isDigit then none else some (['0'], rest)
    | [] => some (['0'], [])
  | cs => digits? cs

/-- The digits after a point, if there is a point. -/
def fraction? : List Char → Option (Option (List Char) × List Char)
  | '.' :: rest => (digits? rest).map fun (ds, rest) => (some ds, rest)
  | cs => some (none, cs)

/-- The sign and digits of an exponent, if there is one. -/
def exponent? : List Char → Option (Option (Bool × List Char) × List Char)
  | c :: rest =>
    if c == 'e' || c == 'E' then
      match rest with
      | '+' :: rest => (digits? rest).map fun (ds, rest) => (some (false, ds), rest)
      | '-' :: rest => (digits? rest).map fun (ds, rest) => (some (true, ds), rest)
      | rest => (digits? rest).map fun (ds, rest) => (some (false, ds), rest)
    else some (none, c :: rest)
  | [] => some (none, [])

/-- A number at the front, and the rest. -/
def number? (cs : List Char) : Option (Number × List Char) := do
  let (negative, cs) := match cs with
    | '-' :: rest => (true, rest)
    | cs => (false, cs)
  let (whole, cs) ← whole? cs
  let (fraction, cs) ← fraction? cs
  let (exponent, cs) ← exponent? cs
  return (number negative whole fraction exponent, cs)

/-- The token at the front of a text that starts with no blank, and the rest. -/
def next? : List Char → Option (Token × List Char)
  | '[' :: rest => some (.openArray, rest)
  | ']' :: rest => some (.closeArray, rest)
  | '\x7b' :: rest => some (.openObject, rest)
  | '\x7d' :: rest => some (.closeObject, rest)
  | ':' :: rest => some (.colon, rest)
  | ',' :: rest => some (.comma, rest)
  | '"' :: rest => (scanString [] rest).map fun (pieces, rest) => (.string (text pieces), rest)
  | 'n' :: 'u' :: 'l' :: 'l' :: rest => some (.atom .null, rest)
  | 't' :: 'r' :: 'u' :: 'e' :: rest => some (.atom (.bool true), rest)
  | 'f' :: 'a' :: 'l' :: 's' :: 'e' :: rest => some (.atom (.bool false), rest)
  | cs => (number? cs).map fun (n, rest) => (.atom (.number n), rest)

/-- Cuts a text into tokens. Each turn takes at least one character, so as many turns as there are
characters suffice. -/
def scanFrom (done : List Token) : Nat → List Char → Option (List Token)
  | _, [] => some done.reverse
  | 0, _ :: _ => none
  | turns + 1, c :: rest =>
    if isBlank c then scanFrom done turns rest
    else
      match next? (c :: rest) with
      | some (token, rest) => scanFrom (token :: done) turns rest
      | none => none

/-- The tokens of a text, or nothing where a piece of it is no token. -/
def scan (text : String) : Option (List Token) :=
  let cs := text.toList
  scanFrom [] cs.length cs

end Token

namespace Parse

/-- An array or object whose end has not been read, with what it holds so far, last first. An
object also holds the key whose value is next. -/
inductive Frame where
  | array (items : List Json)
  | object (members : List (Text × Json)) (key : Text)

/-- What the next token may be. -/
inductive State where
  /-- A value. -/
  | value (frames : List Frame)
  /-- The first item of an array just opened, or its end. -/
  | itemOrEnd (frames : List Frame)
  /-- The first key of an object just opened, or its end. -/
  | keyOrEnd (frames : List Frame)
  /-- A further key of an object. -/
  | key (members : List (Text × Json)) (frames : List Frame)
  /-- The colon after a key. -/
  | colon (key : Text) (members : List (Text × Json)) (frames : List Frame)
  /-- A comma, or the end of the innermost array or object. -/
  | commaOrEnd (frame : Frame) (frames : List Frame)
  /-- Nothing: the document's value is complete. -/
  | complete (value : Json)

/-- A value has been read: it goes into the innermost array or object that is open. -/
def put (item : Json) : List Frame → State
  | [] => .complete item
  | .array items :: frames => .commaOrEnd (.array (item :: items)) frames
  | .object members name :: frames =>
    .commaOrEnd (.object ((name, item) :: members) none) frames

/-- A token where a value is due. -/
def begin (frames : List Frame) : Token → Option State
  | .openArray => some (.itemOrEnd frames)
  | .openObject => some (.keyOrEnd frames)
  | .string text => some (put (.string text) frames)
  | .atom value => some (put value frames)
  | _ => none

/-- One token: the state after it, or nothing where no document goes on so. -/
def step : State → Token → Option State
  | .value frames, token => begin frames token
  | .itemOrEnd frames, .closeArray => some (put (.array []) frames)
  | .itemOrEnd frames, token => begin (.array [] :: frames) token
  | .keyOrEnd frames, .closeObject => some (put (.object []) frames)
  | .keyOrEnd frames, .string text => some (.colon text [] frames)
  | .key members frames, .string text => some (.colon text members frames)
  | .colon key members frames, .colon => some (.value (.object members key :: frames))
  | .commaOrEnd (.array items) frames, .comma => some (.value (.array items :: frames))
  | .commaOrEnd (.array items) frames, .closeArray => some (put (.array items.reverse) frames)
  | .commaOrEnd (.object members _) frames, .comma => some (.key members frames)
  | .commaOrEnd (.object members _) frames, .closeObject =>
    some (put (.object members.reverse) frames)
  | _, _ => none

/-- The value that a list of tokens writes. -/
def ofTokens? (tokens : List Token) : Option Json :=
  match tokens.foldlM step (.value []) with
  | some (.complete value) => some value
  | _ => none

end Parse

/-- The value a document writes, or nothing where the text is no document. -/
def parse? (text : String) : Option Json := (Token.scan text).bind Parse.ofTokens?

end JourneyPlanner.Json
