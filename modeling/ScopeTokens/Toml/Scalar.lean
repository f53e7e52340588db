/-
  ScopeTokens.Toml.Scalar

  TOML values without quotes or brackets: booleans, integers, floats, dates and
  times. Such a value goes up to the next bracket, comma, equals sign, comment or
  break, less the blanks in front of that (`scalarLength`); what it is follows
  from its first characters (`scalar?`).
-/

import ScopeTokens.Toml.Value

namespace ScopeTokens.Toml

/-- Reads a decimal number, or a date or time. What comes behind the leading digits of `body` tells
    which; `cs` is `body` with its sign. -/
def decimalOrDate? (cs : List Char) (sign : Option Sign) (body : List Char) : Option Value :=
  let integer := (decimalInteger? sign body).map Value.integer
  match body.dropWhile Char.isDigit with
  | [] => integer
  | c :: rest =>
    if c == '-' || c == ':' then (DateTime.ofChars? cs).map .dateTime
    else if (c :: rest).contains ' ' then none
    else if (c :: rest).any fun c => c == '.' || isExponentMark c then
      (floatParts? sign body).map fun parts => .float (.finite parts)
    else if c == '_' then integer
    else none

/-- The value of the unquoted scalar `cs`. -/
def scalar? (cs : List Char) : Option Value :=
  if cs = "true".toList then some (.boolean true)
  else if cs = "false".toList then some (.boolean false)
  else match cs with
    | '0' :: 'x' :: ds => (basedInteger? 16 ds).map .integer
    | '0' :: 'o' :: ds => (basedInteger? 8 ds).map .integer
    | '0' :: 'b' :: ds => (basedInteger? 2 ds).map .integer
    | _ =>
      let (sign, body) := splitSign cs
      match floatWord? sign body with
      | some f => some (.float f)
      | none => decimalOrDate? cs sign body

/-- `c` ends an unquoted scalar. -/
def endsScalar (c : Char) : Bool :=
  "=,[]\x7b\x7d#\r\n".toList.contains c

/-- `c` opens a string. -/
def isQuote (c : Char) : Bool :=
  c == '"' || c == '\''

/-- The length of the unquoted scalar at the front of a text. The `blanks` that came before count if
    more of the scalar follows. A quote opens a string, and so ends the scalar, unless it is
    `inWord`. -/
def scalarLength : Bool → Nat → List Char → Nat
  | _, _, [] => 0
  | inWord, blanks, c :: cs =>
    if isLineBlank c then scalarLength false (blanks + 1) cs
    else if endsScalar c || (isQuote c && !inWord) then 0
    else blanks + 1 + scalarLength (c != '.') 0 cs

/-- Splits the unquoted scalar off the front of `cs`. -/
def splitScalar (cs : List Char) : List Char × List Char :=
  cs.splitAt (scalarLength false 0 cs)

/-- Reads an unquoted scalar, with the text behind it. -/
def readScalar (cs : List Char) : Option (Value × List Char) :=
  let (token, rest) := splitScalar cs
  (scalar? token).map (·, rest)

end ScopeTokens.Toml
