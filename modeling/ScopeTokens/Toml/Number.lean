/-
  ScopeTokens.Toml.Number

  Integers and floats. Digits may be grouped by single underscores. A decimal
  number has no leading zero; hexadecimal, octal and binary numbers have no sign.
  A literal is kept as it was written, and becomes a number only when it is used:
  it may be too large for that, and an integer with an underscore in it may even
  have characters that are no digits. `IntegerLiteral.value?` and
  `FloatLiteral.overflows` tell such literals from the others.
-/

import ScopeTokens.Toml.Quoted

namespace ScopeTokens.Toml

/-! ## Signs and digits -/

/-- The sign in front of a number. -/
inductive Sign where
  | plus
  | minus
  deriving DecidableEq, Repr

/-- Splits off the sign in front of a number. -/
def splitSign : List Char → Option Sign × List Char
  | '+' :: cs => (some .plus, cs)
  | '-' :: cs => (some .minus, cs)
  | cs => (none, cs)

/-- `n` with its sign. -/
def signed (sign : Option Sign) (n : Nat) : Int :=
  if sign = some .minus then -n else n

/-- `c` is a digit of `base`. -/
def isDigitOf (base : Nat) (c : Char) : Bool :=
  (digitValue? base c).isSome

/-- Takes the underscores out of a number. Each must come right behind a digit and right before one.
    The flag says that one may stand here, at the front of the text. -/
def ungroup (isDigit : Char → Bool) : Bool → List Char → Option (List Char)
  | _, [] => some []
  | _, ['_'] => none
  | afterDigit, '_' :: c :: cs =>
    if afterDigit && isDigit c then (ungroup isDigit true cs).map (c :: ·) else none
  | _, c :: cs => (ungroup isDigit (isDigit c) cs).map (c :: ·)

/-! ## Integers -/

/-- An integer as written. `digits` has no underscores, and need not consist of digits of `base`. -/
structure IntegerLiteral where
  sign : Option Sign
  base : Nat
  digits : List Char
  deriving DecidableEq, Repr

/-- `i` is a signed or an unsigned 128-bit word. -/
def fitsInteger (i : Int) : Bool :=
  -Int.pow 2 127 ≤ i && i < Int.pow 2 128

/-- The integer that `l` stands for, if its digits are digits of `l.base`, at least one, and it
    fits. -/
def IntegerLiteral.value? (l : IntegerLiteral) : Option Int :=
  if l.digits.isEmpty then none
  else
    ((numberOf? l.base l.digits).map (signed l.sign)).filter fitsInteger

/-- Reads an integer in `base` behind its mark; the digits may be missing. -/
def basedInteger? (base : Nat) (cs : List Char) : Option IntegerLiteral :=
  if cs.all fun c => c == '_' || isDigitOf base c then
    (ungroup (isDigitOf base) false cs).map (⟨none, base, ·⟩)
  else none

/-- Reads a decimal integer behind its sign. An underscore may also follow the sign, and stands as
    well between letters up to `f` as between digits. -/
def decimalInteger? (sign : Option Sign) (body : List Char) : Option IntegerLiteral :=
  match body with
  | [] => none
  | ['0'] => some ⟨sign, 10, ['0']⟩
  | '0' :: _ => none
  | _ => (ungroup (isDigitOf 16) sign.isSome body).map (⟨sign, 10, ·⟩)

/-! ## Floats -/

/-- The parts of a float as written: its value is `significand * 10 ^ scale`, with the sign. -/
structure FloatParts where
  sign : Option Sign
  significand : Nat
  scale : Int
  deriving DecidableEq, Repr

/-- A float as written. -/
inductive FloatLiteral where
  | infinity (sign : Option Sign)
  | notANumber
  | finite (parts : FloatParts)
  deriving DecidableEq, Repr

/-- `c` opens an exponent. -/
def isExponentMark (c : Char) : Bool :=
  c == 'e' || c == 'E'

/-- The number written by `cs`, which has at least one digit. -/
def digits? (cs : List Char) : Option Nat :=
  if cs.isEmpty then none else numberOf? 10 cs

/-- Reads an exponent from its letter on; an absent one is `0`. -/
def exponent? : List Char → Option Int
  | [] => some 0
  | c :: cs =>
    let (sign, ds) := splitSign cs
    if isExponentMark c then (digits? ds).map (signed sign) else none

/-- Reads the places behind the point, from the point on; they may be absent. -/
def places? : List Char → Option (List Char)
  | [] => some []
  | c :: ds => if c == '.' && !ds.isEmpty then some ds else none

/-- Reads a decimal float behind its sign: digits, and a fraction or an exponent or both. -/
def floatParts? (sign : Option Sign) (body : List Char) : Option FloatParts := do
  let text ← ungroup Char.isDigit sign.isSome body
  let mantissa := text.takeWhile fun c => !isExponentMark c
  let whole := mantissa.takeWhile Char.isDigit
  if whole.isEmpty || body.head? == some '0' && 1 < whole.length then none
  let places ← places? (mantissa.dropWhile Char.isDigit)
  let n ← digits? (whole ++ places)
  let e ← exponent? (text.dropWhile fun c => !isExponentMark c)
  some ⟨sign, n, e - places.length⟩

/-- Halfway between the largest double and `2 ^ 1024`: a number from here on rounds to infinity. -/
def floatLimit : Nat :=
  Nat.pow 2 1024 - Nat.pow 2 970

/-- `p` rounds to infinity as a double. Its decimal length decides all but the close cases. -/
def FloatParts.overflows (p : FloatParts) : Bool :=
  if p.significand = 0 then false
  else
    let magnitude := (Nat.toDigits 10 p.significand).length + p.scale
    if magnitude < 300 then false
    else if 400 < magnitude then true
    else if 0 ≤ p.scale then floatLimit ≤ p.significand * Nat.pow 10 p.scale.toNat
    else floatLimit * Nat.pow 10 (-p.scale).toNat ≤ p.significand

/-- Reads `inf` or `nan`, behind the sign. -/
def floatWord? (sign : Option Sign) (body : List Char) : Option FloatLiteral :=
  if body = "inf".toList then some (.infinity sign)
  else if body = "nan".toList then some .notANumber
  else none

/-- The literal is written as a number, and rounds to infinity. -/
def FloatLiteral.overflows : FloatLiteral → Bool
  | finite parts => parts.overflows
  | _ => false

end ScopeTokens.Toml
