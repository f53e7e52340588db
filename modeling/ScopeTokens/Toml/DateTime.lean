/-
  ScopeTokens.Toml.DateTime

  Dates and times. A value is a date, a time of day, or both, and a date with a
  time may have an offset from universal time. A time may leave out its seconds,
  and keeps `fractionPlaces` places of a fraction of a second. `DateTime.text` is
  the canonical text of a value: a capital `T` between date and time, a capital
  `Z`, and no more places than needed.
-/

import ScopeTokens.Toml.Quoted

namespace ScopeTokens.Toml

/-- A calendar date. -/
structure Date where
  year : Nat
  month : Nat
  day : Nat
  deriving DecidableEq, Repr

/-- Seconds of a time of day, and the nanoseconds if a fraction was given. -/
structure Seconds where
  whole : Nat
  nanos : Option Nat
  deriving DecidableEq, Repr

/-- A time of day. -/
structure Time where
  hour : Nat
  minute : Nat
  seconds : Option Seconds
  deriving DecidableEq, Repr

/-- An offset from universal time. -/
inductive UtcOffset where
  /-- Universal time itself, written as a letter. -/
  | zulu
  /-- Minutes ahead of universal time. -/
  | minutes (m : Int)
  deriving DecidableEq, Repr

/-- A date, a time of day, or both. -/
inductive DateTime where
  | date (d : Date)
  | time (t : Time)
  | both (d : Date) (t : Time) (offset : Option UtcOffset)
  deriving DecidableEq, Repr

/-! ## Reading -/

/-- The number written by the digits `cs` alone, if it lies between `low` and `high`. -/
def fixedNumber? (low high : Nat) (cs : List Char) : Option Nat :=
  (numberOf? 10 cs).bind fun n => if low ≤ n ∧ n ≤ high then some n else none

/-- Number of days of `month` in `year`, by the Gregorian calendar. -/
def daysInMonth (year month : Nat) : Nat :=
  if month = 2 then
    if year % 4 = 0 ∧ (year % 100 ≠ 0 ∨ year % 400 = 0) then 29 else 28
  else if month = 4 ∨ month = 6 ∨ month = 9 ∨ month = 11 then 30 else 31

/-- Reads a date, `YYYY-MM-DD`. -/
def Date.ofChars? : List Char → Option Date
  | [y1, y2, y3, y4, '-', m1, m2, '-', d1, d2] => do
    let year ← numberOf? 10 [y1, y2, y3, y4]
    let month ← fixedNumber? 1 12 [m1, m2]
    let day ← fixedNumber? 1 (daysInMonth year month) [d1, d2]
    some ⟨year, month, day⟩
  | _ => none

/-- Number of places kept of a fraction of a second. -/
def fractionPlaces : Nat := 9

/-- Reads a fraction of a second: nothing, or a point and digits, of which the first
    `fractionPlaces` count. -/
def fraction? : List Char → Option (Option Nat)
  | [] => some none
  | '.' :: ds => do
    if ds.isEmpty then none
    let _ ← numberOf? 10 ds
    let n ← numberOf? 10 ((ds.take fractionPlaces).rightpad fractionPlaces '0')
    some (some n)
  | _ => none

/-- Reads the seconds of a time, from the colon after the minutes on. They may be absent. -/
def seconds? : List Char → Option (Option Seconds)
  | [] => some none
  | ':' :: s1 :: s2 :: cs => do
    let whole ← fixedNumber? 0 60 [s1, s2]
    let nanos ← fraction? cs
    some (some ⟨whole, nanos⟩)
  | _ => none

/-- Reads a time of day, `HH:MM` and what `seconds?` reads. -/
def Time.ofChars? : List Char → Option Time
  | h1 :: h2 :: ':' :: m1 :: m2 :: cs => do
    let hour ← fixedNumber? 0 23 [h1, h2]
    let minute ← fixedNumber? 0 59 [m1, m2]
    let seconds ← seconds? cs
    some ⟨hour, minute, seconds⟩
  | _ => none

/-- Reads `HH:MM` as a number of minutes. -/
def offsetAmount? : List Char → Option Nat
  | [h1, h2, ':', m1, m2] => do
    let hours ← fixedNumber? 0 23 [h1, h2]
    let minutes ← fixedNumber? 0 59 [m1, m2]
    some (hours * 60 + minutes)
  | _ => none

/-- Reads an offset: `Z` or `z`, or a sign and `offsetAmount?`. -/
def UtcOffset.ofChars? : List Char → Option UtcOffset
  | ['Z'] => some .zulu
  | ['z'] => some .zulu
  | '+' :: cs => (offsetAmount? cs).map fun m => .minutes m
  | '-' :: cs => (offsetAmount? cs).map fun m => .minutes (-m)
  | _ => none

/-- `c` may stand between a date and a time. -/
def isTimeMark (c : Char) : Bool :=
  c == 'T' || c == 't' || c == ' '

/-- `c` is part of a time of day. -/
def isTimeChar (c : Char) : Bool :=
  c.isDigit || c == ':' || c == '.'

namespace DateTime

/-- Reads the time of day behind the date `d`, and the offset that may follow it. -/
def ofTime? (d : Date) (cs : List Char) : Option DateTime := do
  let t ← Time.ofChars? (cs.takeWhile isTimeChar)
  match cs.dropWhile isTimeChar with
  | [] => some (.both d t none)
  | offset => (UtcOffset.ofChars? offset).map fun o => .both d t (some o)

/-- Reads a date, a time of day, or both. -/
def ofChars? (cs : List Char) : Option DateTime :=
  match Time.ofChars? cs with
  | some t => some (.time t)
  | none => do
    let d ← Date.ofChars? (cs.take 10)
    match cs.drop 10 with
    | [] => some (.date d)
    | c :: rest => if isTimeMark c then ofTime? d rest else none

end DateTime

/-! ## Writing -/

/-- `n` in decimal, with zeros in front up to `width` digits. -/
def padded (width n : Nat) : List Char :=
  (Nat.toDigits 10 n).leftpad width '0'

/-- A date as year, month and day. -/
def Date.chars (d : Date) : List Char :=
  padded 4 d.year ++ '-' :: padded 2 d.month ++ '-' :: padded 2 d.day

/-- The places of a fraction of a second, up to the last that is not zero; at least one. -/
def fractionChars (nanos : Nat) : List Char :=
  match (padded fractionPlaces nanos).reverse.dropWhile (· == '0') with
  | [] => ['0']
  | ds => ds.reverse

/-- `s` with the colon in front of it. -/
def Seconds.chars (s : Seconds) : List Char :=
  ':' :: padded 2 s.whole ++ (s.nanos.map fun n => '.' :: fractionChars n).getD []

/-- A time of day as hour, minute and seconds. -/
def Time.chars (t : Time) : List Char :=
  padded 2 t.hour ++ ':' :: padded 2 t.minute ++ (t.seconds.map Seconds.chars).getD []

/-- An offset as sign, hours and minutes. -/
def UtcOffset.chars : UtcOffset → List Char
  | zulu => ['Z']
  | minutes m =>
    (if m < 0 then '-' else '+') :: padded 2 (m.natAbs / 60) ++ ':' :: padded 2 (m.natAbs % 60)

/-- The canonical text of a date or time. -/
def DateTime.text (v : DateTime) : String :=
  String.ofList <| match v with
    | date d => d.chars
    | time t => t.chars
    | both d t offset => d.chars ++ 'T' :: t.chars ++ (offset.map UtcOffset.chars).getD []

end ScopeTokens.Toml
