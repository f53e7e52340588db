/-
  ScopeTokens.Toml.Value

  TOML values, and the rules for putting tables together. A table remembers how it
  was made (`TableOrigin`), which decides what may be added to it: a table opened
  by a header is not opened twice, a table that only lay on the path to another
  header may be opened once or taken over by a dotted key, a table made by a
  dotted key takes further dotted keys only, and an inline table takes nothing. A
  header that repeats in double brackets starts the next table of an array. A
  number that cannot be used does no harm as long as nobody reads it;
  `Value.isUsable` says that there is none in a value.
-/

import ScopeTokens.Toml.DateTime
import ScopeTokens.Toml.Number

namespace ScopeTokens.Toml

/-- How a table was written. -/
inductive TableOrigin where
  /-- Opened by a header of its own. -/
  | header
  /-- Passed through on the way to another header. -/
  | implied
  /-- Made by a dotted key, for a part before its last. -/
  | dotted
  /-- Written between braces. -/
  | inline
  deriving DecidableEq, Repr

/-- A TOML value. -/
inductive Value where
  | string (s : String)
  | integer (l : IntegerLiteral)
  | float (f : FloatLiteral)
  | boolean (b : Bool)
  | dateTime (v : DateTime)
  | array (items : List Value)
  | table (origin : TableOrigin) (entries : List (String × Value))
  /-- An array of tables that `[[…]]` headers add to; `latest` is the table that is open. -/
  | tables (latest : List (String × Value)) (earlier : List (List (String × Value)))

/-- The entries of a table, in the order in which their keys first appeared. -/
abbrev Entries := List (String × Value)

namespace Entries

/-- The value of `key`. -/
def find? (es : Entries) (key : String) : Option Value :=
  (List.find? (fun e => e.1 == key) es).map Prod.snd

/-- Gives `key` the value that `f` computes from its present one; fails where `f` does. -/
def update (key : String) (f : Option Value → Option Value) : Entries → Option Entries
  | [] => (f none).map fun v => [(key, v)]
  | (k, v) :: es =>
    if k = key then (f (some v)).map fun v' => (k, v') :: es
    else (update key f es).map ((k, v) :: ·)

/-- Opens the table that a header names. `last` says what becomes of the last key of the path. -/
def openHeader (last : Option Value → Option Value) : List String → Entries → Option Entries
  | [], _ => none
  | [k], es => update k last es
  | k :: ks, es =>
    update k (fun
      | none => (openHeader last ks []).map (.table .implied)
      | some (.table .inline _) => none
      | some (.table origin sub) => (openHeader last ks sub).map (.table origin)
      | some (.tables latest earlier) =>
        (openHeader last ks latest).map fun sub => .tables sub earlier
      | some _ => none) es

/-- What `[…]` does to the key that it ends in. -/
def asTable : Option Value → Option Value
  | none => some (.table .header [])
  | some (.table .implied sub) => some (.table .header sub)
  | some _ => none

/-- What `[[…]]` does to the key that it ends in. -/
def asNextTable : Option Value → Option Value
  | none => some (.tables [] [])
  | some (.tables latest earlier) => some (.tables [] (latest :: earlier))
  | some _ => none

/-- Gives a dotted key its `value`. The key must be new, and the table it stands in must be one made
    by dotted keys. A table on the path that has no header of its own becomes one of those. The path
    may lead through the latest table of an array, but not end in it. -/
def assign (value : Value) : List String → Entries → Option Entries
  | [], _ => none
  | [k], es => update k (fun | none => some value | some _ => none) es
  | k :: ks, es =>
    update k (fun
      | none => (assign value ks []).map (.table .dotted)
      | some (.table .dotted sub) => (assign value ks sub).map (.table .dotted)
      | some (.table .implied sub) => (assign value ks sub).map (.table .dotted)
      | some (.tables latest earlier) =>
        if ks.length = 1 then none
        else (assign value ks latest).map fun sub => .tables sub earlier
      | some _ => none) es

/-- Changes the entries of the table that the last header opened, by `f`. -/
def inOpened (f : Entries → Option Entries) : List String → Entries → Option Entries
  | [], es => f es
  | k :: ks, es =>
    update k (fun
      | some (.table origin sub) => (inOpened f ks sub).map (.table origin)
      | some (.tables latest earlier) =>
        (inOpened f ks latest).map fun sub => .tables sub earlier
      | _ => none) es

end Entries

namespace Value

/-- The text of a string, `none` for other values. -/
def string? : Value → Option String
  | string s => some s
  | _ => none

/-- The key of a date's text, where the date is taken for a table. -/
def dateTimeKey : String :=
  "$__toml_private_datetime"

/-- The entries of a table. A date counts as a table that holds its text under `dateTimeKey`. -/
def table? : Value → Option Entries
  | table _ es => some es
  | dateTime v => some [(dateTimeKey, .string v.text)]
  | _ => none

/-- The members of an array, `array` or `tables`. -/
def items? : Value → Option (List Value)
  | array vs => some vs
  | tables latest earlier => some ((latest :: earlier).reverse.map (.table .header))
  | _ => none

/-- The number of an integer, if it is an unsigned 64-bit word. -/
def word64? : Value → Option Nat
  | integer l => l.value?.bind fun i => if 0 ≤ i ∧ i < UInt64.size then some i.toNat else none
  | _ => none

/-! ## Numbers in a value -/

mutual

/-- Every integer in the value has a `value?`, and no float overflows. -/
def isUsable : Value → Bool
  | integer l => l.value?.isSome
  | float f => !f.overflows
  | array vs => itemsUsable vs
  | table _ es => entriesUsable es
  | tables latest earlier => entriesUsable latest && tablesUsable earlier
  | _ => true

def itemsUsable : List Value → Bool
  | [] => true
  | v :: vs => v.isUsable && itemsUsable vs

def entriesUsable : List (String × Value) → Bool
  | [] => true
  | (_, v) :: es => v.isUsable && entriesUsable es

def tablesUsable : List (List (String × Value)) → Bool
  | [] => true
  | es :: ess => entriesUsable es && tablesUsable ess

end

end Value

/-- The values of all keys but `keys` are usable. -/
def Entries.othersUsable (es : Entries) (keys : List String) : Bool :=
  es.all fun e => keys.contains e.1 || e.2.isUsable

end ScopeTokens.Toml
