/-
  ScopeTokens.Cache.Config

  Settings of token caches. In a TOML document they are the table `tokenizer`,
  whose only key is `max-line-length`. The table may also list its values in
  order, without their keys. Other tables are ignored as long as their values are
  usable.
-/

import ScopeTokens.Language.Config

namespace ScopeTokens

/-- Settings shared by all token caches. -/
structure CacheConfig where
  /-- Lines of more than this many characters are not given to the grammar. -/
  maxLineLength : Nat
  deriving DecidableEq, Repr

namespace CacheConfig

/-- The settings where none are given: `maxLineLength` is 20000. -/
def initial : CacheConfig := ⟨20000⟩

/-- Settings with the given value, `initial` if it is absent. -/
def ofLength? : Option Toml.Value → Option CacheConfig
  | none => some initial
  | some v => v.word64?.map CacheConfig.mk

/-- Reads the settings from the value of the key `tokenizer`. -/
def ofToml? : Toml.Value → Option CacheConfig
  | .table _ es =>
    if es.all fun e => e.1 == "max-line-length" then
      ofLength? (Toml.Entries.find? es "max-line-length")
    else none
  | v => v.items?.bind fun items => ofLength? items[0]?

/-- Reads the settings from the entries of a TOML document; `tokenizer` may be absent. -/
def ofEntries? (es : Toml.Entries) : Option CacheConfig :=
  if Toml.Entries.othersUsable es ["tokenizer"] then
    match Toml.Entries.find? es "tokenizer" with
    | none => some initial
    | some v => ofToml? v
  else none

/-- Reads the settings from `text`, a TOML document. -/
def ofText (text : String) : Except ConfigReadError CacheConfig :=
  match (Toml.read text.toList).bind ofEntries? with
  | some config => .ok config
  | none => .error .parse

end CacheConfig

end ScopeTokens
