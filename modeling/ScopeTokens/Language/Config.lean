/-
  ScopeTokens.Language.Config

  The languages that a configuration declares. In a TOML document they are the
  array `language`. Each member has an `id`, may have a `scope-name`, the root
  scope of the language's grammar, and may have a table `embedded-languages` from
  scope prefixes to language names. A member may also list these three values in
  order, without their keys. Other keys are ignored as long as their values are
  usable; what a list has behind the three values may be anything.
-/

import ScopeTokens.Toml.Document

namespace ScopeTokens

/-- Declaration of one language. -/
structure LanguageDecl where
  id : String
  scopeName : Option String
  /-- Pairs of a scope prefix and the name of the language found there, by ascending prefix. -/
  embedded : List (String × String)
  deriving DecidableEq, Repr

/-- Why a configuration cannot be read. -/
inductive ConfigReadError where
  /-- The text is no TOML, or not of this shape. -/
  | parse
  /-- The file is missing, or is not UTF-8. -/
  | unreadable
  deriving DecidableEq, Repr

namespace LanguageDecl

/-- `default` for an absent value; a value that is there has to be read. -/
def optional {α : Type} (read : Toml.Value → Option α) (default : α) :
    Option Toml.Value → Option α
  | none => some default
  | some v => read v

/-- `v` as a table from strings to strings, by ascending key. -/
def stringTable? (v : Toml.Value) : Option (List (String × String)) := do
  let es ← v.table?
  let pairs ← es.mapM fun e => e.2.string?.map (e.1, ·)
  some (pairs.mergeSort fun a b => a.1 ≤ b.1)

/-- The declaration with the given values, of which only `id` is required. -/
def ofParts (id scopeName embedded : Option Toml.Value) : Option LanguageDecl := do
  let id ← id.bind (·.string?)
  let scopeName ← optional (fun v => v.string?.map some) none scopeName
  let embedded ← optional stringTable? [] embedded
  some ⟨id, scopeName, embedded⟩

/-- The keys of a declaration; in a list of values, they come in this order. -/
def keys : List String :=
  ["id", "scope-name", "embedded-languages"]

/-- Reads one member of the array `language`. -/
def ofToml? : Toml.Value → Option LanguageDecl
  | .table _ es =>
    if Toml.Entries.othersUsable es keys then
      ofParts (Toml.Entries.find? es "id") (Toml.Entries.find? es "scope-name")
        (Toml.Entries.find? es "embedded-languages")
    else none
  | v => v.items?.bind fun items => ofParts items[0]? items[1]? items[2]?

end LanguageDecl

/-- The declared languages, in order. -/
structure LanguagesConfig where
  languages : List LanguageDecl
  deriving DecidableEq, Repr

namespace LanguagesConfig

/-- Reads the declarations from the entries of a TOML document; `language` may be absent. -/
def ofEntries? (es : Toml.Entries) : Option LanguagesConfig :=
  if Toml.Entries.othersUsable es ["language"] then
    match Toml.Entries.find? es "language" with
    | none => some ⟨[]⟩
    | some v => v.items?.bind fun items => (items.mapM LanguageDecl.ofToml?).map LanguagesConfig.mk
  else none

/-- Reads the declarations from `text`, a TOML document. -/
def ofText (text : String) : Except ConfigReadError LanguagesConfig :=
  match (Toml.read text.toList).bind ofEntries? with
  | some config => .ok config
  | none => .error .parse

/-- Reads the declarations from the bytes of a file; `none` is a file that is not there. -/
def ofFile (contents : Option ByteArray) : Except ConfigReadError LanguagesConfig :=
  match contents.bind String.fromUTF8? with
  | some text => ofText text
  | none => .error .unreadable

end LanguagesConfig

end ScopeTokens
