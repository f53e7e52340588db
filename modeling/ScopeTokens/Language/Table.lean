/-
  ScopeTokens.Language.Table

  The table of registered languages. Languages are numbered from one in the order
  of registration, and the first is always plain text. A language may declare that
  scopes with some prefix, in its own documents, belong to another language. Of
  several prefixes that cover a scope the longest counts, and of several scopes of
  a token the innermost that is covered (`languageForScopes`).
-/

import ScopeTokens.Language.Config
import ScopeTokens.Language.Id
import ScopeTokens.Scope.Name
import ScopeTokens.Text.Quoted

namespace ScopeTokens

/-- A registered language. -/
structure Language where
  name : String
  scopeName : Option ScopeName
  /-- Pairs of a scope prefix and the language found there, the longest prefix first. -/
  embedded : List (ScopeName × LanguageId)
  deriving DecidableEq, Repr

/-- Why a registration is refused. -/
inductive RegistrationError where
  | duplicateLanguage (name : String)
  | unknownLanguage (name : String)
  | tooManyLanguages
  deriving DecidableEq, Repr

/-- Registered languages, in the order of their numbers. -/
structure LanguageTable where
  languages : List Language
  deriving DecidableEq, Repr

namespace LanguageTable

/-- Number of languages at most, plain text included; `idAt` stays within a byte. -/
def capacity : Nat := 255

/-- The name of plain text. -/
def plainTextName : String := "plaintext"

/-- The table with plain text alone. -/
def initial : LanguageTable :=
  ⟨[⟨plainTextName, none, []⟩]⟩

/-- The number of the language at `index` in the table. -/
def idAt (index : Nat) : LanguageId :=
  ⟨UInt8.ofNat (index + 1)⟩

/-- The number of the first language called `name`. -/
def find? (t : LanguageTable) (name : String) : Option LanguageId :=
  (t.languages.findIdx? fun l => l.name == name).map idAt

/-- The number of the language called `name`, `LanguageId.none` if there is none. -/
def idOf (t : LanguageTable) (name : String) : LanguageId :=
  (t.find? name).getD LanguageId.none

/-- The language with number `id`. -/
def get? (t : LanguageTable) (id : LanguageId) : Option Language :=
  if id.isNone then none else t.languages[id.raw.toNat - 1]?

/-- The name of the language with number `id`. -/
def nameOf (t : LanguageTable) (id : LanguageId) : Option String :=
  (t.get? id).map Language.name

/-- The root scope for the language called `name`, if it has a grammar. -/
def scopeNameOf (t : LanguageTable) (name : String) : Option ScopeName :=
  (t.find? name).bind fun id => (t.get? id).bind Language.scopeName

/-- The numbers and names of all languages, in order. -/
def list (t : LanguageTable) : List (LanguageId × String) :=
  t.languages.zipIdx.map fun (l, i) => (idAt i, l.name)

/-- Registers a language under the next free number. A name that is taken is refused before a table
    that is full. -/
def register (t : LanguageTable) (name : String) (scopeName : Option String) :
    Except RegistrationError (LanguageId × LanguageTable) :=
  if (t.find? name).isSome then .error (.duplicateLanguage name)
  else if capacity ≤ t.languages.length then .error .tooManyLanguages
  else .ok (idAt t.languages.length, ⟨t.languages ++ [⟨name, scopeName.map ScopeName.mk, []⟩]⟩)

/-- Puts `entry` before the first prefix that is shorter than its own, in UTF-8 bytes. -/
def insertPrefix (entry : ScopeName × LanguageId) :
    List (ScopeName × LanguageId) → List (ScopeName × LanguageId)
  | [] => [entry]
  | e :: es =>
    if e.1.name.utf8ByteSize < entry.1.name.utf8ByteSize then entry :: e :: es
    else e :: insertPrefix entry es

/-- Declares that scopes with prefix `scopePrefix`, in documents of `host`, belong to `embedded`. -/
def registerEmbedded (t : LanguageTable) (host scopePrefix embedded : String) :
    Except RegistrationError LanguageTable :=
  match t.languages.findIdx? fun l => l.name == host with
  | none => .error (.unknownLanguage host)
  | some i =>
    match t.find? embedded with
    | none => .error (.unknownLanguage embedded)
    | some id =>
      .ok ⟨t.languages.modify i fun l =>
        { l with embedded := insertPrefix (⟨scopePrefix⟩, id) l.embedded }⟩

/-- The language of the first prefix in `embedded` that covers `scope`. -/
def embeddedFor (embedded : List (ScopeName × LanguageId)) (scope : ScopeName) :
    Option LanguageId :=
  (embedded.find? fun e => scope.hasSegmentPrefix e.1.name).map Prod.snd

/-- The language of a token under `scopes` in a document of `host`: that of the innermost scope with
    a language of its own, and `host` if no scope has one. -/
def languageForScopes (t : LanguageTable) (host : LanguageId) (scopes : ScopeStack) :
    LanguageId :=
  match t.get? host with
  | none => host
  | some l => (scopes.reverse.findSome? (embeddedFor l.embedded)).getD host

/-- Registers the languages of a configuration, in order, up to the first that is refused. -/
def registerAll (t : LanguageTable) : List LanguageDecl → Except RegistrationError LanguageTable
  | [] => .ok t
  | d :: ds =>
    match t.register d.id d.scopeName with
    | .error e => .error e
    | .ok (_, t') => t'.registerAll ds

/-- Registers the embedded languages of `host`, in order, up to the first that is refused. -/
def embedAll (t : LanguageTable) (host : String) :
    List (String × String) → Except RegistrationError LanguageTable
  | [] => .ok t
  | (scopePrefix, embedded) :: es =>
    match t.registerEmbedded host scopePrefix embedded with
    | .error e => .error e
    | .ok t' => t'.embedAll host es

/-- Registers the embedded languages of all declarations, in order. -/
def embedDecls (t : LanguageTable) : List LanguageDecl → Except RegistrationError LanguageTable
  | [] => .ok t
  | d :: ds =>
    match t.embedAll d.id d.embedded with
    | .error e => .error e
    | .ok t' => t'.embedDecls ds

/-- The table for `config`. All languages are registered before any prefix, so that a language may
    embed one that is declared after it. -/
def ofConfig (config : LanguagesConfig) : Except RegistrationError LanguageTable :=
  match initial.registerAll config.languages with
  | .error e => .error e
  | .ok t => t.embedDecls config.languages

end LanguageTable

/-- Text of a refusal, with the name quoted. -/
def RegistrationError.message : RegistrationError → String
  | duplicateLanguage name => "language " ++ quoted name ++ " is registered twice"
  | unknownLanguage name => "embedded language " ++ quoted name ++ " is not registered"
  | tooManyLanguages =>
    "too many languages: at most " ++ toString (LanguageTable.capacity - 1) ++ " can be registered"

end ScopeTokens
