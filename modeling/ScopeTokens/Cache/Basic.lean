/-
  ScopeTokens.Cache.Basic

  Token caches. A `TokenCache` belongs to one document and has an entry for each
  line. Every operation is given the lines of the document as they are now and the
  registry that all caches share, and its `Reply` has the cache and the registry
  as they are afterwards. If anything fails, `degrade` drops the grammar and makes
  default tokens for every line; this stays so until a refresh succeeds. If a line
  is past the offset range, default tokens fail as well, and the cache is left
  without lines.
-/

import ScopeTokens.Cache.Config
import ScopeTokens.Cache.Entry
import ScopeTokens.Cache.Pending

namespace ScopeTokens

/-- The tokens of one document, line by line. -/
structure TokenCache (σ : Type) where
  config : CacheConfig
  /-- Name of the document's language when `refresh` last looked it up; `languageId` is its
      number. -/
  language : String
  languageId : LanguageId
  grammar : Option (Grammar σ)
  /-- An operation failed, and no refresh has succeeded since. -/
  degraded : Bool
  lines : List (LineEntry σ)
  /-- Line ranges that edits touched and no query has settled since. -/
  pending : PendingLog
  stats : CacheStats

/-- Answer of an operation, with the cache and the shared registry afterwards. -/
structure Reply (σ α : Type) where
  answer : Except TokenizeError α
  cache : TokenCache σ
  registry : Registry (Grammar σ)

/-- `r` with its answer, if it is one, replaced by `read` of the cache. -/
def Reply.andRead {σ α β : Type} (r : Reply σ α) (read : TokenCache σ → β) : Reply σ β :=
  { r with answer := r.answer.map fun _ => read r.cache }

namespace TokenCache

variable {σ : Type}

/-- A cache as it is before the first `refresh`: no lines, no language. -/
def initial (config : CacheConfig) : TokenCache σ where
  config := config
  language := ""
  languageId := .none
  grammar := none
  degraded := false
  lines := []
  pending := []
  stats := .zero

/-- `c.grammar` is there. -/
def hasGrammar (c : TokenCache σ) : Bool :=
  c.grammar.isSome

/-- Number of cached lines. -/
def lineCount (c : TokenCache σ) : Nat :=
  c.lines.length

/-- What entries depend on, as the cache has it. -/
def lexer (c : TokenCache σ) (languages : LanguageTable) : LineLexer σ where
  grammar := c.grammar
  languages := languages
  language := c.languageId
  maxLineLength := c.config.maxLineLength

/-- `c` with `work` added to its counters. -/
def worked (c : TokenCache σ) (work : CacheStats) : TokenCache σ :=
  { c with stats := c.stats + work }

/-- Default tokens for every line of `src`, or `[]` if one of its lines has none. -/
def defaultLines (c : TokenCache σ) (src : LineSource) : List (LineEntry σ) :=
  match src.lines.mapM fun text => LineEntry.ofDefault text c.languageId .plain with
  | .ok entries => entries
  | .error _ => []

/-- `c` after a failure on `src`: degraded, without a grammar, `defaultLines`, and an empty log. -/
def degrade (c : TokenCache σ) (src : LineSource) : TokenCache σ :=
  { c with
    grammar := none
    degraded := true
    lines := c.defaultLines src
    pending := [] }

/-- Computes all entries of `src` from the top, with the grammar that `c` holds. -/
def parseAll (c : TokenCache σ) (registry : Registry (Grammar σ)) (src : LineSource) :
    Reply σ Unit :=
  let run := (c.lexer registry.languages).run none src.lines
  let c' := c.worked run.work
  match run.failure with
  | none => ⟨.ok (), { c' with degraded := false, lines := run.entries, pending := [] }, registry⟩
  | some e => ⟨.error e, c'.degrade src, registry⟩

/-- Looks up the language and the grammar of `src`, and computes all entries from the top. A grammar
    that cannot be loaded degrades the cache, one that does not exist leaves it `plain`. -/
def refresh (c : TokenCache σ) (registry : Registry (Grammar σ)) (src : LineSource) :
    Reply σ Unit :=
  let c' := { c.worked .refresh with
    language := src.language
    languageId := registry.languages.idOf src.language
    grammar := none }
  match registry.languages.scopeNameOf src.language with
  | none => c'.parseAll registry src
  | some scope =>
    match registry.loadGrammar scope with
    | (.error e, registry') => ⟨.error (.grammar e), c'.degrade src, registry'⟩
    | (.ok grammar, registry') => { c' with grammar := grammar }.parseAll registry' src

/-! ## After a failure -/

theorem hasGrammar_degrade (c : TokenCache σ) (src : LineSource) :
    (c.degrade src).hasGrammar = false := rfl

end TokenCache

end ScopeTokens
