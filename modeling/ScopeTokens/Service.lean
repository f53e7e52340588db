/-
  ScopeTokens.Service

  A token service: the open documents, a token cache for each, and the registry
  that they share. Operations name a document by its identity, and fail with
  `unknownDocument` if none is open under it. Opening a document replaces the one
  that was open under its identity, and leaves it open even if its grammar fails.
-/

import ScopeTokens.Cache.Edit
import ScopeTokens.Cache.Query

namespace ScopeTokens

/-- A document with its token cache. -/
structure OpenDocument (σ : Type) where
  document : Document
  cache : TokenCache σ

/-- The open documents by identity, and the registry and settings that they share. -/
structure TokenService (σ : Type) where
  registry : Registry (Grammar σ)
  config : CacheConfig
  documents : List (DocumentId × OpenDocument σ)

namespace TokenService

variable {σ : Type} [DecidableEq σ]

/-- A service without open documents. -/
def initial (registry : Registry (Grammar σ)) (config : CacheConfig) : TokenService σ :=
  ⟨registry, config, []⟩

/-- The document open under `id`. -/
def get? (s : TokenService σ) (id : DocumentId) : Option (OpenDocument σ) :=
  (s.documents.find? fun e => e.1 == id).map Prod.snd

/-- The documents open under other identities than `id`. -/
def others (s : TokenService σ) (id : DocumentId) : List (DocumentId × OpenDocument σ) :=
  s.documents.filter fun e => e.1 != id

/-- `s` with `document` under its identity, and the cache and registry of `r`. -/
def store {α : Type} (s : TokenService σ) (document : Document) (r : Reply σ α) :
    TokenService σ :=
  { s with
    registry := r.registry
    documents := (document.id, ⟨document, r.cache⟩) :: s.others document.id }

/-- Opens `document` with a new cache. A failure is reported, and the document stays open. -/
def openDocument (s : TokenService σ) (document : Document) :
    Except TokenizeError Unit × TokenService σ :=
  let r := (TokenCache.initial s.config).refresh s.registry document.source
  (r.answer, s.store document r)

/-- Closes `id`; the answer is the document, `none` if it was not open. -/
def close (s : TokenService σ) (id : DocumentId) : Option Document × TokenService σ :=
  ((s.get? id).map OpenDocument.document, { s with documents := s.others id })

/-- A document is open under `id`. -/
def isOpen (s : TokenService σ) (id : DocumentId) : Bool :=
  (s.get? id).isSome

/-- The document open under `id`, without its cache. -/
def document (s : TokenService σ) (id : DocumentId) : Option Document :=
  (s.get? id).map OpenDocument.document

/-- Counters of the cache of `id`. -/
def stats (s : TokenService σ) (id : DocumentId) : Option CacheStats :=
  (s.get? id).map fun d => d.cache.stats

/-- Carries out `op` on the cache of `id`, after `change` of its document. Without an open document
    nothing happens, and the answer is `unknownDocument`. -/
def onDocument {α : Type} (s : TokenService σ) (id : DocumentId) (change : Document → Document)
    (op : TokenCache σ → Registry (Grammar σ) → LineSource → Reply σ α) :
    Except TokenizeError α × TokenService σ :=
  match s.get? id with
  | none => (.error (.unknownDocument id), s)
  | some d =>
    let document := change d.document
    let r := op d.cache s.registry document.source
    (r.answer, s.store document r)

/-- Applies `changes` to the document `id`, and lets its cache follow them. -/
def edit (s : TokenService σ) (id : DocumentId) (changes : List TextChange) :
    Except TokenizeError Unit × TokenService σ :=
  s.onDocument id (fun d => d.applyChanges changes) fun c registry src =>
    c.onEdit registry src changes

/-- Puts the document `id` under `language`, and refreshes its cache. -/
def setLanguage (s : TokenService σ) (id : DocumentId) (language : String) :
    Except TokenizeError Unit × TokenService σ :=
  s.onDocument id (fun d => d.setLanguage language) TokenCache.refresh

/-- Refreshes the cache of `id`. -/
def refresh (s : TokenService σ) (id : DocumentId) :
    Except TokenizeError Unit × TokenService σ :=
  s.onDocument id (fun d => d) TokenCache.refresh

/-- The token at `p` of the document `id`. -/
def tokenAt (s : TokenService σ) (id : DocumentId) (p : Position) :
    Except TokenizeError TokenInfo × TokenService σ :=
  s.onDocument id (fun d => d) fun c registry src => c.tokenAt registry src p

/-- The token at `p` of the document `id` is a comment. -/
def isCommentAt (s : TokenService σ) (id : DocumentId) (p : Position) :
    Except TokenizeError Bool × TokenService σ :=
  s.onDocument id (fun d => d) fun c registry src => c.isCommentAt registry src p

/-- All tokens of line `line` of the document `id`. -/
def lineTokens (s : TokenService σ) (id : DocumentId) (line : Nat) :
    Except TokenizeError (List TokenInfo) × TokenService σ :=
  s.onDocument id (fun d => d) fun c registry src => c.lineTokens registry src line

/-- The tokens of the lines of `range` of the document `id`. -/
def tokensForLines (s : TokenService σ) (id : DocumentId) (range : LineRange) :
    Except TokenizeError (List (List TokenInfo)) × TokenService σ :=
  s.onDocument id (fun d => d) fun c registry src => c.tokensForLines registry src range

/-- The tokens of all lines of the document `id`. -/
def allTokens (s : TokenService σ) (id : DocumentId) :
    Except TokenizeError (List (List TokenInfo)) × TokenService σ :=
  s.onDocument id (fun d => d) TokenCache.allTokens

/-- Caches `grammar` for `scope` in the shared registry. -/
def insertGrammar (s : TokenService σ) (scope : ScopeName) (grammar : Grammar σ) :
    TokenService σ :=
  { s with registry := s.registry.insertGrammar scope grammar }

end TokenService

end ScopeTokens
