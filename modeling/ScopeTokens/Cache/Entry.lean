/-
  ScopeTokens.Cache.Entry

  What a token cache holds of one line, and how `LineLexer.entry` computes it from
  the text of the line and the state in which the line above ended. `build` first
  puts the raw tokens of the grammar in order: they are sorted by start, empty
  ones are dropped, the first one starts with the line, each of the others runs up
  to the next one, and one that would start no later than the one before it, or
  not within the line, is dropped. A line longer than `maxLineLength` is not given
  to the grammar; the state above it is handed on below it.

  Every way to an entry makes a `TokenLine`, and fails with `textTooLong` on a
  line past the offset range. This goes for default tokens as well, so a line can
  fail without a grammar too.
-/

import ScopeTokens.Cache.Stats
import ScopeTokens.Language.Registry
import ScopeTokens.Scope.Classify
import ScopeTokens.Text.Document
import ScopeTokens.Token.Line

namespace ScopeTokens

/-- Why tokens cannot be had. -/
inductive TokenizeError where
  /-- A grammar failed: on a line, or in being loaded. -/
  | grammar (e : GrammarError)
  /-- The tokens are no partition of their line, or the line is past the offset range. -/
  | partition (e : PartitionError)
  /-- No document is open under `id`. -/
  | unknownDocument (id : DocumentId)
  deriving DecidableEq, Repr

/-- Text of an error. -/
def TokenizeError.message : TokenizeError → String
  | grammar e => e.message
  | partition e => "invalid tokens: " ++ e.message
  | unknownDocument id => "document " ++ id.display ++ " is not open"

/-- The tokens of a line, and the scopes of each in `scopes`, one stack for each token. -/
structure ScopedTokens where
  line : TokenLine
  scopes : List ScopeStack
  deriving DecidableEq, Repr

namespace ScopedTokens

/-- `text` as one token of `language` without scopes, unchecked. -/
def whole (text : String) (language : LanguageId) : ScopedTokens :=
  ⟨.whole text (.defaultFor language), [[]]⟩

/-- The default tokens of `text`: one token of `language` without scopes. -/
def default (text : String) (language : LanguageId) : Except PartitionError ScopedTokens :=
  (TokenLine.single text (.defaultFor language)).map fun line => ⟨line, [[]]⟩

end ScopedTokens

/-- Where the tokens of a line come from. -/
inductive LineOutcome (σ : Type) where
  /-- From the grammar, which left the line in `endState`. -/
  | parsed (endState : σ)
  /-- The line is longer than `maxLineLength` and has default tokens; the state above it, `carried`,
      is handed on below it. -/
  | skipped (carried : Option σ)
  /-- There was no grammar; the line has default tokens. -/
  | plain
  deriving DecidableEq, Repr

/-- What is kept of a line. The tokens were computed from `text`. -/
structure LineEntry (σ : Type) where
  text : String
  tokens : ScopedTokens
  outcome : LineOutcome σ
  deriving DecidableEq, Repr

namespace LineEntry

variable {σ : Type}

/-- The state that the line below starts from. -/
def endState (e : LineEntry σ) : Option σ :=
  match e.outcome with
  | .parsed s => some s
  | .skipped s => s
  | .plain => none

/-- `e` was computed from another text than `live`. -/
def isStale (e : LineEntry σ) (live : String) : Bool :=
  e.text != live

/-- What computing `e` adds to the counters. -/
def work (e : LineEntry σ) : CacheStats :=
  match e.outcome with
  | .parsed _ => .tokenized
  | .skipped _ => .skipped
  | .plain => .zero

/-- The entry of `text` without a grammar, unchecked. -/
def plain (text : String) (language : LanguageId) : LineEntry σ :=
  ⟨text, .whole text language, .plain⟩

/-- The entry of `text` with its default tokens. -/
def ofDefault (text : String) (language : LanguageId) (outcome : LineOutcome σ) :
    Except TokenizeError (LineEntry σ) :=
  match ScopedTokens.default text language with
  | .error e => .error (.partition e)
  | .ok tokens => .ok ⟨text, tokens, outcome⟩

end LineEntry

/-- All that the entry of a line depends on, apart from its text and the state above it. -/
structure LineLexer (σ : Type) where
  grammar : Option (Grammar σ)
  languages : LanguageTable
  language : LanguageId
  maxLineLength : Nat

namespace LineLexer

variable {σ : Type}

/-! ## One line -/

/-- Metadata of a token under `scopes`: its kind by `classify`, its language by `languageForScopes`.
    Tokens of kind `other` are the ones that take part in bracket balancing. -/
def metadataFor (lx : LineLexer σ) (scopes : ScopeStack) : TokenMetadata :=
  let type := classify scopes
  .pack (lx.languages.languageForScopes lx.language scopes) type .plain (type == .other)
    TokenMetadata.defaultForeground TokenMetadata.defaultBackground

/-- Starts and scopes of the tokens of a line of `length` characters, from sorted raw tokens.
    `above` is the start of the token kept before them, `none` if there is none yet: then the first
    raw token that is not empty is kept, with start `0`. -/
def starts (length : Nat) : Option Nat → List RawToken → List (Nat × ScopeStack)
  | _, [] => []
  | above, t :: ts =>
    if t.stop ≤ t.start ∧ 0 < length then starts length above ts
    else match above with
      | none => (0, t.scopes) :: starts length (some 0) ts
      | some start =>
        let start' := min t.start length
        if start' ≤ start ∨ length ≤ start' then starts length above ts
        else (start', t.scopes) :: starts length (some start') ts

/-- Raw tokens by ascending `start`; the sort is stable. -/
def sortRaw (raw : List RawToken) : List RawToken :=
  raw.mergeSort fun a b => a.start ≤ b.start

/-- `starts` of the sorted raw tokens. If none of these is usable, the line is one token in the
    grammar's `own` scope. -/
def kept (own : ScopeName) (length : Nat) (raw : List RawToken) : List (Nat × ScopeStack) :=
  match starts length none (sortRaw raw) with
  | [] => [(0, [own])]
  | ks => ks

/-- The tokens of `text` from the `raw` tokens of a grammar. They are read from a buffer of pairs
    `start, metadata`, which `TokenLine.ofStarts` checks. -/
def build (lx : LineLexer σ) (own : ScopeName) (text : String) (raw : List RawToken) :
    Except PartitionError ScopedTokens :=
  let ks := kept own text.length raw
  let words := ks.flatMap fun k => [UInt32.ofNat k.1, (lx.metadataFor k.2).bits]
  match TokenLine.ofStarts words text with
  | .error e => .error e
  | .ok line => .ok ⟨line, ks.map Prod.snd⟩

/-- The entry of `text`, given the state in which the line above it ended. -/
def entry (lx : LineLexer σ) (text : String) (above : Option σ) :
    Except TokenizeError (LineEntry σ) :=
  match lx.grammar with
  | none => LineEntry.ofDefault text lx.language .plain
  | some g =>
    if lx.maxLineLength < text.length then LineEntry.ofDefault text lx.language (.skipped above)
    else match g.tokenizeLine text above with
      | .error e => .error (.grammar e)
      | .ok answer =>
        match lx.build g.scopeName text answer.tokens with
        | .error e => .error (.partition e)
        | .ok tokens => .ok ⟨text, tokens, .parsed answer.endState⟩

/-! ## Lines from top to bottom -/

/-- Entries computed one after the other, and the error that stopped the computation, if any. -/
structure Run (σ : Type) where
  entries : List (LineEntry σ)
  failure : Option TokenizeError

/-- Computes entries from top to bottom, up to the first error; the first line starts in `above`. -/
def run (lx : LineLexer σ) : Option σ → List String → Run σ
  | _, [] => ⟨[], none⟩
  | above, text :: texts =>
    match lx.entry text above with
    | .error e => ⟨[], some e⟩
    | .ok entry =>
      let rest := lx.run entry.endState texts
      ⟨entry :: rest.entries, rest.failure⟩

/-- `LineEntry.work` of all entries together. -/
def Run.work (r : Run σ) : CacheStats :=
  r.entries.foldl (fun w e => w + e.work) .zero

/-- The entries of a whole document, or the first error. -/
def parse (lx : LineLexer σ) (texts : List String) : Except TokenizeError (List (LineEntry σ)) :=
  let r := lx.run none texts
  match r.failure with
  | some e => .error e
  | none => .ok r.entries

/-- `endState` of the last of `entries`, `none` if there are none. -/
def stateBelow (entries : List (LineEntry σ)) : Option σ :=
  entries.getLast?.bind LineEntry.endState

/-- A run without a failure has one entry for each line. -/
theorem length_run {lx : LineLexer σ} {above : Option σ} {texts : List String}
    (h : (lx.run above texts).failure = none) :
    (lx.run above texts).entries.length = texts.length := by
  induction texts generalizing above with
  | nil => rfl
  | cons t ts ih =>
    simp only [run] at h ⊢
    split at h
    · simp at h
    · rename_i e _
      simp only [List.length_cons] at h ⊢
      rw [ih h]

end LineLexer

end ScopeTokens
