/-
  ScopeTokens.Proofs.Cache.Failures

  Which errors a request can answer with. Every request computes lines and looks
  grammars up, and nothing else in it can fail. On lines within the offset range
  `build` does not fail either, so all errors are those of a grammar
  (`ofGrammar_of_ask`), and no `PartitionError` is ever answered
  (`exists_build_and_ofGrammar_of_error`).
-/

import ScopeTokens.Proofs.Cache.Answers
import ScopeTokens.Proofs.Cache.FailingLine

namespace ScopeTokens

/-! ## Requests -/

namespace TokenCache

variable {σ : Type} {c : TokenCache σ} {registry : Registry (Grammar σ)} {src : LineSource}
  {err : TokenizeError}

theorem ofGrammar_of_parseAll (h_fits : FitsOffsets src.lines)
    (h : (c.parseAll registry src).answer = .error err) : err.OfGrammar := by
  unfold parseAll at h
  dsimp only at h
  split at h
  · exact absurd h nofun
  · rename_i err' h_failure
    obtain rfl := Except.error.inj h
    exact (LineLexer.failsOn_of_run h_failure).ofGrammar h_fits

theorem ofGrammar_of_refresh (h_fits : FitsOffsets src.lines)
    (h : (c.refresh registry src).answer = .error err) : err.OfGrammar := by
  unfold refresh at h
  dsimp only at h
  split at h
  · exact ofGrammar_of_parseAll h_fits h
  · split at h
    · rename_i e registry' h_load
      exact ⟨e, (Except.error.inj h).symm⟩
    · exact ofGrammar_of_parseAll h_fits h

variable [DecidableEq σ]

theorem ofGrammar_of_onEdit {changes : List TextChange} (h_fits : FitsOffsets src.lines)
    (h : (c.onEdit registry src changes).answer = .error err) : err.OfGrammar := by
  unfold onEdit at h
  split at h
  · exact absurd h nofun
  · exact absurd h nofun
  · exact ofGrammar_of_refresh h_fits h
  · rename_i err' c' h_failed
    obtain rfl := Except.error.inj h
    exact (failsOn_of_followAll h_failed).ofGrammar h_fits

theorem ofGrammar_of_validateRange {range : LineRange} (h_fits : FitsOffsets src.lines)
    (h : (c.validateRange registry src range).answer = .error err) : err.OfGrammar := by
  unfold validateRange at h
  split at h
  · exact ofGrammar_of_refresh h_fits h
  · dsimp only at h
    split at h
    · exact absurd h nofun
    · rename_i err' h_failure
      obtain rfl := Except.error.inj h
      exact (LineLexer.failsOn_of_healAll h_failure).ofGrammar h_fits

/-- On lines within the offset range, a request fails only if a grammar does, whatever the cache
    is. -/
theorem ofGrammar_of_ask {request : CacheRequest} (h_fits : FitsOffsets src.lines)
    (h : (request.ask c registry src).answer = .error err) : err.OfGrammar := by
  rw [CacheRequest.ask_eq, Reply.answer_andRead_eq_error_iff] at h
  rcases request.range?_cases src with ⟨range, h_range⟩ | rfl | ⟨changes, rfl⟩
  · rw [perform_of_range? h_range] at h
    exact ofGrammar_of_validateRange h_fits h
  · exact ofGrammar_of_refresh h_fits h
  · exact ofGrammar_of_onEdit h_fits h

/-- For every answer `raw` that a grammar can give for a line within the offset range, `build` makes
    `tokens`: they partition `text`, there is one stack of scopes for each, and the buffer of starts
    (`keptWords`) passes `ofEnds` once `endWordsOfStarts` has turned it into ends. So on such lines
    no request is ever answered with a partition error: all errors are `OfGrammar`. -/
theorem exists_build_and_ofGrammar_of_error :
    (∀ (lx : LineLexer σ) (own : ScopeName) (text : String) (raw : List RawToken),
      text.length < UInt32.size →
      ∃ tokens : ScopedTokens, lx.build own text raw = .ok tokens ∧
        TokenLine.ofEnds (TokenLine.endWordsOfStarts (UInt32.ofNat text.length)
          (lx.keptWords own text.length raw)) text = .ok tokens.line ∧
        tokens.line.Partitions text ∧
        tokens.scopes.length = tokens.line.count) ∧
    ∀ (c : TokenCache σ) (registry : Registry (Grammar σ)) (src : LineSource)
      (request : CacheRequest) (err : TokenizeError), FitsOffsets src.lines →
      (request.ask c registry src).answer = .error err → err.OfGrammar := by
  constructor
  · intro lx own text raw h_length
    have h_words := LineLexer.ofStarts_keptWords lx own raw h_length
    rw [TokenLine.ofStarts_eq_ofEnds] at h_words
    refine ⟨lx.keptTokens own text raw, LineLexer.build_eq lx own raw h_length, h_words,
      LineLexer.partitions_keptTokens lx own text raw, ?_⟩
    rw [LineLexer.count_keptTokens]
    exact List.length_map _
  · intro c registry src request err h_fits h_error
    exact ofGrammar_of_ask h_fits h_error

/-- Raw tokens with every fault at once: unsorted, past the line, reversed, empty, and two with one
    start. -/
def faultyTokens : List RawToken :=
  [⟨9, 2 ^ 64 - 1, [⟨"beyond"⟩]⟩, ⟨3, 1, [⟨"reversed"⟩]⟩, ⟨2, 4, [⟨"late"⟩]⟩, ⟨1, 9, [⟨"early"⟩]⟩,
    ⟨2, 3, [⟨"again"⟩]⟩, ⟨0, 0, [⟨"empty"⟩]⟩]

/-- The lexer of `balancedCache`. -/
def balancedLexer : LineLexer Nat :=
  balancedCache.lexer balancedRegistry.languages

theorem exists_build_faultyTokens :
    "añ€de".length < UInt32.size ∧
    (∃ tokens : ScopedTokens,
      balancedLexer.build ⟨"source.balanced"⟩ "añ€de" faultyTokens = .ok tokens ∧
      TokenLine.ofEnds (TokenLine.endWordsOfStarts (UInt32.ofNat "añ€de".length)
        (balancedLexer.keptWords ⟨"source.balanced"⟩ "añ€de".length faultyTokens)) "añ€de" =
          .ok tokens.line ∧
      tokens.line.Partitions "añ€de" ∧
      tokens.scopes.length = tokens.line.count ∧
      tokens.scopes = [[⟨"early"⟩], [⟨"late"⟩]]) ∧
    FitsOffsets (balancedDocument.applyChanges closingChanges).source.lines ∧
    ((CacheRequest.onEdit closingChanges).ask balancedCache balancedRegistry
      (balancedDocument.applyChanges closingChanges).source).answer =
        .error (.grammar (.tokenizeFailed ⟨"source.balanced"⟩ "nothing to close")) ∧
    (TokenizeError.grammar (.tokenizeFailed ⟨"source.balanced"⟩ "nothing to close")).OfGrammar := by
  have h_length : "añ€de".length < UInt32.size := by decide
  have h_error : ((CacheRequest.onEdit closingChanges).ask balancedCache balancedRegistry
      (balancedDocument.applyChanges closingChanges).source).answer =
        .error (.grammar (.tokenizeFailed ⟨"source.balanced"⟩ "nothing to close")) := by cbv
  have h_fits : FitsOffsets (balancedDocument.applyChanges closingChanges).source.lines := by
    have h_lines : (balancedDocument.applyChanges closingChanges).source.lines =
        ["(x(", "b", ")", ")", ")"] := by cbv
    rw [h_lines]
    decide
  have h_scopes : (balancedLexer.build ⟨"source.balanced"⟩ "añ€de" faultyTokens).map
      ScopedTokens.scopes = .ok [[⟨"early"⟩], [⟨"late"⟩]] := by cbv
  obtain ⟨h_all, h_ofGrammar⟩ := exists_build_and_ofGrammar_of_error (σ := Nat)
  obtain ⟨tokens, h_build, h_words, h_partitions, h_count⟩ :=
    h_all balancedLexer ⟨"source.balanced"⟩ "añ€de" faultyTokens h_length
  rw [h_build] at h_scopes
  exact ⟨h_length, ⟨tokens, h_build, h_words, h_partitions, h_count, Except.ok.inj h_scopes⟩,
    h_fits, h_error, h_ofGrammar _ _ _ _ _ h_fits h_error⟩

end TokenCache

end ScopeTokens
