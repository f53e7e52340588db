/-
  ScopeTokens.Proofs.Cache.SharedRegistry

  What a cache notices of the registry that it shares. If two registries have the
  same languages and answer alike for each scope, a request gives the same answer
  and the same cache over either, whatever the two were asked before, and they go
  on answering alike (`alike_ask`).
-/

import ScopeTokens.Proofs.Cache.Answers
import ScopeTokens.Proofs.Language.Answering

namespace ScopeTokens

variable {σ : Type} {languages : LanguageTable}
  {answers : ScopeName → Except GrammarError (Option (Grammar σ))}

/-- `a` and `b` have the same answer and cache, and registries that go on serving `answers`. -/
structure Reply.Alike {α : Type} (languages : LanguageTable)
    (answers : ScopeName → Except GrammarError (Option (Grammar σ))) (a b : Reply σ α) : Prop where
  answer : a.answer = b.answer
  cache : a.cache = b.cache
  left : a.registry.Serves languages answers
  right : b.registry.Serves languages answers

theorem Reply.Alike.andRead {α β : Type} {a b : Reply σ α} (h : a.Alike languages answers b)
    (read : TokenCache σ → β) : (a.andRead read).Alike languages answers (b.andRead read) where
  answer := by rw [Reply.andRead, Reply.andRead, h.answer, h.cache]
  cache := h.cache
  left := h.left
  right := h.right

namespace TokenCache

variable {r r' : Registry (Grammar σ)}

theorem alike_parseAll (h : r.Serves languages answers) (h' : r'.Serves languages answers)
    (c : TokenCache σ) (src : LineSource) :
    (c.parseAll r src).Alike languages answers (c.parseAll r' src) := by
  rw [parseAll, parseAll, h.languages_eq, h'.languages_eq]
  cases ((c.lexer languages).run none src.lines).failure with
  | none => exact ⟨rfl, rfl, h, h'⟩
  | some e => exact ⟨rfl, rfl, h, h'⟩

theorem alike_refresh (h : r.Serves languages answers) (h' : r'.Serves languages answers)
    (c : TokenCache σ) (src : LineSource) :
    (c.refresh r src).Alike languages answers (c.refresh r' src) := by
  rw [refresh, refresh, h.languages_eq, h'.languages_eq]
  cases languages.scopeNameOf src.language with
  | none => exact alike_parseAll h h' _ src
  -- one of the registries may know the grammar and the other have to load it
  | some scope =>
    obtain ⟨h_answer, h_serves⟩ := h.loadGrammar scope
    obtain ⟨h_answer', h_serves'⟩ := h'.loadGrammar scope
    rw [← h_answer'] at h_answer
    dsimp only
    generalize r.loadGrammar scope = loaded at h_answer h_serves
    generalize r'.loadGrammar scope = loaded' at h_answer h_serves'
    obtain ⟨answer, registry⟩ := loaded
    obtain ⟨answer', registry'⟩ := loaded'
    subst h_answer
    cases answer with
    | error e => exact ⟨rfl, rfl, h_serves, h_serves'⟩
    | ok grammar => exact alike_parseAll h_serves h_serves' _ src

variable [DecidableEq σ]

theorem alike_onEdit (h : r.Serves languages answers) (h' : r'.Serves languages answers)
    (c : TokenCache σ) (src : LineSource) (changes : List TextChange) :
    (c.onEdit r src changes).Alike languages answers (c.onEdit r' src changes) := by
  rw [onEdit, onEdit, h.languages_eq, h'.languages_eq]
  cases followAll (c.lexer languages) src 0 c (TextChange.sortByStart changes) with
  | absorbed c' => exact ⟨rfl, rfl, h, h'⟩
  | cascaded line c' => exact ⟨rfl, rfl, h, h'⟩
  | outdated c' => exact alike_refresh h h' c' src
  | failed e c' => exact ⟨rfl, rfl, h, h'⟩

theorem alike_validateRange (h : r.Serves languages answers) (h' : r'.Serves languages answers)
    (c : TokenCache σ) (src : LineSource) (range : LineRange) :
    (c.validateRange r src range).Alike languages answers (c.validateRange r' src range) := by
  rw [validateRange, validateRange, h.languages_eq, h'.languages_eq]
  by_cases h_count : c.lineCount ≠ src.lineCount
  · rw [if_pos h_count, if_pos h_count]
    exact alike_refresh h h' c src
  · rw [if_neg h_count, if_neg h_count]
    dsimp only
    cases ((c.lexer languages).healAll src.lines (c.pending ++ [range]) c.lines).failure with
    | none => exact ⟨rfl, rfl, h, h'⟩
    | some e => exact ⟨rfl, rfl, h, h'⟩

/-- A request over registries that serve the same gives `Reply.Alike`. -/
theorem alike_ask (h : r.Serves languages answers) (h' : r'.Serves languages answers)
    (request : CacheRequest) (c : TokenCache σ) (src : LineSource) :
    (request.ask c r src).Alike languages answers (request.ask c r' src) := by
  rw [CacheRequest.ask_eq, CacheRequest.ask_eq]
  apply Reply.Alike.andRead
  obtain ⟨range, h_range⟩ | rfl | ⟨changes, rfl⟩ := request.range?_cases src
  · rw [perform_of_range? h_range, perform_of_range? h_range]
    exact alike_validateRange h h' c src range
  · exact alike_refresh h h' c src
  · exact alike_onEdit h h' c src changes

end TokenCache

end ScopeTokens
