/-
  ScopeTokens.Proofs.Cache.InStep

  Caches in step with their document: `c.lines` is what `parse` gives for the
  document's lines, under the grammar and language that the cache has (`InStep`).
  Equivalently, the entries are chained and have the texts of the document
  (`inStep_iff`). A refresh puts a cache in step or degrades it, whatever it held
  before (`Reply.Settled`).
-/

import Mathlib
import ScopeTokens.Cache.Basic
import ScopeTokens.Proofs.Cache.Chain

namespace ScopeTokens

theorem Registry.languages_loadGrammar {G : Type} (r : Registry G) (scope : ScopeName) :
    (r.loadGrammar scope).2.languages = r.languages := by
  unfold loadGrammar
  split
  · rfl
  · split
    · rfl
    · dsimp only
      split <;> rfl

namespace TokenCache

variable {σ : Type}

/-- The texts that the entries of `c` were computed from. -/
def texts (c : TokenCache σ) : List String :=
  c.lines.map LineEntry.text

theorem length_texts (c : TokenCache σ) : c.texts.length = c.lineCount :=
  List.length_map _

/-- The entries of `c` are chained, from the top. -/
def Consistent (languages : LanguageTable) (c : TokenCache σ) : Prop :=
  LineLexer.Chained (c.lexer languages) none c.lines

/-- The entries of `c` are the full parse of `src`. -/
def InStep (languages : LanguageTable) (c : TokenCache σ) (src : LineSource) : Prop :=
  (c.lexer languages).parse src.lines = .ok c.lines

theorem inStep_iff {languages : LanguageTable} {c : TokenCache σ} {src : LineSource} :
    InStep languages c src ↔ Consistent languages c ∧ c.texts = src.lines :=
  LineLexer.parse_eq_ok_iff

theorem InStep.lineCount_eq {languages : LanguageTable} {c : TokenCache σ} {src : LineSource}
    (h : InStep languages c src) : c.lineCount = src.lineCount := by
  rw [← length_texts, (inStep_iff.1 h).2]
  rfl

/-! ## Failures -/

theorem lines_degrade (c : TokenCache σ) {src : LineSource} (h : FitsOffsets src.lines) :
    (c.degrade src).lines = src.lines.map fun text => .plain text c.languageId := by
  rw [degrade, defaultLines, LineEntry.mapM_ofDefault h]

/-- `degrade` leaves no entry if a line of `src` is past the offset range. -/
theorem lines_degrade_of_not_fits (c : TokenCache σ) {src : LineSource}
    (h : ¬ FitsOffsets src.lines) : (c.degrade src).lines = [] := by
  obtain ⟨err, h_err⟩ :=
    LineEntry.exists_mapM_ofDefault_eq_error (σ := σ) h c.languageId
  rw [degrade, defaultLines, h_err]

theorem length_lines_degrade (c : TokenCache σ) {src : LineSource} (h : FitsOffsets src.lines) :
    (c.degrade src).lines.length = src.lineCount := by
  rw [lines_degrade c h]
  exact List.length_map _

theorem exists_plain_of_mem_degrade {c : TokenCache σ} {src : LineSource} {e : LineEntry σ}
    (h : e ∈ (c.degrade src).lines) : ∃ text, e = .plain text c.languageId := by
  by_cases h_fits : FitsOffsets src.lines
  · rw [lines_degrade c h_fits] at h
    obtain ⟨text, -, rfl⟩ := List.mem_map.1 h
    exact ⟨text, rfl⟩
  · rw [lines_degrade_of_not_fits c h_fits] at h
    exact absurd h List.not_mem_nil

theorem consistent_degrade (languages : LanguageTable) (c : TokenCache σ) (src : LineSource) :
    Consistent languages (c.degrade src) := by
  have h_none : ((c.degrade src).lexer languages).grammar = none := rfl
  by_cases h : FitsOffsets src.lines
  · rw [Consistent, lines_degrade c h]
    exact LineLexer.chained_map_plain h_none h none
  · rw [Consistent, lines_degrade_of_not_fits c h]
    trivial

end TokenCache

/-! ## Refreshing -/

open TokenCache in
/-- A refresh or re-parse of `src`: the cache is in step with it, or it failed and is degraded. -/
inductive Reply.Settled {σ : Type} (languages : LanguageTable) (src : LineSource) :
    Reply σ Unit → Prop
  | inStep {c : TokenCache σ} {registry : Registry (Grammar σ)}
    (h_languages : registry.languages = languages) (h : InStep languages c src)
    (h_degraded : c.degraded = false) (h_pending : c.pending = []) :
    Settled languages src ⟨.ok (), c, registry⟩
  | degraded (e : TokenizeError) (c : TokenCache σ) {registry : Registry (Grammar σ)}
    (h_languages : registry.languages = languages) :
    Settled languages src ⟨.error e, c.degrade src, registry⟩

namespace Reply.Settled

open TokenCache

variable {σ : Type} {languages : LanguageTable} {src : LineSource} {r : Reply σ Unit}

theorem languages_eq (h : r.Settled languages src) : r.registry.languages = languages := by
  cases h with
  | inStep h_languages => exact h_languages
  | degraded _ _ h_languages => exact h_languages

theorem inStep_of_ok (h : r.Settled languages src) (h_ok : r.answer = .ok ()) :
    InStep r.registry.languages r.cache src := by
  cases h with
  | inStep h_languages h =>
    rw [← h_languages] at h
    exact h
  | degraded => exact absurd h_ok nofun

theorem consistent (h : r.Settled languages src) : Consistent languages r.cache := by
  cases h with
  | inStep _ h => exact (inStep_iff.1 h).1
  | degraded e c _ => exact consistent_degrade languages c src

end Reply.Settled

namespace TokenCache

variable {σ : Type}

theorem answer_parseAll (c : TokenCache σ) (registry : Registry (Grammar σ)) (src : LineSource) :
    (c.parseAll registry src).answer =
      match ((c.lexer registry.languages).run none src.lines).failure with
      | none => .ok ()
      | some e => .error e := by
  unfold parseAll
  dsimp only
  cases ((c.lexer registry.languages).run none src.lines).failure <;> rfl

theorem settled_parseAll (c : TokenCache σ) (registry : Registry (Grammar σ)) (src : LineSource) :
    (c.parseAll registry src).Settled registry.languages src := by
  unfold parseAll
  dsimp only
  cases h_failure : ((c.lexer registry.languages).run none src.lines).failure with
  | some e => exact .degraded e _ rfl
  | none =>
    -- lines computed from the top are chained, and hold the lines they were computed from
    refine .inStep rfl ?_ rfl rfl
    refine inStep_iff.2 ⟨LineLexer.chained_run _ none src.lines, ?_⟩
    exact LineLexer.map_text_run_of_ok h_failure

theorem settled_refresh (c : TokenCache σ) (registry : Registry (Grammar σ)) (src : LineSource) :
    (c.refresh registry src).Settled registry.languages src := by
  unfold refresh
  dsimp only
  cases registry.languages.scopeNameOf src.language with
  | none => exact settled_parseAll _ registry src
  | some scope =>
    dsimp only
    have h_languages := registry.languages_loadGrammar scope
    cases h_load : registry.loadGrammar scope with
    | mk answer registry' =>
      rw [h_load] at h_languages
      cases answer with
      | error e => exact .degraded (.grammar e) _ h_languages
      | ok grammar =>
        have h := settled_parseAll { c.worked .refresh with
          language := src.language
          languageId := registry.languages.idOf src.language
          grammar := grammar } registry' src
        rw [h_languages] at h
        exact h

theorem consistent_refresh (c : TokenCache σ) (registry : Registry (Grammar σ)) (src : LineSource) :
    Consistent registry.languages (c.refresh registry src).cache :=
  (settled_refresh c registry src).consistent

/-! ## A grammar of parentheses -/

/-- A grammar that gives no tokens; its state is the number of `(` so far. -/
def parenGrammar : Grammar Nat where
  scopeName := ⟨"source.parens"⟩
  tokenizeLine text above := .ok ⟨[], above.getD 0 + text.toList.count '('⟩

/-- Plain text, and a language `parens` under that grammar. -/
def parenRegistry : Registry (Grammar Nat) :=
  (Registry.ofLanguages ⟨[⟨"plaintext", none, []⟩, ⟨"parens", some ⟨"source.parens"⟩, []⟩]⟩)
    |>.registerGrammar parenGrammar

/-- A document whose first break is a lone `\r`. -/
def parenDocument : Document :=
  .new ⟨0⟩ "parens" "a\rb\nc\nd\ne\nf"

/-- The cache of `parenDocument` once it is opened. -/
def parenCache : TokenCache Nat :=
  ((initial .initial).refresh parenRegistry parenDocument.source).cache

theorem inStep_parenCache : InStep parenRegistry.languages parenCache parenDocument.source := by
  have h := settled_refresh (initial .initial) parenRegistry parenDocument.source
  rw [← h.languages_eq]
  exact h.inStep_of_ok (by cbv)

end TokenCache

end ScopeTokens
