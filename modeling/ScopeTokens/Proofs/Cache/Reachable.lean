/-
  ScopeTokens.Proofs.Cache.Reachable

  The caches that any use of the operations can lead to. The document need not be
  the same from one request to the next, nor need the changes of an edit be what
  happened to it, so a cache may hold lines that the document does not have. Its
  entries are chained all the same (`Reachable.consistent`); so once validations
  have covered every line, in whatever order, the cache is in step
  (`consistent_and_inStep_validateRanges`).
-/

import ScopeTokens.Cache.Query
import ScopeTokens.Proofs.Cache.EditSteps
import ScopeTokens.Proofs.Cache.Healing

namespace ScopeTokens

/-! ## Requests -/

/-- The requests that a cache takes. `refresh` also opens it. -/
inductive CacheRequest where
  | refresh
  | onEdit (changes : List TextChange)
  | validateRange (range : LineRange)
  | validateLine (line : Nat)
  | validateDocument
  | tokenAt (p : Position)
  | tokenTypeAt (p : Position)
  | isCommentAt (p : Position)
  | lineTokens (line : Nat)
  | tokensForLines (range : LineRange)
  | allTokens
  | lineArray (line : Nat)
  | runAt (p : Position)

/-- `r` without what it answers. -/
def Reply.done {σ α : Type} (r : Reply σ α) : Reply σ Unit :=
  r.andRead fun _ => ()

theorem Reply.done_andRead {σ α β : Type} (r : Reply σ α) (read : TokenCache σ → β) :
    (r.andRead read).done = r.done := by
  cases h : r.answer <;> simp [done, andRead, h, Except.map]

theorem Reply.done_unit {σ : Type} (r : Reply σ Unit) : r.done = r := by
  obtain ⟨answer, cache, registry⟩ := r
  cases answer <;> rfl

/-- Carries out a request, and leaves its answer out. -/
def CacheRequest.perform {σ : Type} [DecidableEq σ] (request : CacheRequest) (c : TokenCache σ)
    (registry : Registry (Grammar σ)) (src : LineSource) : Reply σ Unit :=
  match request with
  | refresh => c.refresh registry src
  | onEdit changes => c.onEdit registry src changes
  | validateRange range => c.validateRange registry src range
  | validateLine line => c.validateLine registry src line
  | validateDocument => c.validateDocument registry src
  | tokenAt p => (c.tokenAt registry src p).done
  | tokenTypeAt p => (c.tokenTypeAt registry src p).done
  | isCommentAt p => (c.isCommentAt registry src p).done
  | lineTokens line => (c.lineTokens registry src line).done
  | tokensForLines range => (c.tokensForLines registry src range).done
  | allTokens => (c.allTokens registry src).done
  | lineArray line => (c.lineArray registry src line).done
  | runAt p => (c.runAt registry src p).done

/-- The lines that a request validates, `none` for `refresh` and `onEdit`. -/
def CacheRequest.range? (src : LineSource) : CacheRequest → Option LineRange
  | refresh => none
  | onEdit _ => none
  | validateRange range => some range
  | validateLine line => some ⟨line, line + 1⟩
  | validateDocument => some ⟨0, src.lineCount⟩
  | tokenAt p => some ⟨p.line, p.line + 1⟩
  | tokenTypeAt p => some ⟨p.line, p.line + 1⟩
  | isCommentAt p => some ⟨p.line, p.line + 1⟩
  | lineTokens line => some ⟨line, line + 1⟩
  | tokensForLines range => some range
  | allTokens => some ⟨0, src.lineCount⟩
  | lineArray line => some ⟨line, line + 1⟩
  | runAt p => some ⟨p.line, p.line + 1⟩

/-- Every request validates a range, or is `refresh` or `onEdit`. -/
theorem CacheRequest.range?_cases (request : CacheRequest) (src : LineSource) :
    (∃ range, request.range? src = some range) ∨ request = .refresh ∨
      ∃ changes, request = .onEdit changes := by
  cases request <;> simp [range?]

namespace TokenCache

theorem InStep.fresh {σ : Type} {languages : LanguageTable} {c : TokenCache σ} {src : LineSource}
    (h : InStep languages c src) (line : Nat) : LineLexer.Fresh src.lines c.lines line := by
  rw [LineLexer.Fresh, ← List.getElem?_map]
  exact congrArg (fun texts : List String => texts[line]?) (inStep_iff.1 h).2

variable {σ : Type} [DecidableEq σ]

theorem perform_of_range? {request : CacheRequest} {c : TokenCache σ}
    {registry : Registry (Grammar σ)} {src : LineSource} {range : LineRange}
    (h : request.range? src = some range) :
    request.perform c registry src = c.validateRange registry src range := by
  cases request <;> cases h <;>
    simp only [CacheRequest.perform, tokenAt, tokenTypeAt, isCommentAt, lineTokens, tokensForLines,
      allTokens, lineArray, runAt, Reply.done_andRead, Reply.done_unit] <;> rfl

/-- The caches that requests lead to from a new one, under one table of languages. Each request has
    its own document, and its own registry with that table. -/
inductive Reachable (languages : LanguageTable) : TokenCache σ → Prop
  | initial (config : CacheConfig) : Reachable languages (.initial config)
  | perform {c : TokenCache σ} (h : Reachable languages c) (request : CacheRequest)
    (registry : Registry (Grammar σ)) (h_languages : registry.languages = languages)
    (src : LineSource) : Reachable languages (request.perform c registry src).cache

/-! ## Validating -/

/-- `validateRange` refreshes the cache, heals it, or fails in healing it. -/
inductive Validated (c : TokenCache σ) (registry : Registry (Grammar σ)) (src : LineSource)
    (range : LineRange) : Reply σ Unit → Prop
  | refreshed (h : c.lineCount ≠ src.lineCount) :
    Validated c registry src range (c.refresh registry src)
  | healed {c' : TokenCache σ} (h_count : c.lineCount = src.lineCount)
    (h_settings : SameSettings c c') (h_pending : c'.pending = [])
    (h : LineLexer.Healed (c.lexer registry.languages) src.lines (c.pending ++ [range]) c.lines
      c'.lines) : Validated c registry src range ⟨.ok (), c', registry⟩
  | failed (e : TokenizeError) (c' : TokenCache σ) :
    Validated c registry src range ⟨.error e, c'.degrade src, registry⟩

theorem validated_validateRange (c : TokenCache σ) (registry : Registry (Grammar σ))
    (src : LineSource) (range : LineRange) :
    Validated c registry src range (c.validateRange registry src range) := by
  unfold validateRange
  by_cases h_count : c.lineCount = src.lineCount
  · rw [if_neg (not_not_intro h_count)]
    cases h_failure : ((c.lexer registry.languages).healAll src.lines (c.pending ++ [range])
        c.lines).failure with
    | some e =>
      simp only [h_failure]
      exact .failed e _
    | none =>
      simp only [h_failure]
      exact .healed h_count ⟨rfl, rfl, rfl, rfl⟩ rfl
        (LineLexer.healed_healAll (c.pending ++ [range]) h_count h_failure)
  · rw [if_pos h_count]
    exact .refreshed h_count

/-! ## Entries stay chained -/

variable {languages : LanguageTable} {c : TokenCache σ} {registry : Registry (Grammar σ)}

theorem consistent_onEdit (h : Consistent registry.languages c) (src : LineSource)
    (changes : List TextChange) :
    Consistent registry.languages (c.onEdit registry src changes).cache :=
  (edited_onEdit c registry src changes).consistent h

theorem consistent_validateRange (h : Consistent registry.languages c) (src : LineSource)
    (range : LineRange) :
    Consistent registry.languages (c.validateRange registry src range).cache := by
  have h_validated := validated_validateRange c registry src range
  generalize c.validateRange registry src range = r at h_validated
  cases h_validated with
  | refreshed h_count => exact consistent_refresh c registry src
  | healed h_count h_settings h_pending h_healed =>
    rw [Consistent, h_settings.lexer_eq]
    exact h_healed.chained h
  | failed e c' => exact consistent_degrade registry.languages c' src

theorem consistent_perform (h : Consistent registry.languages c) (src : LineSource)
    (request : CacheRequest) :
    Consistent registry.languages (request.perform c registry src).cache := by
  rcases request.range?_cases src with ⟨range, h_range⟩ | rfl | ⟨changes, rfl⟩
  · rw [perform_of_range? h_range]
    exact consistent_validateRange h src range
  · exact consistent_refresh c registry src
  · exact consistent_onEdit h src changes

theorem Reachable.consistent (h : Reachable languages c) : Consistent languages c := by
  induction h with
  | initial config => trivial
  | perform h request registry h_languages src ih =>
    subst h_languages
    exact consistent_perform ih src request

/-! ## Validating line by line -/

/-- `validateRange` for each of the ranges, in order, up to the first failure. -/
def validateRanges (c : TokenCache σ) (registry : Registry (Grammar σ)) (src : LineSource) :
    List LineRange → Reply σ Unit
  | [] => ⟨.ok (), c, registry⟩
  | range :: ranges =>
    let r := c.validateRange registry src range
    match r.answer with
    | .error _ => r
    | .ok () => r.cache.validateRanges r.registry src ranges

/-- What a validation of `ranges` without a failure leaves: as many entries as lines, still chained,
    and the lines of `ranges` with their live texts. -/
structure Refreshed (c : TokenCache σ) (registry : Registry (Grammar σ)) (src : LineSource)
    (ranges : List LineRange) (r : Reply σ Unit) : Prop where
  languages : r.registry.languages = registry.languages
  lineCount : r.cache.lineCount = src.lineCount
  consistent : Consistent registry.languages c → Consistent registry.languages r.cache
  fresh : LineLexer.Freshens src.lines ranges c.lines r.cache.lines

theorem refreshed_validateRange {src : LineSource} {range : LineRange}
    (h_ok : (c.validateRange registry src range).answer = .ok ()) :
    Refreshed c registry src [range] (c.validateRange registry src range) := by
  have h_consistent (h : Consistent registry.languages c) := consistent_validateRange h src range
  have h_validated := validated_validateRange c registry src range
  generalize c.validateRange registry src range = r at *
  cases h_validated with
  -- a refresh makes every line fresh, those of the range among them
  | refreshed h_count =>
    have h_settled := settled_refresh c registry src
    have h_sync := h_settled.inStep_of_ok h_ok
    exact ⟨h_settled.languages_eq, h_sync.lineCount_eq, h_consistent,
      fun line _ => h_sync.fresh line⟩
  | healed h_count h_settings h_pending h_healed =>
    refine ⟨rfl, h_healed.length.trans h_count, h_consistent, fun line h => h_healed.fresh line ?_⟩
    rcases h with h_fresh | ⟨r, h_r, h_line⟩
    · exact .inl h_fresh
    · exact .inr ⟨r, List.mem_append_right _ h_r, h_line⟩
  | failed e c' => exact absurd h_ok nofun

theorem refreshed_validateRanges {src : LineSource} {ranges : List LineRange}
    (h_count : ranges = [] → c.lineCount = src.lineCount)
    (h_ok : (c.validateRanges registry src ranges).answer = .ok ()) :
    Refreshed c registry src ranges (c.validateRanges registry src ranges) := by
  induction ranges generalizing c registry with
  | nil =>
    exact ⟨rfl, h_count rfl, id, LineLexer.freshens_nil src.lines c.lines⟩
  | cons range ranges ih =>
    rw [validateRanges] at h_ok ⊢
    cases h_first : (c.validateRange registry src range).answer with
    | error e =>
      simp only [h_first] at h_ok
      exact absurd h_ok nofun
    | ok =>
      simp only [h_first] at h_ok ⊢
      have h_one := refreshed_validateRange h_first
      have h_rest := ih (fun _ => h_one.lineCount) h_ok
      refine ⟨h_rest.languages.trans h_one.languages, h_rest.lineCount, ?_,
        h_one.fresh.trans h_rest.fresh⟩
      intro h
      -- the registry may be another one by now, with the same languages
      have h_consistent := h_one.consistent h
      rw [← h_one.languages] at h_consistent ⊢
      exact h_rest.consistent h_consistent

/-- The entries of a `Reachable` cache are chained. After validations without a failure that cover
    every line of `src`, in any order, the cache is the full parse of `src`. For a `src` without
    lines there has to be a validation at all, so that a cache with lines is refreshed. -/
theorem consistent_and_inStep_validateRanges (h : Reachable languages c) :
    Consistent languages c ∧
    ∀ (registry : Registry (Grammar σ)) (src : LineSource) (ranges : List LineRange),
      registry.languages = languages → (src.lineCount = 0 → ranges ≠ []) →
      (∀ line < src.lineCount, ∃ range ∈ ranges, range.contains line = true) →
      (c.validateRanges registry src ranges).answer = .ok () →
      InStep languages (c.validateRanges registry src ranges).cache src := by
  refine ⟨h.consistent, ?_⟩
  rintro registry src ranges rfl h_some h_cover h_ok
  -- a document with lines needs a range for its first one
  have h_nonempty : ranges ≠ [] := by
    rintro rfl
    rcases Nat.eq_zero_or_pos src.lineCount with h_zero | h_pos
    · exact h_some h_zero rfl
    · obtain ⟨range, h_range, -⟩ := h_cover 0 h_pos
      exact absurd h_range List.not_mem_nil
  have h_refreshed := refreshed_validateRanges (fun h_nil => absurd h_nil h_nonempty) h_ok
  refine inStep_iff.2 ⟨h_refreshed.consistent h.consistent, LineLexer.map_text_of_fresh ?_⟩
  intro line
  rcases Nat.lt_or_ge line src.lineCount with h_line | h_line
  · exact h_refreshed.fresh line (.inr (h_cover line h_line))
  · -- past the last line there is nothing on either side
    rw [LineLexer.Fresh, List.getElem?_eq_none h_line, List.getElem?_eq_none]
    · rfl
    · have h_count := h_refreshed.lineCount
      rw [lineCount] at h_count
      omega

theorem reachable_parenCache : Reachable parenRegistry.languages parenCache :=
  .perform (.initial .initial) .refresh parenRegistry rfl parenDocument.source

/-- Other lines than those that `parenCache` was opened with. -/
def movedSource : LineSource :=
  ⟨"parens", ["a", "(", "c", "x", "e", "f"]⟩

theorem inStep_validateRanges_movedSource :
    Reachable parenRegistry.languages parenCache ∧
    InStep parenRegistry.languages
      (parenCache.validateRanges parenRegistry movedSource [⟨3, 6⟩, ⟨0, 4⟩]).cache movedSource := by
  have h_cover : ∀ line < movedSource.lineCount,
      ∃ range ∈ [⟨3, 6⟩, ⟨0, 4⟩], LineRange.contains range line = true := by decide
  exact ⟨reachable_parenCache, (consistent_and_inStep_validateRanges reachable_parenCache).2
    parenRegistry movedSource [⟨3, 6⟩, ⟨0, 4⟩] rfl nofun h_cover (by cbv)⟩

end TokenCache

end ScopeTokens
