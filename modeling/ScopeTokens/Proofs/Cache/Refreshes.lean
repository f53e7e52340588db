/-
  ScopeTokens.Proofs.Cache.Refreshes

  How often a cache is refreshed. `refresh` counts once, and nothing else that a
  request does counts as one (`refreshes_followAll`,
  `LineLexer.refreshes_healAll`). So the counter tells which requests re-parse:
  those that validate lines do exactly if the cache has the wrong number of lines
  (`quiet_iff_of_range?`), and an edit exactly if its changes cannot be followed
  (`quiet_onEdit_iff`).
-/

import ScopeTokens.Proofs.Cache.Reachable

namespace ScopeTokens

theorem CacheStats.refreshes_add (a b : CacheStats) :
    (a + b).refreshes = a.refreshes + b.refreshes := rfl

namespace LineLexer

variable {σ : Type}

/-! ## Computing and healing lines -/

theorem refreshes_entry (e : LineEntry σ) : e.work.refreshes = 0 := by
  unfold LineEntry.work
  split <;> rfl

/-- A sum over entries whose summands are all `n`. -/
theorem count_foldl {count : CacheStats → Nat} (h_add : ∀ a b, count (a + b) = count a + count b)
    {n : Nat} {es : List (LineEntry σ)} (h : ∀ e ∈ es, count e.work = n) (work : CacheStats) :
    count (es.foldl (fun w e => w + e.work) work) = count work + n * es.length := by
  induction es generalizing work with
  | nil => rfl
  | cons e es ih =>
    have h_first := h e List.mem_cons_self
    rw [List.foldl_cons, ih fun e' h_e' => h e' (List.mem_cons_of_mem e h_e'), h_add, h_first,
      List.length_cons, Nat.mul_succ]
    omega

theorem refreshes_run (r : Run σ) : r.work.refreshes = 0 := by
  have h_count := count_foldl CacheStats.refreshes_add (fun e (_ : e ∈ r.entries) =>
    refreshes_entry e) .zero
  rwa [Nat.zero_mul] at h_count

variable [DecidableEq σ]

theorem refreshes_heal (lx : LineLexer σ) (range : LineRange) (line : Nat) (above : Above σ)
    (es : List (LineEntry σ)) (texts : List String) :
    (lx.heal range line above es texts).work.refreshes = 0 := by
  induction es generalizing line above texts with
  | nil =>
    rw [heal_nil]
    rfl
  | cons e es ih =>
    cases texts with
    | nil => rfl
    | cons text texts =>
      by_cases h : above.redoes range line e text = true
      · cases h_entry : lx.entry text above.state with
        | error err =>
          rw [heal_cons_of_error h h_entry]
          rfl
        | ok e' =>
          rw [heal_cons_of_ok h h_entry]
          dsimp only
          rw [CacheStats.refreshes_add, refreshes_entry, ih]
      · rw [heal_cons_of_not_redoes h]
        exact ih _ _ _

theorem refreshes_healAll (lx : LineLexer σ) (texts : List String) (ranges : List LineRange)
    (es : List (LineEntry σ)) : (lx.healAll texts ranges es).work.refreshes = 0 := by
  induction ranges generalizing es with
  | nil => rfl
  | cons range ranges ih =>
    have h_first := refreshes_heal lx range 0 .top es texts
    rw [healAll]
    cases h_failure : (lx.heal range 0 .top es texts).failure with
    | some err => simpa only [h_failure] using h_first
    | none => simp only [CacheStats.refreshes_add, h_first, ih]

end LineLexer

namespace TokenCache

variable {σ : Type}

/-! ## Refreshing and following changes -/

theorem refreshes_worked (c : TokenCache σ) (work : CacheStats) :
    (c.worked work).stats.refreshes = c.stats.refreshes + work.refreshes := rfl

theorem refreshes_parseAll (c : TokenCache σ) (registry : Registry (Grammar σ))
    (src : LineSource) :
    (c.parseAll registry src).cache.stats.refreshes = c.stats.refreshes := by
  have h_worked := refreshes_worked c ((c.lexer registry.languages).run none src.lines).work
  rw [LineLexer.refreshes_run] at h_worked
  unfold parseAll
  dsimp only
  split <;> exact h_worked

theorem refreshes_refresh (c : TokenCache σ) (registry : Registry (Grammar σ))
    (src : LineSource) :
    (c.refresh registry src).cache.stats.refreshes = c.stats.refreshes + 1 := by
  unfold refresh
  dsimp only
  split
  · exact refreshes_parseAll _ registry src
  · split
    · rfl
    · exact refreshes_parseAll _ _ src

theorem refreshes_splice (c : TokenCache σ) (t : TouchedLines) (redone : LineLexer.Run σ) :
    (c.splice t redone).stats.refreshes = c.stats.refreshes := by
  have h_worked := refreshes_worked c redone.work
  rwa [LineLexer.refreshes_run] at h_worked

theorem refreshes_cascade (c : TokenCache σ) (src : LineSource) (t : TouchedLines)
    (redone below : LineLexer.Run σ) :
    (c.cascade src t redone below).stats.refreshes = c.stats.refreshes := by
  have h_worked := refreshes_worked
    (((c.splice t redone).touch ⟨t.start, src.lineCount⟩).worked .cascade) below.work
  rw [LineLexer.refreshes_run, refreshes_worked] at h_worked
  exact h_worked.trans (refreshes_splice c t redone)

variable [DecidableEq σ]

theorem refreshes_follow (c : TokenCache σ) (lx : LineLexer σ) (src : LineSource)
    (t : TouchedLines) :
    (c.follow lx src t).cache.stats.refreshes = c.stats.refreshes := by
  unfold follow
  split
  · rfl
  · split
    · rfl
    · dsimp only
      split
      · exact refreshes_splice c t _
      · split
        · split <;> exact refreshes_cascade c src t _ _
        · exact refreshes_splice c t _

theorem refreshes_followAll (lx : LineLexer σ) (src : LineSource) (shift : Int)
    (c : TokenCache σ) (changes : List TextChange) :
    (followAll lx src shift c changes).cache.stats.refreshes = c.stats.refreshes :=
  followAll_preserves (P := fun c' => c'.stats.refreshes = c.stats.refreshes)
    (fun c' t h => (refreshes_follow c' lx src t).trans h) shift changes rfl

end TokenCache

/-! ## Quiet requests -/

/-- `request` is carried out without a refresh. -/
def CacheRequest.Quiet {σ : Type} [DecidableEq σ] (request : CacheRequest) (c : TokenCache σ)
    (registry : Registry (Grammar σ)) (src : LineSource) : Prop :=
  (request.perform c registry src).cache.stats.refreshes = c.stats.refreshes

namespace TokenCache

variable {σ : Type} [DecidableEq σ] {c : TokenCache σ} {registry : Registry (Grammar σ)}
  {src : LineSource}

theorem not_quiet_refresh : ¬ CacheRequest.refresh.Quiet c registry src := by
  intro h
  have h_counted := refreshes_refresh c registry src
  rw [CacheRequest.Quiet, CacheRequest.perform] at h
  omega

theorem quiet_iff_of_range? {request : CacheRequest} {range : LineRange}
    (h : request.range? src = some range) :
    request.Quiet c registry src ↔ c.lineCount = src.lineCount := by
  rw [CacheRequest.Quiet, perform_of_range? h, validateRange]
  by_cases h_count : c.lineCount = src.lineCount
  · rw [if_neg (not_not_intro h_count)]
    refine iff_of_true ?_ h_count
    have h_worked := refreshes_worked c ((c.lexer registry.languages).healAll src.lines
      (c.pending ++ [range]) c.lines).work
    rw [LineLexer.refreshes_healAll] at h_worked
    dsimp only
    split <;> exact h_worked
  · rw [if_pos h_count, refreshes_refresh]
    exact iff_of_false (by omega) h_count

theorem quiet_onEdit_iff {changes : List TextChange} :
    (CacheRequest.onEdit changes).Quiet c registry src ↔
      ∀ c', followAll (c.lexer registry.languages) src 0 c (TextChange.sortByStart changes) ≠
        .outdated c' := by
  have h_counted := refreshes_followAll (c.lexer registry.languages) src 0 c
    (TextChange.sortByStart changes)
  -- the changes count no refresh themselves, so only an outdated batch adds the one of `refresh`
  rw [CacheRequest.Quiet, CacheRequest.perform, onEdit]
  cases h : followAll (c.lexer registry.languages) src 0 c (TextChange.sortByStart changes) with
  | absorbed c' =>
    rw [h] at h_counted
    exact iff_of_true h_counted (by simp)
  | cascaded line c' =>
    rw [h] at h_counted
    exact iff_of_true h_counted (by simp)
  | failed err c' =>
    rw [h] at h_counted
    exact iff_of_true h_counted (by simp)
  | outdated c' =>
    rw [h] at h_counted
    dsimp only [EditOutcome.cache] at h_counted ⊢
    rw [refreshes_refresh]
    refine iff_of_false (by omega) ?_
    intro h_not
    exact h_not c' rfl

end TokenCache

end ScopeTokens
