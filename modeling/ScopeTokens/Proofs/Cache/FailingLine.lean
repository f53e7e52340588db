/-
  ScopeTokens.Proofs.Cache.FailingLine

  The error of a computation of lines. `run`, `heal` and `follow` all go through
  `LineLexer.entry`, so the error that one of them stops with is the error of
  `entry` on some line of the document (`FailsOn`). All that is said of the errors
  of a cache rests on two facts about a single line: within the offset range it is
  the grammar that fails (`FailsOn.ofGrammar`), and without a grammar nothing does
  (`not_failsOn_of_grammar_none`).
-/

import ScopeTokens.Proofs.Cache.EditFailure
import ScopeTokens.Proofs.Cache.Healing
import ScopeTokens.Proofs.Cache.Kept

namespace ScopeTokens

/-- `err` is the error of a grammar, on a line or in being loaded. -/
def TokenizeError.OfGrammar (err : TokenizeError) : Prop :=
  ∃ e : GrammarError, err = .grammar e

namespace LineLexer

variable {σ : Type} {lx : LineLexer σ} {texts : List String} {err : TokenizeError}

/-- `err` is the error of `lx.entry` on one of `texts`, in some state. -/
def FailsOn (lx : LineLexer σ) (texts : List String) (err : TokenizeError) : Prop :=
  ∃ text ∈ texts, ∃ above, lx.entry text above = .error err

theorem FailsOn.mono {texts' : List String} (h : lx.FailsOn texts err) (h_sub : texts ⊆ texts') :
    lx.FailsOn texts' err := by
  obtain ⟨text, h_text, above, h_error⟩ := h
  exact ⟨text, h_sub h_text, above, h_error⟩

/-! ## One line -/

/-- `build` and default tokens do not fail within the offset range, so it is `tokenizeLine` that
    does. -/
theorem ofGrammar_of_entry {text : String} {above : Option σ} (h_text : text.length < UInt32.size)
    (h : lx.entry text above = .error err) : err.OfGrammar := by
  unfold entry at h
  split at h
  · rw [LineEntry.ofDefault_of_lt h_text] at h
    exact absurd h nofun
  · rename_i g h_grammar
    split at h
    · rw [LineEntry.ofDefault_of_lt h_text] at h
      exact absurd h nofun
    · cases h_line : g.tokenizeLine text above with
      | error e =>
        simp only [h_line] at h
        exact ⟨e, (Except.error.inj h).symm⟩
      | ok answer =>
        simp only [h_line, build_eq lx g.scopeName answer.tokens h_text] at h
        exact absurd h nofun

theorem FailsOn.ofGrammar (h : lx.FailsOn texts err) (h_texts : FitsOffsets texts) :
    err.OfGrammar := by
  obtain ⟨text, h_text, above, h_error⟩ := h
  exact ofGrammar_of_entry (h_texts text h_text) h_error

theorem not_failsOn_of_grammar_none (h_none : lx.grammar = none) (h_texts : FitsOffsets texts) :
    ¬ lx.FailsOn texts err := by
  rintro ⟨text, h_text, above, h_error⟩
  rw [entry_eq_plain h_none (h_texts text h_text)] at h_error
  exact absurd h_error nofun

/-! ## Many lines -/

theorem failsOn_of_run {above : Option σ} (h : (lx.run above texts).failure = some err) :
    lx.FailsOn texts err := by
  obtain ⟨line, es, text, -, h_text, h_error⟩ := exists_line_of_failure h
  exact ⟨text, List.mem_of_getElem? h_text, _, h_error⟩

variable [DecidableEq σ]

theorem failsOn_of_heal {range : LineRange} {line : Nat} {above : Above σ}
    {es : List (LineEntry σ)} (h : (lx.heal range line above es texts).failure = some err) :
    lx.FailsOn texts err := by
  induction es generalizing line above texts with
  | nil =>
    rw [heal_nil] at h
    exact absurd h nofun
  | cons e es ih =>
    cases texts with
    | nil => exact absurd h nofun
    | cons text texts =>
      -- only a line that is computed can fail, and all others hand the failure up from below
      by_cases h_redoes : above.redoes range line e text = true
      · cases h_entry : lx.entry text above.state with
        | error err' =>
          rw [heal_cons_of_error h_redoes h_entry] at h
          obtain rfl := Option.some.inj h
          exact ⟨text, List.mem_cons_self, _, h_entry⟩
        | ok e' =>
          rw [heal_cons_of_ok h_redoes h_entry] at h
          exact (ih h).mono (List.subset_cons_self text texts)
      · rw [heal_cons_of_not_redoes h_redoes] at h
        exact (ih h).mono (List.subset_cons_self text texts)

theorem failsOn_of_healAll {ranges : List LineRange} {es : List (LineEntry σ)}
    (h : (lx.healAll texts ranges es).failure = some err) : lx.FailsOn texts err := by
  induction ranges generalizing es with
  | nil => exact absurd h nofun
  | cons range ranges ih =>
    cases h_first : (lx.heal range 0 .top es texts).failure with
    | some err' =>
      simp only [healAll, h_first] at h
      obtain rfl := Option.some.inj h
      exact failsOn_of_heal h_first
    | none =>
      simp only [healAll, h_first] at h
      exact ih h

end LineLexer

/-! ## Edits -/

namespace TokenCache

variable {σ : Type} [DecidableEq σ] {c c' : TokenCache σ} {src : LineSource} {lx : LineLexer σ}
  {err : TokenizeError} {shift : Int}

theorem failsOn_of_follow {change : TextChange}
    (h : c.follow lx src (.ofChange change shift) = .failed err c') : lx.FailsOn src.lines err := by
  have h_followed := followed_follow c lx src (.ofChange change shift)
  rw [h] at h_followed
  cases h_followed with
  | failed err h_settings h_run =>
    have h_failure := h_run (TouchedLines.start_le_last_ofChange change shift)
    exact (LineLexer.failsOn_of_run h_failure).mono (List.drop_subset _ _)

theorem failsOn_of_followAll {changes : List TextChange}
    (h : followAll lx src shift c changes = .failed err c') : lx.FailsOn src.lines err := by
  obtain ⟨before, change, after, shift', c₁, -, -, h_follow⟩ := exists_failed_of_followAll h
  exact failsOn_of_follow h_follow

end TokenCache

end ScopeTokens
