/-
  ScopeTokens.Proofs.Cache.EditWork

  What an edit computes. The lines of a change are computed once
  (`TouchedLines.redo`). While no change spreads below its lines, that is all
  (`confined_of_absorbAll`): line numbers stay, and every other entry is the one
  that was there. The first change that spreads makes the edit cascade, which
  computes all lines below it and ends the edit (`work_onEdit`).
-/

import ScopeTokens.Proofs.Cache.EditFailure
import ScopeTokens.Proofs.Cache.Refreshes

namespace ScopeTokens

namespace CacheStats

/-- Lines computed, whether given to the grammar or skipped. -/
def computed (s : CacheStats) : Nat :=
  s.linesTokenized + s.linesSkipped

theorem computed_add (a b : CacheStats) : (a + b).computed = a.computed + b.computed := by
  simp only [computed, add_def]
  omega

theorem cascades_add (a b : CacheStats) : (a + b).cascades = a.cascades + b.cascades := rfl

end CacheStats

/-! ## Work of a run -/

namespace LineLexer

variable {σ : Type} {lx : LineLexer σ} {above : Option σ} {text : String} {e : LineEntry σ}

/-- With a grammar, every line counts as one. -/
theorem computed_of_entry (h_grammar : lx.grammar.isSome = true)
    (h : lx.entry text above = .ok e) : e.work.computed = 1 := by
  rcases entry_cases h with ⟨h_none, rfl⟩ | ⟨g, -, -, rfl⟩ | ⟨g, answer, tokens, -, -, -, -, rfl⟩
  · rw [h_none] at h_grammar
    exact absurd h_grammar Bool.false_ne_true
  · rfl
  · rfl

theorem computed_run (h_grammar : lx.grammar.isSome = true) (above : Option σ)
    (texts : List String) :
    (lx.run above texts).work.computed = (lx.run above texts).entries.length := by
  have h_entries : ∀ e ∈ (lx.run above texts).entries, e.work.computed = 1 := by
    intro e h_e
    obtain ⟨above', h_entry⟩ := (chained_run lx above texts).exists_entry h_e
    exact computed_of_entry h_grammar h_entry
  have h_count := count_foldl CacheStats.computed_add h_entries .zero
  rw [Nat.one_mul] at h_count
  exact h_count.trans (Nat.zero_add _)

theorem cascades_run (r : Run σ) : r.work.cascades = 0 := by
  have h_entries : ∀ e ∈ r.entries, e.work.cascades = 0 := by
    intro e _
    unfold LineEntry.work
    split <;> rfl
  have h_count := count_foldl CacheStats.cascades_add h_entries .zero
  rwa [Nat.zero_mul] at h_count

/-- The end state of the entry of `line`. -/
def stateAt (es : List (LineEntry σ)) (line : Nat) : Option σ :=
  es[line]?.bind LineEntry.endState

end LineLexer

/-! ## Changes one after the other -/

/-- `es` with the lines of `t` computed anew, in the state of the entry above them. -/
def TouchedLines.redo {σ : Type} (t : TouchedLines) (lx : LineLexer σ) (live : List String)
    (es : List (LineEntry σ)) : List (LineEntry σ) :=
  es.take t.start ++
    (lx.run (LineLexer.stateBelow (es.take t.start))
      ((live.drop t.start).take (t.last + 1 - t.start))).entries ++
    es.drop (t.stop + 1)

namespace TextChange

/-- The lines of `change`, if those above it have kept their numbers. -/
def touched (change : TextChange) : TouchedLines where
  start := change.range.start.line
  stop := change.range.stop.line
  last := change.range.start.line + change.insertedBreaks

theorem ofChange_zero (change : TextChange) : TouchedLines.ofChange change 0 = change.touched := by
  simp [TouchedLines.ofChange, touched]

/-- `line` is one of those that `change` leaves. -/
def Touches (change : TextChange) (line : Nat) : Prop :=
  change.touched.start ≤ line ∧ line ≤ change.touched.last

instance (change : TextChange) (line : Nat) : Decidable (change.Touches line) :=
  inferInstanceAs (Decidable (_ ∧ _))

variable {σ : Type} [DecidableEq σ]

/-- `change` leaves another number of lines than it replaces, or ends them in another state than the
    one recorded there. -/
def spreads (change : TextChange) (lx : LineLexer σ) (live : List String)
    (es : List (LineEntry σ)) : Bool :=
  change.insertedBreaks != change.range.lineSpan ||
    LineLexer.stateAt (change.touched.redo lx live es) change.touched.last !=
      LineLexer.stateAt es change.touched.stop

end TextChange

/-- The first change that spreads, and those before it. -/
def LineLexer.firstSpread {σ : Type} [DecidableEq σ] (lx : LineLexer σ) (live : List String)
    (es : List (LineEntry σ)) : List TextChange → Option (List TextChange × TextChange)
  | [] => none
  | change :: changes =>
    match change.spreads lx live es with
    | true => some ([], change)
    | false => (lx.firstSpread live (change.touched.redo lx live es) changes).map fun r =>
      (change :: r.1, r.2)

namespace TokenCache

namespace Redone

variable {σ : Type} {c : TokenCache σ} {lx : LineLexer σ} {src : LineSource} {t : TouchedLines}
  {change : TextChange} {replaced : LineEntry σ} {redone : List (LineEntry σ)}

theorem redo_eq (h : Redone c lx src t replaced redone) :
    t.redo lx src.lines c.lines = (c.splice t ⟨redone, none⟩).lines := by
  rw [TouchedLines.redo, h.run]
  rfl

theorem computed_eq (h : Redone c lx src t replaced redone) (h_grammar : lx.grammar.isSome = true) :
    (LineLexer.Run.mk redone none).work.computed = t.last + 1 - t.start := by
  have h_run := LineLexer.computed_run h_grammar (LineLexer.stateBelow (c.lines.take t.start))
    ((src.lines.drop t.start).take (t.last + 1 - t.start))
  rw [h.run] at h_run
  exact h_run.trans h.length_eq

theorem stateAt_stop (h : Redone c lx src t replaced redone) :
    LineLexer.stateAt c.lines t.stop = replaced.endState := by
  rw [LineLexer.stateAt, h.stop]
  rfl

/-- The lines above `t` are as many as before. -/
theorem length_take (h : Redone c lx src t replaced redone) (h_stop : t.start ≤ t.stop) :
    (c.lines.take t.start).length = t.start := by
  obtain ⟨h_lt, -⟩ := List.getElem?_eq_some_iff.1 h.stop
  rw [List.length_take]
  omega

theorem stateAt_redo (h : Redone c lx src t replaced redone) (h_stop : t.start ≤ t.stop)
    (h_last : t.start ≤ t.last) :
    LineLexer.stateAt (t.redo lx src.lines c.lines) t.last = LineLexer.stateBelow redone := by
  have h_take := h.length_take h_stop
  have h_length := h.length_eq
  have h_get : (t.redo lx src.lines c.lines)[t.last]? = redone.getLast? := by
    rw [h.redo_eq]
    show (c.lines.take t.start ++ redone ++ c.lines.drop (t.stop + 1))[t.last]? = _
    rw [List.getElem?_append_left (by rw [List.length_append]; omega),
      List.getElem?_append_right (by omega), h_take, List.getLast?_eq_getElem?]
    congr 1
    omega
  rw [LineLexer.stateAt, h_get]
  rfl

/-- If `t` leaves as many lines as it replaces, all other entries are untouched. -/
theorem getElem?_splice (h : Redone c lx src t replaced redone) (h_stop : t.start ≤ t.stop)
    (h_same : t.last = t.stop) {line : Nat} (h_line : line < t.start ∨ t.last < line) :
    (c.splice t ⟨redone, none⟩).lines[line]? = c.lines[line]? := by
  have h_take := h.length_take h_stop
  have h_length := h.length_eq
  show (c.lines.take t.start ++ redone ++ c.lines.drop (t.stop + 1))[line]? = _
  rcases h_line with h_above | h_below
  · rw [List.append_assoc, List.getElem?_append_left (by omega), List.getElem?_take_of_lt h_above]
  · rw [List.getElem?_append_right (by rw [List.length_append]; omega), List.length_append,
      List.getElem?_drop]
    congr 1
    omega

variable [DecidableEq σ]

theorem spreads_iff (h : Redone c lx src change.touched replaced redone)
    (h_range : change.range.start ≤ change.range.stop) :
    change.spreads lx src.lines c.lines = true ↔
      change.touched.last ≠ change.touched.stop ∨
        LineLexer.stateBelow redone ≠ replaced.endState := by
  have h_stop : change.touched.start ≤ change.touched.stop := by
    rw [Position.le_iff] at h_range
    show change.range.start.line ≤ change.range.stop.line
    omega
  have h_last : change.touched.start ≤ change.touched.last := Nat.le_add_right _ _
  have h_span : change.insertedBreaks ≠ change.range.lineSpan ↔
      change.touched.last ≠ change.touched.stop := by
    rw [TextRange.lineSpan_of_le h_range]
    simp only [TextChange.touched] at h_stop ⊢
    omega
  rw [TextChange.spreads, Bool.or_eq_true, bne_iff_ne, bne_iff_ne, h_span,
    h.stateAt_redo h_stop h_last, h.stateAt_stop]

end Redone

variable {σ : Type} {lx : LineLexer σ} {src : LineSource} {c c' c'' : TokenCache σ}
  {change : TextChange} {changes before : List TextChange}

/-! ## What changes leave alone -/

variable [DecidableEq σ]

/-- Following `changes` computed their lines and no others, and no cascade was counted. -/
structure Confined (lx : LineLexer σ) (live : List String) (c : TokenCache σ)
    (changes : List TextChange) (c' : TokenCache σ) : Prop where
  computed : c'.stats.computed =
    c.stats.computed + (changes.map fun change => change.insertedBreaks + 1).sum
  cascades : c'.stats.cascades = c.stats.cascades
  untouched : ∀ line, (∀ change ∈ changes, ¬ change.Touches line) →
    c'.lines[line]? = c.lines[line]?
  firstSpread : ∀ rest, lx.firstSpread live c.lines (changes ++ rest) =
    (lx.firstSpread live c'.lines rest).map fun r => (changes ++ r.1, r.2)

namespace Confined

variable {live : List String}

theorem nil (c : TokenCache σ) : Confined lx live c [] c where
  computed := rfl
  cascades := rfl
  untouched _ _ := rfl
  firstSpread _ := Option.map_id_apply.symm

theorem cons (h : Confined lx live c [change] c') (h' : Confined lx live c' changes c'') :
    Confined lx live c (change :: changes) c'' where
  computed := by
    have h_first := h.computed
    have h_rest := h'.computed
    rw [List.map_cons, List.sum_cons]
    rw [List.map_singleton, List.sum_singleton] at h_first
    omega
  cascades := h'.cascades.trans h.cascades
  untouched line h_line := by
    obtain ⟨h_first, h_rest⟩ := List.forall_mem_cons.1 h_line
    rw [h'.untouched line h_rest, h.untouched line fun change' h_mem => ?_]
    rwa [List.mem_singleton.1 h_mem]
  firstSpread rest := by
    have h_first := h.firstSpread (changes ++ rest)
    rw [h'.firstSpread rest, Option.map_map] at h_first
    exact h_first

end Confined

/-- A change that is absorbed does not spread, and is `Confined`. -/
theorem confined_of_follow (h_grammar : lx.grammar.isSome = true)
    (h_range : change.range.start ≤ change.range.stop)
    (h : c.follow lx src (.ofChange change 0) = .absorbed c') :
    (TouchedLines.ofChange change 0).delta = 0 ∧ Confined lx src.lines c [change] c' := by
  have h_stop := TouchedLines.start_le_stop_ofChange h_range 0
  have h_followed := followed_follow c lx src (.ofChange change 0)
  rw [h] at h_followed
  rw [TextChange.ofChange_zero] at *
  cases h_followed with
  | @absorbed replaced redone h_redone h_stays =>
    obtain ⟨h_same, h_state⟩ := h_stays h_grammar
    have h_spreads : change.spreads lx src.lines c.lines = false := by
      rw [Bool.eq_false_iff, Ne, h_redone.spreads_iff h_range, not_or]
      exact ⟨not_not_intro h_same, not_not_intro h_state⟩
    refine ⟨by rw [TouchedLines.delta, h_same, Int.sub_self], ?_⟩
    constructor
    case computed =>
      have h_work := h_redone.computed_eq h_grammar
      show (c.stats + _).computed = _
      rw [CacheStats.computed_add, h_work]
      simp only [TextChange.touched, List.map_singleton, List.sum_singleton]
      omega
    case cascades =>
      show (c.stats + _).cascades = _
      rw [CacheStats.cascades_add, LineLexer.cascades_run, Nat.add_zero]
    case untouched =>
      -- as many lines as before, so those below are still where they were
      intro line h_line
      have h_not := h_line change (List.mem_singleton_self change)
      refine h_redone.getElem?_splice h_stop h_same ?_
      rw [TextChange.Touches] at h_not
      omega
    case firstSpread =>
      intro rest
      rw [List.singleton_append, LineLexer.firstSpread, h_spreads, h_redone.redo_eq]
      rfl

/-- Changes that are all absorbed do not spread, keep line numbers, and are `Confined`. -/
theorem confined_of_absorbAll (h_grammar : lx.grammar.isSome = true)
    (h_range : ∀ change ∈ before, change.range.start ≤ change.range.stop) {shift : Int}
    (h : absorbAll lx src 0 c before = some (shift, c')) :
    shift = 0 ∧ Confined lx src.lines c before c' := by
  induction before generalizing c with
  | nil =>
    obtain ⟨rfl, rfl⟩ := Prod.mk.inj (Option.some.inj h)
    exact ⟨rfl, .nil c⟩
  | cons change before ih =>
    obtain ⟨h_first, h_rest⟩ := List.forall_mem_cons.1 h_range
    obtain ⟨c₁, h_follow, h_absorb⟩ := follow_of_absorbAll_cons h
    obtain ⟨h_delta, h_confined⟩ := confined_of_follow h_grammar h_first h_follow
    -- the change left as many lines as it replaced, so the others are still counted from the top
    rw [h_delta, Int.add_zero] at h_absorb
    obtain ⟨h_shift, h_below⟩ := ih h_rest h_absorb
    exact ⟨h_shift, h_confined.cons h_below⟩

/-- A change that cascades spreads, and all lines from its start on are computed. -/
theorem spreads_of_follow (h_range : change.range.start ≤ change.range.stop) {line : Nat}
    (h : c.follow lx src (.ofChange change 0) = .cascaded line c') :
    change.spreads lx src.lines c.lines = true ∧ change.touched.last < src.lineCount ∧
    c'.stats.computed = c.stats.computed + (change.insertedBreaks + 1) +
      (src.lineCount - change.touched.last - 1) ∧
    c'.stats.cascades = c.stats.cascades + 1 ∧
    ∀ line < change.touched.start, c'.lines[line]? = c.lines[line]? := by
  have h_stop := TouchedLines.start_le_stop_ofChange h_range 0
  have h_followed := followed_follow c lx src (.ofChange change 0)
  rw [h] at h_followed
  rw [TextChange.ofChange_zero] at *
  cases h_followed with
  | @cascaded replaced redone below h_redone h_grammar h_moves h_below =>
    refine ⟨(h_redone.spreads_iff h_range).2 h_moves, h_redone.last, ?_, ?_, ?_⟩
    · -- the touched lines are computed once, and so is every line below them
      have h_work := h_redone.computed_eq h_grammar
      have h_rest := LineLexer.computed_run h_grammar (LineLexer.stateBelow redone)
        (src.lines.drop (change.touched.last + 1))
      rw [LineLexer.length_run (congrArg LineLexer.Run.failure h_below), List.length_drop,
        h_below] at h_rest
      show (c.stats + _ + .cascade + _).computed = _
      rw [CacheStats.computed_add, CacheStats.computed_add, CacheStats.computed_add, h_work, h_rest]
      simp only [TextChange.touched, LineSource.lineCount, CacheStats.computed, CacheStats.cascade]
      omega
    · show (c.stats + _ + .cascade + _).cascades = _
      rw [CacheStats.cascades_add, CacheStats.cascades_add, CacheStats.cascades_add,
        LineLexer.cascades_run, LineLexer.cascades_run]
      rfl
    · intro line h_line
      rw [Redone.lines_cascade, List.append_assoc, List.getElem?_append_left,
        List.getElem?_take_of_lt h_line]
      rwa [h_redone.length_take h_stop]

/-! ## Edits -/

/-- What following sorted `changes` does, by the first of them that spreads. If there is none, the
    lines that the changes leave are computed, and all others keep their entries. Otherwise the
    lines of the changes up to that one are computed, and all lines below it; above it, only lines
    of changes before it have new entries. -/
def WorkDone (c : TokenCache σ) (changes : List TextChange) (lineCount : Nat)
    (after : TokenCache σ) : Option (List TextChange × TextChange) → Prop
  | none =>
    after.stats.computed =
      c.stats.computed + (changes.map fun change => change.insertedBreaks + 1).sum ∧
    after.stats.cascades = c.stats.cascades ∧
    ∀ line, (∀ change ∈ changes, ¬ change.Touches line) → after.lines[line]? = c.lines[line]?
  | some (before, change) =>
    change.touched.last < lineCount ∧
    after.stats.computed =
      c.stats.computed + ((before ++ [change]).map fun change => change.insertedBreaks + 1).sum +
        (lineCount - change.touched.last - 1) ∧
    after.stats.cascades = c.stats.cascades + 1 ∧
    ∀ line < change.touched.start, (∀ change ∈ before, ¬ change.Touches line) →
      after.lines[line]? = c.lines[line]?

theorem workDone_of_absorbAll (h_grammar : lx.grammar.isSome = true)
    (h_range : ∀ change ∈ changes, change.range.start ≤ change.range.stop) {shift : Int}
    (h : absorbAll lx src 0 c changes = some (shift, c')) :
    c.WorkDone changes src.lineCount c' (lx.firstSpread src.lines c.lines changes) := by
  obtain ⟨-, h_confined⟩ := confined_of_absorbAll h_grammar h_range h
  have h_first := h_confined.firstSpread []
  rw [List.append_nil] at h_first
  rw [h_first]
  exact ⟨h_confined.computed, h_confined.cascades, h_confined.untouched⟩

theorem workDone_of_cascaded (h_grammar : lx.grammar.isSome = true) {after : List TextChange}
    (h_range : ∀ change' ∈ before ++ change :: after, change'.range.start ≤ change'.range.stop)
    {shift : Int} {line : Nat} (h_before : absorbAll lx src 0 c before = some (shift, c'))
    (h : c'.follow lx src (.ofChange change shift) = .cascaded line c'') :
    c.WorkDone (before ++ change :: after) src.lineCount c''
      (lx.firstSpread src.lines c.lines (before ++ change :: after)) := by
  obtain ⟨h_above, h_here⟩ := List.forall_mem_append.1 h_range
  obtain ⟨rfl, h_confined⟩ := confined_of_absorbAll h_grammar h_above h_before
  -- the changes before it do not spread, so it is the first
  obtain ⟨h_spreads, h_last, h_computed, h_cascades, h_same⟩ :=
    spreads_of_follow (h_here change List.mem_cons_self) h
  have h_first : lx.firstSpread src.lines c.lines (before ++ change :: after) =
      some (before, change) := by
    rw [h_confined.firstSpread, LineLexer.firstSpread, h_spreads]
    dsimp only
    rw [Option.map_some, List.append_nil]
  rw [h_first]
  refine ⟨h_last, ?_, ?_, ?_⟩
  · rw [h_computed, h_confined.computed, List.map_append, List.sum_append, List.map_singleton,
      List.sum_singleton]
    omega
  · rw [h_cascades, h_confined.cascades]
  · intro line h_line h_not
    exact (h_same line h_line).trans (h_confined.untouched line h_not)

/-- A well placed batch that adds as many lines as its changes say, on a cache with a grammar that
    is in step with `d`, does not refresh the cache, and its work is `WorkDone` for the first change
    that spreads (`firstSpread`): the lines of the changes, and with such a change one cascade and
    all lines below it. -/
theorem work_onEdit (d : Document) (c : TokenCache σ) (registry : Registry (Grammar σ))
    (changes : List TextChange) (h_grammar : c.hasGrammar = true)
    (h_sync : InStep registry.languages c d.source) (h_placed : WellPlaced d.text.toList changes)
    (h_count : ((d.applyChanges changes).lineCount : Int) =
      d.lineCount + TextChange.totalDelta changes)
    (h_ok : (c.onEdit registry (d.applyChanges changes).source changes).answer = .ok ()) :
    (c.onEdit registry (d.applyChanges changes).source changes).cache.stats.refreshes =
      c.stats.refreshes ∧
    c.WorkDone (TextChange.sortByStart changes) (d.applyChanges changes).lineCount
      (c.onEdit registry (d.applyChanges changes).source changes).cache
      ((c.lexer registry.languages).firstSpread (d.applyChanges changes).source.lines c.lines
        (TextChange.sortByStart changes)) := by
  have h_not := not_outdated_followAll h_sync h_placed h_count
  have h_lexer : (c.lexer registry.languages).grammar.isSome = true := h_grammar
  refine ⟨quiet_onEdit_iff.2 h_not, ?_⟩
  have h_range : ∀ change ∈ TextChange.sortByStart changes,
      change.range.start ≤ change.range.stop :=
    fun change h_mem => (h_placed.mem_sortByStart h_mem).1
  have h_followed := followedAll_followAll (c.lexer registry.languages)
    (d.applyChanges changes).source 0 c (TextChange.sortByStart changes)
  rw [← Document.lineCount_source]
  unfold onEdit at h_ok ⊢
  generalize followAll (c.lexer registry.languages) (d.applyChanges changes).source 0 c
    (TextChange.sortByStart changes) = outcome at *
  -- either every change is absorbed, or the first that is not cascades: no change of a well placed
  -- batch is outdated, and by `h_ok` none fails
  cases h_followed with
  | @all shift c' h_absorb =>
    rw [followAll_nil] at h_not ⊢
    by_cases h_lines : c'.lineCount = (d.applyChanges changes).source.lineCount
    · rw [if_pos h_lines]
      exact workDone_of_absorbAll h_lexer h_range h_absorb
    · rw [if_neg h_lines] at h_not
      exact absurd rfl (h_not c')
  | @first before after change shift c' h_changes h_before h_not_absorbed =>
    rw [h_changes] at h_range ⊢
    cases h_follow : c'.follow (c.lexer registry.languages) (d.applyChanges changes).source
        (.ofChange change shift) with
    | absorbed c'' => exact absurd h_follow (h_not_absorbed c'')
    | cascaded line c'' => exact workDone_of_cascaded h_lexer h_range h_before h_follow
    | outdated c'' => exact absurd h_follow (h_not c'')
    | failed err c'' =>
      rw [h_follow] at h_ok
      exact absurd h_ok nofun

/-- Two changes on line 0, a parenthesis on line 2, and a change below it. -/
def cascadingChanges : List TextChange :=
  [⟨⟨⟨4, 0⟩, ⟨4, 1⟩⟩, "y"⟩, ⟨⟨⟨0, 1⟩, ⟨0, 1⟩⟩, "z"⟩, ⟨⟨⟨2, 0⟩, ⟨2, 1⟩⟩, "("⟩,
    ⟨⟨⟨0, 0⟩, ⟨0, 1⟩⟩, "x"⟩]

/-- Line 0 is computed twice and each line from 2 on once; line 1 keeps its entry. -/
theorem work_onEdit_cascadingChanges :
    parenCache.hasGrammar = true ∧
    InStep parenRegistry.languages parenCache parenDocument.source ∧
    WellPlaced parenDocument.text.toList cascadingChanges ∧
    (parenCache.onEdit parenRegistry (parenDocument.applyChanges cascadingChanges).source
      cascadingChanges).cache.stats.computed = parenCache.stats.computed + 6 ∧
    (parenCache.onEdit parenRegistry (parenDocument.applyChanges cascadingChanges).source
      cascadingChanges).cache.stats.cascades = parenCache.stats.cascades + 1 ∧
    (parenCache.onEdit parenRegistry (parenDocument.applyChanges cascadingChanges).source
      cascadingChanges).cache.stats.refreshes = parenCache.stats.refreshes ∧
    (parenCache.onEdit parenRegistry (parenDocument.applyChanges cascadingChanges).source
      cascadingChanges).cache.lines[1]? = parenCache.lines[1]? := by
  have h_placed : WellPlaced parenDocument.text.toList cascadingChanges := ⟨by decide, by decide⟩
  have h_grammar : parenCache.hasGrammar = true := by cbv
  have h_before : parenDocument.lineCount = 6 := by cbv
  have h_after : (parenDocument.applyChanges cascadingChanges).lineCount = 6 := by cbv
  have h_count : ((parenDocument.applyChanges cascadingChanges).lineCount : Int) =
      parenDocument.lineCount + TextChange.totalDelta cascadingChanges := by
    rw [h_before, h_after]
    decide
  obtain ⟨h_refreshes, h_work⟩ := work_onEdit parenDocument parenCache parenRegistry
    cascadingChanges h_grammar inStep_parenCache h_placed h_count (by cbv)
  have h_first : (parenCache.lexer parenRegistry.languages).firstSpread
      (parenDocument.applyChanges cascadingChanges).source.lines parenCache.lines
      (TextChange.sortByStart cascadingChanges) =
        some ([⟨⟨⟨0, 0⟩, ⟨0, 1⟩⟩, "x"⟩, ⟨⟨⟨0, 1⟩, ⟨0, 1⟩⟩, "z"⟩],
          ⟨⟨⟨2, 0⟩, ⟨2, 1⟩⟩, "("⟩) := by cbv
  rw [h_first, h_after] at h_work
  obtain ⟨-, h_computed, h_cascades, h_same⟩ := h_work
  exact ⟨h_grammar, inStep_parenCache, h_placed, h_computed, h_cascades, h_refreshes,
    h_same 1 (by decide) (by decide)⟩

end TokenCache

end ScopeTokens
