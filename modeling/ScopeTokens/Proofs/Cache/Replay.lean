/-
  ScopeTokens.Proofs.Cache.Replay

  The texts of a cache while it follows a batch. Each change puts live lines in
  the place of those that it replaced, and the lines below stay as they were
  before the edit (`replay`). For a well placed batch, the lines above the next
  change are live (`Following.above`) as long as no break was lost at a seam of
  the new text (`Following.step`), and after the last change all lines are
  (`Following.eq_live`).
-/

import ScopeTokens.Cache.Edit
import ScopeTokens.Proofs.Text.Pieces

namespace ScopeTokens

namespace TouchedLines

/-- `held` after the change of `t`: the lines of `live` in place of those replaced. -/
def patch (live held : List String) (t : TouchedLines) : List String :=
  held.take t.start ++ (live.drop t.start).take (t.last + 1 - t.start) ++ held.drop (t.stop + 1)

/-- `replay` for one change. -/
def replayOne (live : List String) (shifted : Int × List String) (change : TextChange) :
    Int × List String :=
  let t := ofChange change shifted.1
  (shifted.1 + t.delta, patch live shifted.2 t)

/-- The shift of line numbers and the texts after `changes`, from a pair of both. -/
def replay (live : List String) (shifted : Int × List String) (changes : List TextChange) :
    Int × List String :=
  changes.foldl (replayOne live) shifted

theorem start_le_stop_ofChange {c : TextChange} (h : c.range.start ≤ c.range.stop) (shift : Int) :
    (ofChange c shift).start ≤ (ofChange c shift).stop := by
  have := Position.le_iff.1 h
  simp only [ofChange]
  omega

theorem start_le_last_ofChange (c : TextChange) (shift : Int) :
    (ofChange c shift).start ≤ (ofChange c shift).last :=
  Nat.le_add_right _ _

theorem take_patch {live held : List String} {t : TouchedLines}
    (h_above : held.take t.start = live.take t.start) (h_start : t.start ≤ t.last)
    (h_last : t.last < live.length) :
    (patch live held t).take (t.last + 1) = live.take (t.last + 1) := by
  have h_split : live.take (t.last + 1) =
      held.take t.start ++ (live.drop t.start).take (t.last + 1 - t.start) := by
    rw [h_above, ← List.take_add]
    congr 1
    omega
  have h_length : (live.take (t.last + 1)).length = t.last + 1 :=
    List.length_take_of_le (by omega)
  rw [patch, ← h_split, List.take_append_of_le_length (by omega), List.take_of_length_le (by omega)]

theorem drop_patch {live held : List String} {t : TouchedLines}
    (h_above : held.take t.start = live.take t.start) (h_start : t.start ≤ t.last)
    (h_last : t.last < live.length) :
    (patch live held t).drop (t.last + 1) = held.drop (t.stop + 1) := by
  have h_length : (held.take t.start ++ (live.drop t.start).take (t.last + 1 - t.start)).length =
      t.last + 1 := by
    rw [h_above, ← List.take_add, List.length_take_of_le] <;> omega
  rw [patch, List.drop_left' h_length]

/-- Lists that agree from `i + k` and `k` on agree from later elements on. -/
theorem drop_add_of_drop {α : Type} {xs ys : List α} {i k n : Nat}
    (h : xs.drop (i + k) = ys.drop k) (h_le : k ≤ n) : xs.drop (i + n) = ys.drop n := by
  have h_rest := congrArg (List.drop (n - k)) h
  rwa [List.drop_drop, List.drop_drop, Nat.add_assoc, Nat.add_sub_cancel' h_le] at h_rest

end TouchedLines

open TouchedLines

/-- State of following a batch: `held` has the lines of the text `cs` after the changes up to offset
    `done`. The edited text, whose lines are `live`, is `cs` with the `changes` carried out behind
    `done`, where its lines are shifted by `shift`. -/
structure Following (cs : List Char) (live held : List String) (done : Nat) (shift : Int)
    (changes : List TextChange) : Prop where
  placed : PlacedFrom cs done changes
  /-- `line` is the line that `done` is on now. It is live if a change was followed to there
      (`reached = 1`), and else still as it was before (`reached = 0`). -/
  tracks : ∃ line reached : Nat, (line : Int) = countBreaks (cs.take done) + shift ∧ reached ≤ 1 ∧
    live.length =
      line + countBreaks (Splice.substitute cs done (changes.map (Splice.ofChange cs))) + 1 ∧
    held.take (line + reached) = live.take (line + reached) ∧
    held.drop (line + reached) = (Line.texts (cs.drop done)).drop reached ∧
    live.drop (line + reached) =
      (Line.texts (Splice.substitute cs done (changes.map (Splice.ofChange cs)))).drop reached

namespace Following

variable {cs : List Char} {live held : List String} {done : Nat} {shift : Int}
  {change : TextChange} {changes : List TextChange}

/-- `Following` holds before the first change of a well placed batch. -/
theorem initial (h : WellPlaced cs changes) :
    Following cs
      (Line.texts
        (Splice.substitute cs 0 ((TextChange.sortByStart changes).map (Splice.ofChange cs))))
      (Line.texts cs) 0 0 (TextChange.sortByStart changes) where
  placed := .sortByStart h
  tracks := by
    refine ⟨0, 0, by simp [countBreaks_nil], Nat.zero_le _, ?_, rfl, rfl, rfl⟩
    rw [Line.length_texts, Nat.zero_add]

/-- The lines above the next change are live. -/
theorem above (h : Following cs live held done shift (change :: changes)) :
    held.take (ofChange change shift).start = live.take (ofChange change shift).start := by
  obtain ⟨line, reached, h_line, h_reached, -, h_take, h_held, h_live⟩ := h.tracks
  have h_gap := h.placed.countBreaks_gap
  -- the stretch before the change, whose lines but the last are the same in both texts
  let gap := (cs.drop done).take ((Splice.ofChange cs change).start - done)
  have h_start : (ofChange change shift).start = line + countBreaks gap := by
    simp only [ofChange, gap]
    omega
  rw [h_start]
  rcases Nat.le_total (countBreaks gap) reached with h_le | h_le
  -- the change is on a line that was followed to already
  · have h_min := congrArg (List.take (line + countBreaks gap)) h_take
    rwa [List.take_take, List.take_take, Nat.min_eq_left (by omega)] at h_min
  · have h_same : (Line.texts (cs.drop done)).take (countBreaks gap) =
        (Line.texts (Splice.substitute cs done
          ((change :: changes).map (Splice.ofChange cs)))).take (countBreaks gap) := by
      have h_parts :=
        List.take_append_drop ((Splice.ofChange cs change).start - done) (cs.drop done)
      conv_lhs => rw [← h_parts]
      rw [List.map_cons, Splice.substitute_cons, List.append_assoc,
        Line.take_texts_append (Nat.le_refl (countBreaks gap)),
        Line.take_texts_append (Nat.le_refl (countBreaks gap))]
    -- first the lines followed to, then those of the stretch
    have h_split : line + countBreaks gap = line + reached + (countBreaks gap - reached) := by omega
    have h_rest : (held.drop (line + reached)).take (countBreaks gap - reached) =
        (live.drop (line + reached)).take (countBreaks gap - reached) := by
      rw [h_held, h_live, List.take_drop, List.take_drop, Nat.add_sub_cancel' h_le, h_same]
    rw [h_split, List.take_add (i := line + reached), h_rest, h_take, ← List.take_add]

/-- After the last change, all lines are live. -/
theorem eq_live (h : Following cs live held done shift []) : held = live := by
  obtain ⟨line, reached, -, -, -, h_take, h_held, h_live⟩ := h.tracks
  rw [← List.take_append_drop (line + reached) held, h_take, h_held]
  rw [List.map_nil, Splice.substitute_nil] at h_live
  rw [← h_live, List.take_append_drop]

/-- The lines of the next change, counted from the line that `done` is on. -/
theorem ofChange_eq {line : Nat} (h : PlacedFrom cs done (change :: changes))
    (h_line : (line : Int) = countBreaks (cs.take done) + shift) :
    ofChange change shift =
      ⟨line + countBreaks ((cs.drop done).take ((Splice.ofChange cs change).start - done)),
        line + (change.range.stop.line - countBreaks (cs.take done)),
        line + (countBreaks ((cs.drop done).take ((Splice.ofChange cs change).start - done)) +
          countBreaks (Splice.ofChange cs change).text)⟩ := by
  have h_gap := h.countBreaks_gap
  have h_range := Position.le_iff.1 (h.onLines change List.mem_cons_self).1
  have h_text : countBreaks (Splice.ofChange cs change).text = change.insertedBreaks := rfl
  rw [ofChange, TouchedLines.mk.injEq, h_text]
  omega

/-- The lines of the next change exist in `held` and in `live`. -/
theorem fits (h : Following cs live held done shift (change :: changes))
    (h_seamless :
      Splice.Seamless cs done (.ofChange cs change) (changes.map (Splice.ofChange cs))) :
    (ofChange change shift).stop < held.length ∧ (ofChange change shift).last < live.length := by
  obtain ⟨line, reached, h_line, h_reached, h_length, h_take, h_held, -⟩ := h.tracks
  have h_breaks : _ = _ := h_seamless
  have h_drop := h.placed.countBreaks_drop
  rw [List.map_cons] at h_length
  -- from `line` on, the lines held are those of the old text
  have h_take_length := congrArg List.length h_take
  have h_held_length := congrArg List.length h_held
  rw [List.length_take, List.length_take] at h_take_length
  rw [List.length_drop, List.length_drop, Line.length_texts] at h_held_length
  rw [ofChange_eq h.placed h_line]
  dsimp only
  omega

/-- `Following` is kept by a change whose seams lose no break. -/
theorem step (h : Following cs live held done shift (change :: changes))
    (h_seamless :
      Splice.Seamless cs done (.ofChange cs change) (changes.map (Splice.ofChange cs))) :
    Following cs live (patch live held (ofChange change shift)) (Splice.ofChange cs change).stop
      (shift + (ofChange change shift).delta) changes := by
  obtain ⟨line, reached, h_line, h_reached, h_length, h_take, h_held, h_live⟩ := h.tracks
  have h_breaks : _ = _ := h_seamless
  rw [List.map_cons] at h_length h_live
  have h_gap := h.placed.countBreaks_gap
  have h_range := Position.le_iff.1 (h.placed.onLines change List.mem_cons_self).1
  have h_lines := ofChange_eq h.placed h_line
  have h_start := congrArg TouchedLines.start h_lines
  have h_stop := congrArg TouchedLines.stop h_lines
  have h_last := congrArg TouchedLines.last h_lines
  dsimp only at h_start h_stop h_last
  have h_start_last := start_le_last_ofChange change shift
  obtain ⟨-, h_live_last⟩ := h.fits h_seamless
  have h_above := h.above
  refine ⟨h.placed.tail, (ofChange change shift).last, 1, ?_, Nat.le_refl 1, by omega,
    take_patch h_above h_start_last h_live_last, ?_, ?_⟩
  · rw [h.placed.countBreaks_take_stop]
    simp only [TouchedLines.delta]
    omega
  -- below the change the lines held are those of the old text
  · rw [drop_patch h_above h_start_last h_live_last, h_stop, Nat.add_assoc,
      drop_add_of_drop h_held (by omega), h.placed.drop_texts]
  -- and the live ones those of the new text
  · rw [h_last, Nat.add_assoc, drop_add_of_drop h_live (by omega), h_seamless.drop_texts]

/-- `Following` is kept by several changes if no break is lost at any seam, and none is lost behind
    them either. -/
theorem replay_breaks {before after : List TextChange}
    (h : Following cs live held done shift (before ++ after))
    (h_breaks : Splice.pieceBreaks cs done ((before ++ after).map (Splice.ofChange cs)) ≤
      countBreaks (Splice.substitute cs done ((before ++ after).map (Splice.ofChange cs)))) :
    ∃ done', Following cs live (TouchedLines.replay live (shift, held) before).2 done'
        (TouchedLines.replay live (shift, held) before).1 after ∧
      Splice.pieceBreaks cs done' (after.map (Splice.ofChange cs)) ≤
        countBreaks (Splice.substitute cs done' (after.map (Splice.ofChange cs))) := by
  induction before generalizing held done shift with
  | nil => exact ⟨done, h, h_breaks⟩
  | cons change before ih =>
    obtain ⟨h_seamless, h_rest⟩ := Splice.seamless_of_le h_breaks
    exact ih (h.step h_seamless) h_rest

theorem replay {before after : List TextChange}
    (h : Following cs live held done shift (before ++ after))
    (h_breaks : Splice.pieceBreaks cs done ((before ++ after).map (Splice.ofChange cs)) ≤
      countBreaks (Splice.substitute cs done ((before ++ after).map (Splice.ofChange cs)))) :
    ∃ done', Following cs live (TouchedLines.replay live (shift, held) before).2 done'
      (TouchedLines.replay live (shift, held) before).1 after := by
  obtain ⟨done', h_done, -⟩ := h.replay_breaks h_breaks
  exact ⟨done', h_done⟩

end Following

/-- The shift after `changes` is `totalDelta`, as long as no line number is cut at zero. -/
theorem shift_replay {cs : List Char} {done : Nat} {changes : List TextChange} {shift : Int}
    (live held : List String) (h : PlacedFrom cs done changes)
    (h_shift : 0 ≤ countBreaks (cs.take done) + shift) :
    (replay live (shift, held) changes).1 = shift + TextChange.totalDelta changes := by
  induction changes generalizing done shift held with
  | nil => exact (Int.add_zero shift).symm
  | cons change changes ih =>
    have h_gap := h.countBreaks_gap
    have h_stop := h.countBreaks_take_stop
    obtain ⟨h_range, -⟩ := h.onLines change List.mem_cons_self
    have h_lines := Position.le_iff.1 h_range
    -- the lines of the change are not below line 0, so its delta is what it tells
    have h_delta : (ofChange change shift).delta = change.lineDelta := by
      rw [TextChange.lineDelta, TextRange.lineSpan_of_le h_range]
      simp only [ofChange, TouchedLines.delta]
      omega
    have h_shift' : (0 : Int) ≤ countBreaks (cs.take (Splice.ofChange cs change).stop) +
        (shift + (ofChange change shift).delta) := by
      rw [h_stop]
      simp only [ofChange, TouchedLines.delta]
      omega
    have h_rest := ih (patch live held (ofChange change shift)) h.tail h_shift'
    rw [TouchedLines.replay, List.foldl_cons, TextChange.totalDelta_cons, ← Int.add_assoc,
      ← h_delta]
    exact h_rest

end ScopeTokens
