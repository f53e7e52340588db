/-
  ScopeTokens.Proofs.Text.Pieces

  Breaks of an edited text. The pieces that `substitute` puts together are the
  kept stretches and the new texts. Taken one by one, they have as many breaks as
  the old text and the line deltas of the changes together
  (`PlacedFrom.pieceBreaks_eq`). The edited text has no more breaks than its
  pieces, and if it has as many, none is lost at a seam (`seamless_of_le`).
-/

import ScopeTokens.Proofs.Text.Substitution
import ScopeTokens.Text.Document

namespace ScopeTokens

namespace Splice

/-- Breaks of the pieces of `substitute cs done ss`, taken one by one. -/
def pieceBreaks (cs : List Char) (done : Nat) : List Splice → Nat
  | [] => countBreaks (cs.drop done)
  | s :: ss =>
    countBreaks ((cs.drop done).take (s.start - done)) + countBreaks s.text +
      pieceBreaks cs s.stop ss

/-- `substitute` loses no break at either end of the text of `s`. -/
def Seamless (cs : List Char) (done : Nat) (s : Splice) (ss : List Splice) : Prop :=
  countBreaks (substitute cs done (s :: ss)) =
    countBreaks ((cs.drop done).take (s.start - done)) + countBreaks s.text +
      countBreaks (substitute cs s.stop ss)

theorem countBreaks_substitute_cons_le (cs : List Char) (done : Nat) (s : Splice)
    (ss : List Splice) :
    countBreaks (substitute cs done (s :: ss)) ≤
      countBreaks ((cs.drop done).take (s.start - done)) + countBreaks s.text +
        countBreaks (substitute cs s.stop ss) := by
  have h_front := countBreaks_append_le ((cs.drop done).take (s.start - done)) s.text
  have h_whole := countBreaks_append_le ((cs.drop done).take (s.start - done) ++ s.text)
    (substitute cs s.stop ss)
  rw [substitute_cons]
  omega

theorem countBreaks_substitute_le (cs : List Char) (done : Nat) (ss : List Splice) :
    countBreaks (substitute cs done ss) ≤ pieceBreaks cs done ss := by
  induction ss generalizing done with
  | nil => exact Nat.le_refl _
  | cons s ss ih =>
    have h_first := countBreaks_substitute_cons_le cs done s ss
    have h_rest := ih s.stop
    rw [pieceBreaks]
    omega

/-- If `s` is seamless, the lines below it are those of `substitute cs s.stop ss`. -/
theorem Seamless.drop_texts {cs : List Char} {done : Nat} {s : Splice} {ss : List Splice}
    (h : Seamless cs done s ss) :
    (Line.texts (substitute cs done (s :: ss))).drop
        (countBreaks ((cs.drop done).take (s.start - done)) + countBreaks s.text + 1) =
      (Line.texts (substitute cs s.stop ss)).drop 1 := by
  rw [Seamless, substitute_cons] at h
  rw [substitute_cons]
  exact Line.drop_texts_append h

/-- If no break is lost at any seam, then none is lost at `s`, nor behind it. -/
theorem seamless_of_le {cs : List Char} {done : Nat} {s : Splice} {ss : List Splice}
    (h : pieceBreaks cs done (s :: ss) ≤ countBreaks (substitute cs done (s :: ss))) :
    Seamless cs done s ss ∧ pieceBreaks cs s.stop ss ≤ countBreaks (substitute cs s.stop ss) := by
  have h_first := countBreaks_substitute_cons_le cs done s ss
  have h_rest := countBreaks_substitute_le cs s.stop ss
  rw [pieceBreaks] at h
  constructor
  · rw [Seamless]
    omega
  · omega

end Splice

namespace TextChange

/-- Sum of `lineDelta` over a batch. -/
def totalDelta (changes : List TextChange) : Int :=
  changes.foldr (fun c n => c.lineDelta + n) 0

theorem totalDelta_nil : totalDelta [] = 0 := rfl

theorem totalDelta_cons (c : TextChange) (changes : List TextChange) :
    totalDelta (c :: changes) = c.lineDelta + totalDelta changes := rfl

theorem lineSpan_normalize (r : TextRange) : r.normalize.lineSpan = r.lineSpan := by
  unfold TextRange.normalize TextRange.between TextRange.lineSpan
  split
  · exact Nat.add_comm _ _
  · rfl

theorem lineDelta_normalize (c : TextChange) : c.normalize.lineDelta = c.lineDelta := by
  rw [lineDelta, lineDelta, normalize, lineSpan_normalize]
  rfl

theorem totalDelta_map_normalize (changes : List TextChange) :
    totalDelta (changes.map normalize) = totalDelta changes := by
  rw [totalDelta, List.foldr_map]
  simp only [lineDelta_normalize]
  rfl

/-- `sortByStart` keeps `totalDelta`. -/
theorem totalDelta_sortByStart (changes : List TextChange) :
    totalDelta (sortByStart changes) = totalDelta changes := by
  have h_comm (a b : TextChange) (n : Int) :
      b.lineDelta + (a.lineDelta + n) = a.lineDelta + (b.lineDelta + n) := Int.add_left_comm _ _ _
  rw [← totalDelta_map_normalize changes]
  exact (sortByStart_perm changes).foldr_eq' (fun a _ b _ n => h_comm a b n) 0

end TextChange

/-! ## From an offset on -/

/-- The changes follow one another from offset `done` on, with their ends in order and on lines of
    `cs`, and `done` is not between `\r` and `\n`. -/
structure PlacedFrom (cs : List Char) (done : Nat) (changes : List TextChange) : Prop where
  unsplit : ¬ Joins (cs.take done) (cs.drop done)
  ordered : Splice.Ordered cs.length done (changes.map (Splice.ofChange cs))
  onLines : ∀ c ∈ changes, c.range.start ≤ c.range.stop ∧ c.OnLines cs

namespace PlacedFrom

variable {cs : List Char} {done : Nat} {change : TextChange} {changes : List TextChange}

/-- A well placed batch is `PlacedFrom` offset `0` once it is sorted. -/
theorem sortByStart (h : WellPlaced cs changes) :
    PlacedFrom cs 0 (TextChange.sortByStart changes) where
  unsplit := not_joins_nil_left _
  ordered := h.ordered
  onLines := fun _ h_c => h.mem_sortByStart h_c

theorem start_ofChange (h : PlacedFrom cs done (change :: changes)) :
    (Splice.ofChange cs change).start = charIndex cs change.range.start :=
  Splice.start_ofChange_of_le cs (h.onLines change List.mem_cons_self).1

theorem stop_ofChange (h : PlacedFrom cs done (change :: changes)) :
    (Splice.ofChange cs change).stop = charIndex cs change.range.stop :=
  Splice.stop_ofChange_of_le cs (h.onLines change List.mem_cons_self).1

theorem tail (h : PlacedFrom cs done (change :: changes)) :
    PlacedFrom cs (Splice.ofChange cs change).stop changes where
  unsplit := by
    rw [h.stop_ofChange]
    exact not_joins_charIndex cs _
  ordered := h.ordered.2.2
  onLines := fun c h_c => h.onLines c (List.mem_cons_of_mem change h_c)

/-- In front of the first change there are as many breaks as its line number says. -/
theorem countBreaks_gap (h : PlacedFrom cs done (change :: changes)) :
    countBreaks (cs.take done) +
        countBreaks ((cs.drop done).take ((Splice.ofChange cs change).start - done)) =
      change.range.start.line := by
  -- a seam in front of the gap would be one at the offset
  have h_apart : ¬ Joins (cs.take done)
      ((cs.drop done).take ((Splice.ofChange cs change).start - done)) := by
    intro h_joins
    apply h.unsplit
    cases h_gap : (cs.drop done).take ((Splice.ofChange cs change).start - done) with
    | nil => exact absurd (h_gap ▸ h_joins) (not_joins_nil_right _)
    | cons d ds =>
      rw [← List.take_append_drop ((Splice.ofChange cs change).start - done) (cs.drop done),
        joins_append_right (by rw [h_gap]; exact List.cons_ne_nil d ds)]
      exact h_joins
  rw [← countBreaks_append_of_not_joins h_apart, ← List.take_add,
    Nat.add_sub_cancel' h.ordered.1, h.start_ofChange,
    countBreaks_take_charIndex (h.onLines change List.mem_cons_self).2.1]

theorem countBreaks_take_stop (h : PlacedFrom cs done (change :: changes)) :
    countBreaks (cs.take (Splice.ofChange cs change).stop) = change.range.stop.line := by
  rw [h.stop_ofChange, countBreaks_take_charIndex (h.onLines change List.mem_cons_self).2.2]

/-- The breaks of `cs`, cut where the first change stops. -/
theorem countBreaks_drop (h : PlacedFrom cs done (change :: changes)) :
    countBreaks (cs.take done) + countBreaks (cs.drop done) =
      change.range.stop.line + countBreaks (cs.drop (Splice.ofChange cs change).stop) := by
  have h_done := countBreaks_append_of_not_joins h.unsplit
  have h_next := countBreaks_append_of_not_joins h.tail.unsplit
  rw [List.take_append_drop] at h_done h_next
  rw [h.countBreaks_take_stop] at h_next
  omega

/-- The lines of `cs` below the first change, by number. -/
theorem drop_texts (h : PlacedFrom cs done (change :: changes)) :
    (Line.texts (cs.drop done)).drop (change.range.stop.line - countBreaks (cs.take done) + 1) =
      (Line.texts (cs.drop (Splice.ofChange cs change).stop)).drop 1 := by
  have h_drop := h.countBreaks_drop
  have h_gap := h.countBreaks_gap
  have h_range := Position.le_iff.1 (h.onLines change List.mem_cons_self).1
  have h_le : done ≤ (Splice.ofChange cs change).stop := Nat.le_trans h.ordered.1 h.ordered.2.1
  have h_parts := List.take_append_drop ((Splice.ofChange cs change).stop - done) (cs.drop done)
  rw [List.drop_drop, Nat.add_sub_cancel' h_le] at h_parts
  rw [← h_parts] at h_drop ⊢
  apply Line.drop_texts_append
  omega

/-- The pieces have the breaks of the text behind `done`, and `totalDelta changes` more. -/
theorem pieceBreaks_eq (h : PlacedFrom cs done changes) :
    (Splice.pieceBreaks cs done (changes.map (Splice.ofChange cs)) : Int) =
      countBreaks (cs.drop done) + TextChange.totalDelta changes := by
  induction changes generalizing done with
  | nil =>
    rw [TextChange.totalDelta_nil, Int.add_zero]
    rfl
  | cons change changes ih =>
    have h_rest := ih h.tail
    have h_gap := h.countBreaks_gap
    have h_drop := h.countBreaks_drop
    obtain ⟨h_range, -⟩ := h.onLines change List.mem_cons_self
    -- the range is the right way round, so the line difference is not cut off at zero
    have h_delta : change.lineDelta = (change.insertedBreaks : Int) -
        (change.range.stop.line - change.range.start.line : Nat) := by
      rw [TextChange.lineDelta, TextRange.lineSpan_of_le h_range]
    have h_lines := Position.le_iff.1 h_range
    have h_text : countBreaks (Splice.ofChange cs change).text = change.insertedBreaks := rfl
    rw [TextChange.totalDelta_cons, List.map_cons, Splice.pieceBreaks, h_text]
    omega

end PlacedFrom

/-! ## Documents -/

namespace Document

theorem lineCount_eq (d : Document) : d.lineCount = countBreaks d.text.toList + 1 :=
  Line.length_split _

theorem toList_applyChanges {d : Document} {changes : List TextChange}
    (h : WellPlaced d.text.toList changes) :
    (d.applyChanges changes).text.toList = Splice.substitute d.text.toList 0
      ((TextChange.sortByStart changes).map (Splice.ofChange d.text.toList)) := by
  rw [← h.applyAll_eq]
  exact String.toList_ofList

end Document

end ScopeTokens
