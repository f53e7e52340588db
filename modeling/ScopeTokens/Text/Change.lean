/-
  ScopeTokens.Text.Change

  A change to a text: a `range`, and the `text` that it gives way to. All changes
  of a batch refer to the text before the batch. `sortByStart` puts a batch in the
  order in which a cache follows it.
-/

import ScopeTokens.Text.LineBreak
import ScopeTokens.Text.Position

namespace ScopeTokens

/-- Replacement of `range` by `text`. -/
structure TextChange where
  range : TextRange
  text : String
  deriving DecidableEq, Repr, Inhabited

namespace TextChange

/-- `countBreaks` of the inserted text. -/
def insertedBreaks (c : TextChange) : Nat :=
  countBreaks c.text.toList

/-- Lines inserted minus lines replaced, as an integer. -/
def lineDelta (c : TextChange) : Int :=
  c.insertedBreaks - c.range.lineSpan

/-- `lineDelta` as the signed 64-bit word in which it is returned; a delta past `2^63` wraps. -/
def lineDeltaWord (c : TextChange) : Int64 :=
  Int64.ofInt c.lineDelta

/-- `c` with the ends of its range in order (`TextRange.normalize`). -/
def normalize (c : TextChange) : TextChange :=
  { c with range := c.range.normalize }

/-- A batch, each range normalized, in ascending order of `range.start`. The sort is stable: changes
    with the same start stay as delivered. -/
def sortByStart (cs : List TextChange) : List TextChange :=
  (cs.map normalize).mergeSort fun a b => a.range.start ≤ b.range.start

theorem sortByStart_perm (cs : List TextChange) :
    (sortByStart cs).Perm (cs.map normalize) :=
  List.mergeSort_perm _ _

/-- `sortByStart cs` ascends in `range.start`. -/
theorem pairwise_sortByStart (cs : List TextChange) :
    (sortByStart cs).Pairwise fun a b => a.range.start ≤ b.range.start := by
  have h : (sortByStart cs).Pairwise fun a b => decide (a.range.start ≤ b.range.start) := by
    refine List.pairwise_mergeSort (fun a b c h_ab h_bc => ?_) (fun a b => ?_) _
    · simp only [decide_eq_true_eq] at *
      exact Position.le_trans h_ab h_bc
    · simpa using Position.le_total a.range.start b.range.start
  simpa using h

end TextChange

end ScopeTokens
