/-
  ScopeTokens.Proofs.Text.Crossings

  Breaks that two pieces of a text make together. A concatenation of pieces has as
  many breaks as its pieces, less one for every `\r` that stands directly before
  the `\n` of another piece (`countBreaks_flatten`). A batch of changes puts the
  text together from stretches of the old one and the new texts between them
  (`Document.pieces`). No stretch is cut inside a break, so after the batch there
  are as many lines as the changes say, less these crossings, and never more
  (`lineCount_applyChanges`).
-/

import Mathlib
import ScopeTokens.Proofs.Text.Pieces

namespace ScopeTokens

/-! ## Texts in pieces -/

/-- The characters of `pieces` in a row, each with the number of its piece; the first piece has
    number `k`. -/
def numberedFrom (k : Nat) (pieces : List (List Char)) : List (Char × Nat) :=
  (pieces.zipIdx k).flatMap fun p => p.1.map fun c => (c, p.2)

/-- `a` is a `\r` and `b` a `\n` of another piece. -/
def Crosses (a b : Char × Nat) : Prop :=
  a.1 = '\r' ∧ b.1 = '\n' ∧ a.2 ≠ b.2

instance (a b : Char × Nat) : Decidable (Crosses a b) :=
  inferInstanceAs (Decidable (_ ∧ _))

/-- Number of neighbours in `cs` that cross. -/
def countCrosses (cs : List (Char × Nat)) : Nat :=
  (cs.zip cs.tail).countP fun p => Crosses p.1 p.2

/-- Number of breaks of `pieces.flatten` that two pieces make together. -/
def crossings (pieces : List (List Char)) : Nat :=
  countCrosses (numberedFrom 0 pieces)

theorem numberedFrom_cons (k : Nat) (p : List Char) (pieces : List (List Char)) :
    numberedFrom k (p :: pieces) = p.map (·, k) ++ numberedFrom (k + 1) pieces := by
  rw [numberedFrom, List.zipIdx_cons, List.flatMap_cons, numberedFrom]

theorem map_fst_numberedFrom (k : Nat) (pieces : List (List Char)) :
    (numberedFrom k pieces).map Prod.fst = pieces.flatten := by
  induction pieces generalizing k with
  | nil => rfl
  | cons p pieces ih =>
    rw [numberedFrom_cons, List.map_append, List.map_map, ih, List.flatten_cons]
    congr 1
    exact List.map_id p

theorem le_of_mem_numberedFrom {k : Nat} {pieces : List (List Char)} {b : Char × Nat}
    (h : b ∈ numberedFrom k pieces) : k ≤ b.2 := by
  induction pieces generalizing k with
  | nil => exact absurd h List.not_mem_nil
  | cons p pieces ih =>
    rw [numberedFrom_cons, List.mem_append] at h
    rcases h with h | h
    · obtain ⟨c, -, rfl⟩ := List.mem_map.1 h
      exact Nat.le_refl k
    · exact Nat.le_of_succ_le (ih h)

theorem countCrosses_cons_cons (a b : Char × Nat) (cs : List (Char × Nat)) :
    countCrosses (a :: b :: cs) = countCrosses (b :: cs) + if Crosses a b then 1 else 0 := by
  rw [countCrosses, List.tail_cons, List.zip_cons_cons, List.countP_cons]
  simp only [decide_eq_true_eq]
  rfl

/-- Piece `k` in front of later pieces adds a crossing only at its seam. -/
theorem countCrosses_append {k : Nat} {cs : List (Char × Nat)} (h : ∀ b ∈ cs, k < b.2)
    (p : List Char) :
    countCrosses (p.map (·, k) ++ cs) = countCrosses cs + seam p (cs.map Prod.fst) := by
  induction p with
  | nil => rw [seam_of_not_joins (not_joins_nil_left _)]; rfl
  | cons c p ih =>
    cases p with
    -- the last character of the piece meets the first one behind it
    | nil =>
      cases cs with
      | nil => rw [List.map_nil, seam_of_not_joins (not_joins_nil_right _)]; rfl
      | cons b cs =>
        have h_ne : k ≠ b.2 := Nat.ne_of_lt (h b List.mem_cons_self)
        have h_meet : Crosses (c, k) b ↔ Joins [c] ((b :: cs).map Prod.fst) := by
          simp [Crosses, joins_singleton, h_ne]
        rw [List.map_singleton, List.singleton_append, countCrosses_cons_cons, seam]
        simp only [h_meet]
    -- the two first ones are of the same piece
    | cons d p =>
      have h_same : ¬ Crosses (c, k) (d, k) := fun h_crosses => h_crosses.2.2 rfl
      have h_seam : seam (c :: d :: p) (cs.map Prod.fst) = seam (d :: p) (cs.map Prod.fst) := by
        simp only [seam, joins_cons_cons]
      rw [List.map_cons, List.map_cons, List.cons_append, List.cons_append, countCrosses_cons_cons,
        if_neg h_same, Nat.add_zero, h_seam]
      exact ih

/-- `pieces.flatten` has the breaks of its pieces, less one for each crossing. -/
theorem countBreaks_flatten_add (k : Nat) (pieces : List (List Char)) :
    countBreaks pieces.flatten + countCrosses (numberedFrom k pieces) =
      (pieces.map countBreaks).sum := by
  induction pieces generalizing k with
  | nil => rfl
  | cons p pieces ih =>
    have h_breaks := countBreaks_append p pieces.flatten
    have h_behind : ∀ b ∈ numberedFrom (k + 1) pieces, k < b.2 := fun b h_b =>
      le_of_mem_numberedFrom h_b
    have h_crosses := countCrosses_append h_behind p
    rw [map_fst_numberedFrom] at h_crosses
    have h_rest := ih (k + 1)
    rw [List.flatten_cons, numberedFrom_cons, List.map_cons, List.sum_cons]
    omega

theorem countBreaks_flatten (pieces : List (List Char)) :
    countBreaks pieces.flatten + crossings pieces = (pieces.map countBreaks).sum :=
  countBreaks_flatten_add 0 pieces

/-! ## Edited texts -/

namespace Splice

/-- The pieces of `substitute cs done ss`: kept stretches and new texts, alternately. -/
def pieces (cs : List Char) (done : Nat) : List Splice → List (List Char)
  | [] => [cs.drop done]
  | s :: ss => (cs.drop done).take (s.start - done) :: s.text :: pieces cs s.stop ss

theorem flatten_pieces (cs : List Char) (done : Nat) (ss : List Splice) :
    (pieces cs done ss).flatten = substitute cs done ss := by
  induction ss generalizing done with
  | nil => exact List.flatten_singleton
  | cons s ss ih =>
    rw [pieces, List.flatten_cons, List.flatten_cons, ih, substitute_cons, List.append_assoc]

theorem sum_countBreaks_pieces (cs : List Char) (done : Nat) (ss : List Splice) :
    ((pieces cs done ss).map countBreaks).sum = pieceBreaks cs done ss := by
  induction ss generalizing done with
  | nil => exact Nat.add_zero _
  | cons s ss ih =>
    rw [pieces, List.map_cons, List.map_cons, List.sum_cons, List.sum_cons, ih, pieceBreaks,
      Nat.add_assoc]

end Splice

namespace Document

/-- The pieces that `changes` make the text of `d` of: stretches of the old text and new texts,
    alternately. -/
def pieces (d : Document) (changes : List TextChange) : List (List Char) :=
  Splice.pieces d.text.toList 0
    ((TextChange.sortByStart changes).map (Splice.ofChange d.text.toList))

/-- Line count after a well placed batch. The new text is the concatenation of `d.pieces changes`,
    and it has `totalDelta` lines more than the old one, less one for each crossing: a `\r` and a
    `\n` that were not together in one piece. Stretches are not cut inside a break, as no position
    resolves there, so the line count is never above what the changes say. -/
theorem lineCount_applyChanges {d : Document} {changes : List TextChange}
    (h : WellPlaced d.text.toList changes) :
    (d.applyChanges changes).text.toList = (d.pieces changes).flatten ∧
    ((d.applyChanges changes).lineCount : Int) + crossings (d.pieces changes) =
      d.lineCount + TextChange.totalDelta (changes.map TextChange.normalize) ∧
    ((d.applyChanges changes).lineCount : Int) ≤
      d.lineCount + TextChange.totalDelta (changes.map TextChange.normalize) ∧
    ∀ p, ¬ InsideBreak d.text.toList (d.charIndex p) := by
  have h_text : (d.applyChanges changes).text.toList = (d.pieces changes).flatten := by
    rw [toList_applyChanges h, pieces, Splice.flatten_pieces]
  have h_sum : ((d.pieces changes).map countBreaks).sum = Splice.pieceBreaks d.text.toList 0
      ((TextChange.sortByStart changes).map (Splice.ofChange d.text.toList)) :=
    Splice.sum_countBreaks_pieces _ _ _
  have h_breaks := countBreaks_flatten (d.pieces changes)
  have h_delta := (PlacedFrom.sortByStart h).pieceBreaks_eq
  rw [List.drop_zero, TextChange.totalDelta_sortByStart] at h_delta
  rw [← h_text, h_sum] at h_breaks
  have h_count : ((d.applyChanges changes).lineCount : Int) + crossings (d.pieces changes) =
      d.lineCount + TextChange.totalDelta (changes.map TextChange.normalize) := by
    rw [lineCount_eq, lineCount_eq, TextChange.totalDelta_map_normalize]
    omega
  refine ⟨h_text, h_count, ?_, not_insideBreak_charIndex _⟩
  omega

/-- Four lines, of which the first ends in a lone `\r`. -/
def crDocument : Document :=
  .new ⟨0⟩ "plaintext" "a\rb\nc\nd"

/-- Makes two crossings: `x\r` is put in front of a `\n`, and the text between `\r` and `\n` is
    taken out. -/
def crossingChanges : List TextChange :=
  [⟨⟨⟨2, 1⟩, ⟨2, 1⟩⟩, "x\r"⟩, ⟨⟨⟨1, 1⟩, ⟨1, 0⟩⟩, ""⟩]

theorem lineCount_applyChanges_crossingChanges :
    WellPlaced crDocument.text.toList crossingChanges ∧
    (crDocument.applyChanges crossingChanges).text.toList =
      ['a', '\r', '\n', 'c', 'x', '\r', '\n', 'd'] ∧
    crDocument.lineCount = 4 ∧
    TextChange.totalDelta (crossingChanges.map TextChange.normalize) = 1 ∧
    crossings (crDocument.pieces crossingChanges) = 2 ∧
    (crDocument.applyChanges crossingChanges).lineCount = 3 := by
  have h_placed : WellPlaced crDocument.text.toList crossingChanges := ⟨by decide, by decide⟩
  have h_before : crDocument.lineCount = 4 := by decide
  have h_delta : TextChange.totalDelta (crossingChanges.map TextChange.normalize) = 1 := by decide
  have h_pieces : crDocument.pieces crossingChanges =
      [['a', '\r'], [], ['\n', 'c'], ['x', '\r'], ['\n', 'd']] := by cbv
  have h_crossings : crossings (crDocument.pieces crossingChanges) = 2 := by
    rw [h_pieces]
    decide
  obtain ⟨h_text, h_count, -, -⟩ := lineCount_applyChanges h_placed
  rw [h_pieces] at h_text
  exact ⟨h_placed, h_text, h_before, h_delta, h_crossings, by omega⟩

end Document

end ScopeTokens
