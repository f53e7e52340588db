/-
  ScopeTokens.Text.Splice

  Splices of a text: the characters between two offsets give way to new ones.
  `Splice.ofChange` resolves a change against the text before the batch.
  `applyAll` carries a batch out from the back of the text to its front, so that
  the offsets of splices still to come stay valid; splices with the same start are
  carried out as they were delivered.
-/

import ScopeTokens.Text.Change
import ScopeTokens.Text.Offset

namespace ScopeTokens

/-- Replacement of the characters at `start ≤ i < stop` by `text`. -/
structure Splice where
  start : Nat
  stop : Nat
  text : List Char
  deriving DecidableEq, Repr

namespace Splice

/-- The splice of `cs` that `c` stands for. Its ends are resolved with `charIndex`, and `stop` is at
    least `start`. -/
def ofChange (cs : List Char) (c : TextChange) : Splice :=
  let r := c.range.normalize
  let start := charIndex cs r.start
  ⟨start, max (charIndex cs r.stop) start, c.text.toList⟩

/-- `cs` after the splice `s`. -/
def apply (s : Splice) (cs : List Char) : List Char :=
  cs.take s.start ++ s.text ++ cs.drop s.stop

/-- The order in which a batch is carried out: descending `start`, stable. -/
def backToFront (ss : List Splice) : List Splice :=
  ss.mergeSort fun a b => b.start ≤ a.start

/-- `cs` after a batch, one splice after the other in the order of `backToFront`. -/
def applyAll (ss : List Splice) (cs : List Char) : List Char :=
  (backToFront ss).foldl (fun cs s => s.apply cs) cs

theorem start_le_stop_ofChange (cs : List Char) (c : TextChange) :
    (ofChange cs c).start ≤ (ofChange cs c).stop :=
  Nat.le_max_right _ _

theorem backToFront_perm (ss : List Splice) : (backToFront ss).Perm ss :=
  List.mergeSort_perm _ _

end Splice

end ScopeTokens
