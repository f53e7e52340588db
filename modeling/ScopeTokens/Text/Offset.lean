/-
  ScopeTokens.Text.Offset

  Character offsets. `charIndex` resolves a position to the number of characters
  in front of it in the whole text. A column past the end of its line resolves to
  the end of the line's content, in front of the break; a line past the last one
  to the end of the text.
-/

import ScopeTokens.Text.Line
import ScopeTokens.Text.Position

namespace ScopeTokens

namespace Line

/-- Offset of `column` on line `n` in the concatenation of the given lines. `column` is cut to the
    line's content. -/
def offset : List Line → Nat → Nat → Nat
  | [], _, _ => 0
  | l :: _, 0, column => min column l.content.length
  | l :: ls, n + 1, column => l.size + offset ls n column

/-- Sum of `Line.size` over the given lines. -/
def totalSize (ls : List Line) : Nat :=
  ls.foldr (fun l n => l.size + n) 0

/-- `offset` never passes `totalSize`. -/
theorem offset_le_totalSize (ls : List Line) (n column : Nat) :
    offset ls n column ≤ totalSize ls := by
  induction ls generalizing n with
  | nil => simp [offset, totalSize]
  | cons l ls ih =>
    cases n with
    | zero =>
      simp only [offset, totalSize, List.foldr_cons, size]
      omega
    | succ n =>
      have := ih n
      simp only [offset, totalSize, List.foldr_cons] at *
      omega

/-- A line number `n ≥ ls.length` resolves to the end of the text. -/
theorem offset_of_length_le {ls : List Line} {n : Nat} (h : ls.length ≤ n) (column : Nat) :
    offset ls n column = totalSize ls := by
  induction ls generalizing n with
  | nil => simp [offset, totalSize]
  | cons l ls ih =>
    cases n with
    | zero => simp at h
    | succ n =>
      simp only [List.length_cons, Nat.add_le_add_iff_right] at h
      simp [offset, totalSize, ih h]

end Line

/-- The offset in `cs` that `p` resolves to. -/
def charIndex (cs : List Char) (p : Position) : Nat :=
  Line.offset (Line.split cs) p.line p.column

end ScopeTokens
