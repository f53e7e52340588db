/-
  ScopeTokens.Text.Position

  Positions in a text, and ranges between them. A `Position` is a line number and
  a number of characters in that line, both from zero, ordered by line and then by
  column. A `TextRange` goes from `start` to `stop`, and may have the two the
  wrong way round; `normalize` puts them in order.
-/

namespace ScopeTokens

/-- A place in a text: a line number and a character `column` in that line, both from zero. -/
structure Position where
  line : Nat
  column : Nat
  deriving DecidableEq, Repr, Inhabited

namespace Position

/-- Lexicographic order: `line` first, then `column`. -/
def cmp (p q : Position) : Ordering :=
  (compare p.line q.line).then (compare p.column q.column)

instance : LT Position := ⟨fun p q => p.line < q.line ∨ (p.line = q.line ∧ p.column < q.column)⟩

instance : LE Position := ⟨fun p q => p.line < q.line ∨ (p.line = q.line ∧ p.column ≤ q.column)⟩

theorem lt_iff {p q : Position} :
    p < q ↔ p.line < q.line ∨ (p.line = q.line ∧ p.column < q.column) := Iff.rfl

theorem le_iff {p q : Position} :
    p ≤ q ↔ p.line < q.line ∨ (p.line = q.line ∧ p.column ≤ q.column) := Iff.rfl

instance (p q : Position) : Decidable (p < q) := decidable_of_iff _ lt_iff.symm

instance (p q : Position) : Decidable (p ≤ q) := decidable_of_iff _ le_iff.symm

theorem not_lt {p q : Position} : ¬ p < q ↔ q ≤ p := by
  rw [lt_iff, le_iff]; omega

theorem le_of_lt {p q : Position} (h : p < q) : p ≤ q := by
  rw [lt_iff] at h; rw [le_iff]; omega

theorem le_total (p q : Position) : p ≤ q ∨ q ≤ p := by
  rw [le_iff, le_iff]; omega

theorem le_trans {p q r : Position} (h_pq : p ≤ q) (h_qr : q ≤ r) : p ≤ r := by
  rw [le_iff] at *; omega

end Position

/-- The part of a text from `start` to `stop`. The ends need not be in order. -/
structure TextRange where
  start : Position
  stop : Position
  deriving DecidableEq, Repr, Inhabited

namespace TextRange

/-- The range with the ends `p` and `q`, the smaller one as `start`. -/
def between (p q : Position) : TextRange :=
  if q < p then ⟨q, p⟩ else ⟨p, q⟩

/-- `r` with its ends in order. -/
def normalize (r : TextRange) : TextRange :=
  between r.start r.stop

/-- Columns `start` to `stop` of line `line`, in order. -/
def onLine (line start stop : Nat) : TextRange :=
  between ⟨line, start⟩ ⟨line, stop⟩

/-- The largest 64-bit column. It resolves to the end of its line, whatever the line. -/
def lineEnd : Nat :=
  UInt64.size - 1

/-- Lines `first` to `last` as a whole: from column `0` of the one to `lineEnd` of the other. -/
def wholeLines (first last : Nat) : TextRange :=
  between ⟨first, 0⟩ ⟨last, lineEnd⟩

/-- The empty range at `p`. -/
def point (p : Position) : TextRange :=
  ⟨p, p⟩

/-- `start` and `stop` coincide. -/
def isEmpty (r : TextRange) : Bool :=
  r.start == r.stop

/-- Distance between the lines of the two ends, whichever comes first. -/
def lineSpan (r : TextRange) : Nat :=
  (r.stop.line - r.start.line) + (r.start.line - r.stop.line)

/-- `r.start ≤ p < r.stop`. -/
def contains (r : TextRange) (p : Position) : Bool :=
  r.start ≤ p && p < r.stop

/-! ## Ends in order -/

theorem start_le_stop_between (p q : Position) : (between p q).start ≤ (between p q).stop := by
  unfold between
  split
  · rename_i h; exact Position.le_of_lt h
  · rename_i h; exact Position.not_lt.1 h

theorem start_le_stop_normalize (r : TextRange) : r.normalize.start ≤ r.normalize.stop :=
  start_le_stop_between r.start r.stop

/-- An ordered range is left alone. -/
theorem normalize_of_le {r : TextRange} (h : r.start ≤ r.stop) : r.normalize = r := by
  unfold normalize between
  rw [if_neg (Position.not_lt.2 h)]

/-- `normalize` is idempotent. -/
theorem normalize_normalize (r : TextRange) : r.normalize.normalize = r.normalize :=
  normalize_of_le (start_le_stop_normalize r)

theorem lineSpan_of_le {r : TextRange} (h : r.start ≤ r.stop) :
    r.lineSpan = r.stop.line - r.start.line := by
  rw [Position.le_iff] at h
  unfold lineSpan
  omega

end TextRange

end ScopeTokens
