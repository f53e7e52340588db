/-
  ScopeTokens.Cache.Pending

  The log of line ranges that edits have touched and no query has settled since.
  The ranges ascend, with at least one line between any two. A log of more than
  `limit` ranges is replaced by the one range that covers it (`collapse`).
-/

namespace ScopeTokens

/-- The lines from `start` up to, and without, `stop`. -/
structure LineRange where
  start : Nat
  stop : Nat
  deriving DecidableEq, Repr, Inhabited

namespace LineRange

/-- `r.start ≤ line < r.stop`. -/
def contains (r : LineRange) (line : Nat) : Bool :=
  r.start ≤ line && line < r.stop

theorem contains_iff {r : LineRange} {line : Nat} :
    r.contains line = true ↔ r.start ≤ line ∧ line < r.stop := by
  rw [contains, Bool.and_eq_true, decide_eq_true_eq, decide_eq_true_eq]

/-- Line `line` is in the range that consists of it alone. -/
theorem contains_self (line : Nat) : (⟨line, line + 1⟩ : LineRange).contains line = true :=
  contains_iff.2 ⟨Nat.le_refl line, Nat.lt_succ_self line⟩

/-- The smallest range that covers `r` and `s`. -/
def cover (r s : LineRange) : LineRange :=
  ⟨min r.start s.start, max r.stop s.stop⟩

end LineRange

/-- Touched ranges in ascending order, with a line or more between any two. -/
abbrev PendingLog := List LineRange

namespace PendingLog

/-- Number of ranges that the log may hold. -/
def limit : Nat := 32

/-- Puts `r` in front of ranges that do not end before it, and joins it to those that it touches. -/
def absorb (r : LineRange) : List LineRange → List LineRange
  | [] => [r]
  | s :: ss => if s.start ≤ r.stop then absorb (r.cover s) ss else r :: s :: ss

/-- Puts `r` in its place, and joins it to the ranges that it touches. -/
def insert (r : LineRange) : List LineRange → List LineRange
  | [] => [r]
  | s :: ss => if s.stop < r.start then s :: insert r ss else absorb r (s :: ss)

/-- A log of more than `limit` ranges becomes the one range from its first line to its last. -/
def collapse (log : PendingLog) : PendingLog :=
  if limit < log.length then
    match log.head?, log.getLast? with
    | some first, some last => [⟨first.start, last.stop⟩]
    | _, _ => log
  else log

/-- The log after `r` was touched. -/
def mark (log : PendingLog) (r : LineRange) : PendingLog :=
  collapse (insert r log)

/-- Where a range that started at `line` starts after lines `start` to `stop` became lines `start`
    to `last`. A `line` among the replaced ones goes to `start`. -/
def shiftStart (start stop last line : Nat) : Nat :=
  if line ≤ start then line
  else if stop < line then line - stop + last
  else start

/-- The same for the end of a range. A `line` among the replaced ones goes past the new ones. -/
def shiftStop (start stop last line : Nat) : Nat :=
  if line ≤ start then line
  else if stop < line then line - stop + last
  else last + 1

/-- The log after lines `start` to `stop` became lines `start` to `last`; its ranges are moved and
    marked again one by one. -/
def shift (log : PendingLog) (start stop last : Nat) : PendingLog :=
  log.foldl
    (fun log r => mark log ⟨shiftStart start stop last r.start, shiftStop start stop last r.stop⟩)
    []

theorem length_collapse_le (log : PendingLog) : (collapse log).length ≤ limit := by
  unfold collapse
  split
  · split
    · simp [limit]
    · rename_i h_none
      cases log with
      | nil => simp
      | cons r rs =>
        have h_last := List.getLast?_eq_some_getLast (l := r :: rs) (by simp)
        exact absurd h_last (h_none r _ rfl)
  · omega

/-- `mark` keeps the log within `limit`. -/
theorem length_mark_le (log : PendingLog) (r : LineRange) : (mark log r).length ≤ limit :=
  length_collapse_le _

end PendingLog

end ScopeTokens
