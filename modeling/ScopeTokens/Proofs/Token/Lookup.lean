/-
  ScopeTokens.Proofs.Token.Lookup

  `indexOf` finds the token that holds an offset. The search keeps two tokens, of
  which the first starts no later than the offset and the second ends behind it
  (`search_holds`). So the token that is found `Holds` the offset
  (`holds_indexOf`), and in a partition no other does (`Partitions.holds_unique`).
-/

import ScopeTokens.Proofs.Token.Partition

namespace ScopeTokens

namespace TokenLine

/-- `offset` is in token `i`: at or behind its start, and in front of its end. -/
def Holds (a : TokenLine) (i offset : Nat) : Prop :=
  a.startOffset i ≤ offset ∧ offset < a.endOffset i

instance (a : TokenLine) (i offset : Nat) : Decidable (a.Holds i offset) :=
  inferInstanceAs (Decidable (_ ∧ _))

theorem endOffset_of_getElem? {a : TokenLine} {i : Nat} {k : Mark} (h : a.marks[i]? = some k) :
    a.endOffset i = k.stop := by
  rw [endOffset, h]

theorem metadata_of_getElem? {a : TokenLine} {i : Nat} {k : Mark} (h : a.marks[i]? = some k) :
    a.metadata i = k.metadata := by
  have h_lt : i < a.count := (Array.getElem?_eq_some_iff.1 h).1
  rw [metadata, Nat.min_eq_left (Nat.le_sub_one_of_lt h_lt), h]

/-- Mark `i`, by `endOffset` and `metadata`. -/
theorem getElem?_marks {a : TokenLine} {i : Nat} (h : i < a.count) :
    a.marks[i]? = some ⟨a.endOffset i, a.metadata i⟩ := by
  have h_mark : a.marks[i]? = some a.marks[i] := Array.getElem?_eq_getElem h
  rw [endOffset_of_getElem? h_mark, metadata_of_getElem? h_mark, h_mark]

/-- Invariant of the search: token `low` starts at or before `offset`, token `high` ends behind
    it. -/
theorem search_holds {a : TokenLine} {offset low high : Nat} (h_le : low ≤ high)
    (h_high : high < a.count) (h_start : a.startOffset low ≤ offset)
    (h_stop : offset < a.endOffset high) :
    search a.marks offset low high ≤ high ∧ a.Holds (search a.marks offset low high) offset := by
  fun_induction search a.marks offset low high with
  | case1 low high h_lt mid h_none =>
    have h_mid : mid < a.count := by omega
    exact absurd h_none (by simp [Array.getElem?_eq_getElem (show mid < a.marks.size from h_mid)])
  | case2 low high h_lt mid k h_k h_before ih =>
    refine ih (by omega) h_high ?_ h_stop
    show a.endOffset mid ≤ offset
    rw [endOffset_of_getElem? h_k]
    exact h_before
  | case3 low high h_lt mid k h_k h_after ih =>
    -- the token in the middle ends after the offset, so nothing behind it is looked at
    have h_mid : offset < a.endOffset mid := by
      rw [endOffset_of_getElem? h_k]
      omega
    obtain ⟨h_found, h_holds⟩ := ih (by omega) (by omega) h_start h_mid
    exact ⟨by omega, h_holds⟩
  | case4 low high h_not =>
    obtain rfl : low = high := by omega
    exact ⟨Nat.le_refl _, h_start, h_stop⟩

namespace Partitions

variable {a : TokenLine} {text : String} {offset : Nat}

/-- On the line, the token that is found holds `offset`. -/
theorem holds_indexOf (h : a.Partitions text) (h_offset : offset < text.length) :
    a.indexOf offset < a.count ∧ a.Holds (a.indexOf offset) offset := by
  have h_pos := h.describes.count_pos
  have h_length := h.describes.length_eq
  have h_last := h.last
  rw [indexOf, if_neg (by omega)]
  have h_stop : offset < a.endOffset (a.count - 1) := by omega
  obtain ⟨h_le, h_holds⟩ := search_holds (Nat.zero_le (a.count - 1)) (by omega)
    (Nat.zero_le offset) h_stop
  exact ⟨by omega, h_holds⟩

/-- At or past the end of the line, the last token is found. -/
theorem indexOf_of_length_le (h : a.Partitions text) (h_offset : text.length ≤ offset) :
    a.indexOf offset = a.count - 1 := by
  rw [indexOf, if_pos]
  rwa [h.describes.length_eq]

/-- `indexOf` is the index of a token, for every `offset`. -/
theorem indexOf_lt (h : a.Partitions text) (offset : Nat) : a.indexOf offset < a.count := by
  rcases Nat.lt_or_ge offset text.length with h_within | h_past
  · exact (h.holds_indexOf h_within).1
  · have h_pos := h.describes.count_pos
    rw [h.indexOf_of_length_le h_past]
    omega

/-- A token ends no later than a later one starts. -/
theorem endOffset_le_startOffset (h : a.Partitions text) {i j : Nat} (h_lt : i < j)
    (h_j : j < a.count) : a.endOffset i ≤ a.startOffset j :=
  h.startOffset_le h_lt (Nat.le_of_lt h_j)

/-- No two tokens hold the same `offset`. -/
theorem holds_unique (h : a.Partitions text) {i j : Nat} (h_i : i < a.count) (h_j : j < a.count)
    (h_holds : a.Holds i offset) (h_holds' : a.Holds j offset) : i = j := by
  obtain ⟨h_start, h_stop⟩ := h_holds
  obtain ⟨h_start', h_stop'⟩ := h_holds'
  rcases Nat.lt_trichotomy i j with h_lt | h_eq | h_gt
  · have := h.endOffset_le_startOffset h_lt h_j
    omega
  · exact h_eq
  · have := h.endOffset_le_startOffset h_gt h_i
    omega

end Partitions

end TokenLine

end ScopeTokens
