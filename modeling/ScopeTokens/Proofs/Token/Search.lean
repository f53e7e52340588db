/-
  ScopeTokens.Proofs.Token.Search

  Binary search in the marks of a line and in its flat buffer. Both halve the same
  interval (`searchWords_eq`), and the latter reads no word past the end.
  `indexOf` is the one token that holds the offset, or the last one past the end
  of the line; it is monotone, and finds each token by its start
  (`holds_iff_eq_indexOf_and_monotone`).
-/

import ScopeTokens.Proofs.Token.Buffer
import ScopeTokens.Proofs.Token.Lookup

namespace ScopeTokens

namespace TokenLine

/-! ## The buffer of a line -/

/-- Binary search between tokens `low` and `high` by the ends in `words`; `none` if a word is read
    past the end of the buffer. -/
def searchWords (words : List UInt32) (offset : UInt32) (low high : Nat) : Option Nat :=
  if low < high then
    let mid := low + (high - low) / 2
    match words[mid * 2]? with
    | none => none
    | some stop =>
      if stop ≤ offset then searchWords words offset (mid + 1) high
      else searchWords words offset low mid
  else some low
termination_by high - low
decreasing_by all_goals omega

/-- `indexOf` by the buffer and the `length` of the line; `none` if a word is read that is not
    there. -/
def indexInWords (words : List UInt32) (length offset : Nat) : Option Nat :=
  if words.length / 2 = 0 then none
  else if length ≤ offset then some (words.length / 2 - 1)
  else searchWords words (UInt32.ofNat offset) 0 (words.length / 2 - 1)

theorem ofNat_le_ofNat_iff {i j : Nat} (h_i : i < UInt32.size) (h_j : j < UInt32.size) :
    UInt32.ofNat i ≤ UInt32.ofNat j ↔ i ≤ j := by
  rw [UInt32.le_iff_toNat_le, UInt32.toNat_ofNat_of_lt' h_i, UInt32.toNat_ofNat_of_lt' h_j]

/-- One step of `searchWords`, at a word that is there. -/
theorem searchWords_of_lt {words : List UInt32} {offset stop : UInt32} {low high : Nat}
    (h_lt : low < high) (h_word : words[(low + (high - low) / 2) * 2]? = some stop) :
    searchWords words offset low high =
      if stop ≤ offset then searchWords words offset (low + (high - low) / 2 + 1) high
      else searchWords words offset low (low + (high - low) / 2) := by
  rw [searchWords, if_pos h_lt]
  dsimp only
  rw [h_word]

/-- `searchWords` in the buffer of `a` is `search` in its marks, and stays within the buffer. -/
theorem searchWords_eq {a : TokenLine} {offset low high : Nat} (h_high : high < a.count)
    (h_fits : ∀ k ∈ a.marks, k.stop < UInt32.size) (h_offset : offset < UInt32.size) :
    searchWords a.toWords (UInt32.ofNat offset) low high =
      some (search a.marks offset low high) := by
  -- the even slots hold the ends, each within 32 bits
  have h_word {i : Nat} {k : Mark} (h_k : a.marks[i]? = some k) :
      a.toWords[i * 2]? = some (UInt32.ofNat k.stop) := by
    rw [← Array.getElem?_toList] at h_k
    show (wordsOfMarks a.marks.toList)[i * 2]? = _
    rw [getElem?_wordsOfMarks, h_k]
    rfl
  fun_induction search a.marks offset low high with
  | case1 low high h_lt mid h_none =>
    have h_mid : mid < a.marks.size := by
      have h_count : high < a.marks.size := h_high
      omega
    exact absurd h_none (by simp [h_mid])
  | case2 low high h_lt mid k h_k h_before ih =>
    have h_stop := h_fits k (Array.mem_of_getElem? h_k)
    rw [searchWords_of_lt h_lt (h_word h_k),
      if_pos ((ofNat_le_ofNat_iff h_stop h_offset).2 h_before)]
    exact ih h_high
  | case3 low high h_lt mid k h_k h_after ih =>
    have h_stop := h_fits k (Array.mem_of_getElem? h_k)
    rw [searchWords_of_lt h_lt (h_word h_k),
      if_neg (fun h_le => h_after ((ofNat_le_ofNat_iff h_stop h_offset).1 h_le))]
    exact ih (by omega)
  | case4 low high h_not =>
    rw [searchWords, if_neg h_not]

/-! ## Lines that partition their text -/

namespace Partitions

variable {a : TokenLine} {text : String}

theorem endOffset_le_length (h : a.Partitions text) {i : Nat} (h_i : i < a.count) :
    a.endOffset i ≤ text.length := by
  rw [← h.last]
  rcases Nat.lt_or_ge i (a.count - 1) with h_lt | h_ge
  · have h_before := h.endOffset_le_startOffset h_lt (by omega)
    have h_last := h.start_le (i := a.count - 1) (by omega)
    omega
  · obtain rfl : i = a.count - 1 := by omega
    exact Nat.le_refl _

theorem endOffset_of_count_le (h : a.Partitions text) {i : Nat} (h_i : a.count ≤ i) :
    a.endOffset i = text.length := by
  rw [endOffset, Array.getElem?_eq_none h_i]
  exact h.describes.length_eq

/-- A token that holds an offset of the line exists. -/
theorem lt_count_of_holds (h : a.Partitions text) {i offset : Nat} (h_offset : offset < text.length)
    (h_i : a.Holds i offset) : i < a.count := by
  have h_pos := h.describes.count_pos
  apply Nat.lt_of_not_le
  intro h_past
  obtain ⟨j, rfl⟩ := Nat.exists_eq_succ_of_ne_zero (show i ≠ 0 by omega)
  have h_start : a.endOffset j ≤ offset := h_i.1
  rcases Nat.lt_or_ge j a.count with h_j | h_j
  · obtain rfl : j = a.count - 1 := by omega
    rw [h.last] at h_start
    omega
  · rw [h.endOffset_of_count_le h_j] at h_start
    omega

/-- Token `i` holds an offset of the line exactly if `indexOf` finds it. -/
theorem holds_iff_eq_indexOf (h : a.Partitions text) {offset : Nat}
    (h_offset : offset < text.length) (i : Nat) : a.Holds i offset ↔ i = a.indexOf offset := by
  obtain ⟨h_lt, h_holds⟩ := h.holds_indexOf h_offset
  constructor
  · intro h_i
    exact h.holds_unique (h.lt_count_of_holds h_offset h_i) h_lt h_i h_holds
  · rintro rfl
    exact h_holds

theorem monotone_indexOf (h : a.Partitions text) : Monotone a.indexOf := by
  intro offset offset' h_le
  have h_found := h.indexOf_lt offset
  rcases Nat.lt_or_ge offset' text.length with h_within | h_past
  · obtain ⟨-, h_start, -⟩ := h.holds_indexOf (Nat.lt_of_le_of_lt h_le h_within)
    obtain ⟨h_lt, -, h_stop⟩ := h.holds_indexOf h_within
    apply Nat.le_of_not_lt
    intro h_left
    -- a token further to the left ends before the smaller offset
    have h_before := h.endOffset_le_startOffset h_left h_found
    omega
  · rw [h.indexOf_of_length_le h_past]
    omega

theorem indexOf_startOffset (h : a.Partitions text) {i : Nat} (h_i : i < a.count) :
    a.indexOf (a.startOffset i) = i := by
  rcases h.start_lt i h_i with h_lt | ⟨h_empty, h_one⟩
  · have h_stop := h.endOffset_le_length h_i
    have h_holds : a.Holds i (a.startOffset i) := ⟨Nat.le_refl _, h_lt⟩
    exact ((h.holds_iff_eq_indexOf (by omega) i).1 h_holds).symm
  · obtain rfl : i = 0 := by omega
    rw [h.indexOf_of_length_le (by omega)]
    omega

end Partitions

/-! ## Lines that can be had -/

namespace Constructible

variable {a : TokenLine}

theorem stop_lt (h : a.Constructible) : ∀ k ∈ a.marks, k.stop < UInt32.size := by
  intro k h_k
  obtain ⟨i, h_i⟩ := Array.getElem?_of_mem h_k
  have h_lt : i < a.count := (Array.getElem?_eq_some_iff.1 h_i).1
  have h_stop := h.partitions.endOffset_le_length h_lt
  rw [endOffset_of_getElem? h_i] at h_stop
  exact Nat.lt_of_le_of_lt h_stop h.exists_ofEnds.1

theorem indexInWords_eq (h : a.Constructible) (offset : Nat) :
    indexInWords a.toWords a.length offset = some (a.indexOf offset) := by
  have h_pos := h.partitions.describes.count_pos
  have h_count : a.toWords.length / 2 = a.count := by
    have h_words := length_wordsOfMarks a.marks.toList
    show (wordsOfMarks a.marks.toList).length / 2 = a.marks.size
    rw [h_words, Array.length_toList]
    omega
  rw [indexInWords, indexOf, h_count, if_neg (by omega)]
  by_cases h_past : a.length ≤ offset
  · rw [if_pos h_past, if_pos h_past]
  · rw [if_neg h_past, if_neg h_past]
    have h_length := h.length_lt
    exact searchWords_eq (by omega) h.stop_lt (by omega)

end Constructible

/-- `indexOf` is a token of `a`: the only one that holds `offset` if that is on the line, the last
    one otherwise. It is monotone in the offset, finds each token by its start, and is what binary
    search in the flat buffer finds (`indexInWords`). -/
theorem holds_iff_eq_indexOf_and_monotone {a : TokenLine} (h : a.Constructible) :
    (∀ offset, a.indexOf offset < a.count ∧
      (offset < a.length → ∀ i, a.Holds i offset ↔ i = a.indexOf offset) ∧
      (a.length ≤ offset → a.indexOf offset = a.count - 1) ∧
      indexInWords a.toWords a.length offset = some (a.indexOf offset)) ∧
    Monotone a.indexOf ∧
    ∀ i < a.count, a.indexOf (a.startOffset i) = i := by
  have h_partitions := h.partitions
  refine ⟨?_, h_partitions.monotone_indexOf, fun i => h_partitions.indexOf_startOffset⟩
  intro offset
  rw [h_partitions.length_eq]
  refine ⟨h_partitions.indexOf_lt offset, h_partitions.holds_iff_eq_indexOf,
    h_partitions.indexOf_of_length_le, ?_⟩
  rw [← h_partitions.length_eq]
  exact h.indexInWords_eq offset

/-- A line whose second token has one character. -/
def accentedLine : TokenLine :=
  assemble [⟨2, ⟨1⟩⟩, ⟨3, ⟨257⟩⟩, ⟨5, ⟨1⟩⟩] "añ€de"

theorem holds_iff_eq_indexOf_and_monotone_accentedLine :
    accentedLine.Constructible ∧
    accentedLine.indexOf 1 = 0 ∧ accentedLine.indexOf 2 = 1 ∧ accentedLine.indexOf 5 = 2 ∧
    accentedLine.indexOf (accentedLine.startOffset 2) = 2 ∧
    indexInWords accentedLine.toWords accentedLine.length 2 = some 1 := by
  have h_read : ofEnds [2, 1, 3, 257, 5, 1] "añ€de" = .ok accentedLine := by decide
  have h_line : accentedLine.Constructible := .ends h_read
  obtain ⟨h_found, -, h_start⟩ := holds_iff_eq_indexOf_and_monotone h_line
  obtain ⟨-, h_before, -, -⟩ := h_found 1
  obtain ⟨-, h_on, -, h_words⟩ := h_found 2
  obtain ⟨-, -, h_past, -⟩ := h_found 5
  have h_boundary : accentedLine.indexOf 2 = 1 := ((h_on (by decide) 1).1 (by decide)).symm
  rw [h_boundary] at h_words
  exact ⟨h_line, ((h_before (by decide) 0).1 (by decide)).symm, h_boundary, h_past (by decide),
    h_start 2 (by decide), h_words⟩

end TokenLine

end ScopeTokens
