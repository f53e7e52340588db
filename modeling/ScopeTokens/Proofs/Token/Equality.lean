/-
  ScopeTokens.Proofs.Token.Equality

  Equality of lines, and of stretches of their tokens. `equalsSlice` tells whether
  two lines share a stretch (`Shares`): same text, and same ends and metadata at
  each index (`equalsSlice_iff`). Adjacent stretches are shared one by one exactly
  if they are shared together (`Shares.split_iff`). The length, the union of
  metadata and the set of kinds are computed from marks and text, so they play no
  part in the equality of constructible lines (`Constructible.eq_iff_shares`).
  Comparing the words of the flat buffers gives the same answer
  (`equalsWords_eq`).
-/

import ScopeTokens.Proofs.Token.Search

namespace ScopeTokens

namespace TokenLine

/-! ## Shared tokens -/

/-- `a` and `b` have the same text, and the same tokens at indices `start ≤ i < stop`, all of which
    exist. -/
structure Shares (a b : TokenLine) (start stop : Nat) : Prop where
  text : a.text = b.text
  left : stop ≤ a.count
  right : stop ≤ b.count
  marks : ∀ i, start ≤ i → i < stop → a.marks[i]? = b.marks[i]?

namespace Shares

variable {a b c : TokenLine} {start mid stop : Nat}

theorem symm (h : a.Shares b start stop) : b.Shares a start stop :=
  ⟨h.text.symm, h.right, h.left, fun i h_start h_stop => (h.marks i h_start h_stop).symm⟩

theorem trans (h : a.Shares b start stop) (h' : b.Shares c start stop) : a.Shares c start stop :=
  ⟨h.text.trans h'.text, h.left, h'.right,
    fun i h_start h_stop => (h.marks i h_start h_stop).trans (h'.marks i h_start h_stop)⟩

/-- Stretches from `start` to `mid` and from `mid` to `stop` are shared exactly if the whole is. An
    empty stretch is shared too, unless it is past the end. -/
theorem split_iff (h_start : start ≤ mid) (h_stop : mid ≤ stop) :
    a.Shares b start mid ∧ a.Shares b mid stop ↔ a.Shares b start stop := by
  constructor
  · rintro ⟨h_front, h_back⟩
    refine ⟨h_back.text, h_back.left, h_back.right, ?_⟩
    intro i h_i h_i'
    by_cases h_mid : i < mid
    · exact h_front.marks i h_i h_mid
    · exact h_back.marks i (Nat.not_lt.1 h_mid) h_i'
  · intro h
    exact ⟨⟨h.text, h_stop.trans h.left, h_stop.trans h.right,
        fun i h_i h_i' => h.marks i h_i (by omega)⟩,
      ⟨h.text, h.left, h.right, fun i h_i h_i' => h.marks i (by omega) h_i'⟩⟩

end Shares

theorem take_drop_eq_iff {α : Type} (xs ys : List α) (start n : Nat) :
    (xs.drop start).take n = (ys.drop start).take n ↔
      ∀ i, start ≤ i → i < start + n → xs[i]? = ys[i]? := by
  rw [List.ext_getElem?_iff]
  constructor
  · intro h i h_start h_stop
    have h_i := h (i - start)
    rwa [List.getElem?_take_of_lt (by omega), List.getElem?_take_of_lt (by omega),
      List.getElem?_drop, List.getElem?_drop, Nat.add_sub_cancel' h_start] at h_i
  · intro h i
    by_cases h_i : i < n
    · rw [List.getElem?_take_of_lt h_i, List.getElem?_take_of_lt h_i, List.getElem?_drop,
        List.getElem?_drop]
      exact h (start + i) (by omega) (by omega)
    · rw [List.getElem?_take_eq_none (by omega), List.getElem?_take_eq_none (by omega)]

theorem equalsSlice_iff (a b : TokenLine) (start n : Nat) :
    a.equalsSlice b start n = true ↔ a.Shares b start (start + n) := by
  have h_marks := take_drop_eq_iff a.marks.toList b.marks.toList start n
  simp only [Array.getElem?_toList] at h_marks
  simp only [equalsSlice, Bool.and_eq_true, beq_iff_eq, decide_eq_true_eq, h_marks]
  constructor
  · rintro ⟨⟨⟨h_text, h_left⟩, h_right⟩, h_same⟩
    exact ⟨h_text, h_left, h_right, h_same⟩
  · rintro ⟨h_text, h_left, h_right, h_same⟩
    exact ⟨⟨⟨h_text, h_left⟩, h_right⟩, h_same⟩

/-! ## Shared words -/

/-- The words at `start ≤ i < stop`, `none` if some are past the end. -/
def wordsAt (words : List UInt32) (start stop : Nat) : Option (List UInt32) :=
  if start ≤ stop ∧ stop ≤ words.length then some ((words.drop start).take (stop - start)) else none

/-- `equalsSlice` on buffers: same text, and same words for the `n` tokens from `start` on. -/
def equalsWords (a b : TokenLine) (start n : Nat) : Bool :=
  if a.text ≠ b.text then false
  else match wordsAt a.toWords (start * 2) ((start + n) * 2),
      wordsAt b.toWords (start * 2) ((start + n) * 2) with
    | some ws, some ws' => ws == ws'
    | _, _ => false

theorem drop_wordsOfMarks (marks : List Mark) (n : Nat) :
    (wordsOfMarks marks).drop (n * 2) = wordsOfMarks (marks.drop n) := by
  induction n generalizing marks with
  | zero => rfl
  | succ n ih =>
    cases marks with
    | nil => simp [wordsOfMarks]
    | cons k ks =>
      rw [wordsOfMarks_cons, Nat.succ_mul, List.drop_succ_cons, List.drop_succ_cons, ih,
        List.drop_succ_cons]

theorem take_wordsOfMarks (marks : List Mark) (n : Nat) :
    (wordsOfMarks marks).take (n * 2) = wordsOfMarks (marks.take n) := by
  induction n generalizing marks with
  | zero => rfl
  | succ n ih =>
    cases marks with
    | nil => simp [wordsOfMarks]
    | cons k ks =>
      rw [wordsOfMarks_cons, Nat.succ_mul, List.take_succ_cons, List.take_succ_cons, ih,
        List.take_succ_cons, wordsOfMarks_cons]

/-- Marks whose offsets fit are equal if their words are. -/
theorem wordsOfMarks_inj {ks ks' : List Mark} (h : ∀ k ∈ ks, k.stop < UInt32.size)
    (h' : ∀ k ∈ ks', k.stop < UInt32.size) : wordsOfMarks ks = wordsOfMarks ks' ↔ ks = ks' := by
  constructor
  · intro h_words
    rw [← marksOfWords_wordsOfMarks h, h_words, marksOfWords_wordsOfMarks h']
  · rintro rfl
    rfl

theorem length_toWords (a : TokenLine) : a.toWords.length = a.count * 2 := by
  show (wordsOfMarks a.marks.toList).length = a.marks.size * 2
  rw [length_wordsOfMarks, Array.length_toList, Nat.mul_comm]

/-- `wordsAt` for `n` tokens of a line are the words of their marks, if all of these exist. -/
theorem wordsAt_toWords (a : TokenLine) (start n : Nat) :
    wordsAt a.toWords (start * 2) ((start + n) * 2) =
      if start + n ≤ a.count then some (wordsOfMarks ((a.marks.toList.drop start).take n))
      else none := by
  have h_fits : (start * 2 ≤ (start + n) * 2 ∧ (start + n) * 2 ≤ a.toWords.length) ↔
      start + n ≤ a.count := by
    rw [length_toWords]
    omega
  have h_words : (start + n) * 2 - start * 2 = n * 2 := by omega
  rw [wordsAt, h_words]
  simp only [h_fits]
  rw [toWords, ← wordsOfMarks, drop_wordsOfMarks, take_wordsOfMarks]

namespace Constructible

variable {a b : TokenLine}

theorem equalsWords_eq (h_a : a.Constructible) (h_b : b.Constructible) (start n : Nat) :
    a.equalsWords b start n = a.equalsSlice b start n := by
  have h_fits {a : TokenLine} (h : a.Constructible) :
      ∀ k ∈ (a.marks.toList.drop start).take n, k.stop < UInt32.size := by
    intro k h_k
    exact h.stop_lt k (Array.mem_toList_iff.1 (List.mem_of_mem_drop (List.mem_of_mem_take h_k)))
  -- within 32 bits the words determine the marks they encode
  have h_same : (wordsOfMarks ((a.marks.toList.drop start).take n) ==
      wordsOfMarks ((b.marks.toList.drop start).take n)) =
        ((a.marks.toList.drop start).take n == (b.marks.toList.drop start).take n) := by
    rw [Bool.eq_iff_iff, beq_iff_eq, beq_iff_eq, wordsOfMarks_inj (h_fits h_a) (h_fits h_b)]
  rw [equalsWords, wordsAt_toWords, wordsAt_toWords, equalsSlice]
  by_cases h_text : a.text = b.text
  · by_cases h_left : start + n ≤ a.count
    · by_cases h_right : start + n ≤ b.count
      · simp [h_text, h_left, h_right, h_same]
      · simp [h_right]
    · simp [h_left]
  · simp [h_text]

/-! ## Equal lines -/

theorem eq_iff_shares (h_a : a.Constructible) (h_b : b.Constructible) :
    a = b ↔ a.count = b.count ∧ a.Shares b 0 a.count := by
  constructor
  · rintro rfl
    exact ⟨rfl, rfl, Nat.le_refl _, Nat.le_refl _, fun _ _ _ => rfl⟩
  · rintro ⟨h_count, h_shares⟩
    have h_marks : a.marks.toList = b.marks.toList := by
      apply List.ext_getElem?
      intro i
      rw [Array.getElem?_toList, Array.getElem?_toList]
      rcases Nat.lt_or_ge i a.count with h_i | h_past
      · exact h_shares.marks i (Nat.zero_le i) h_i
      · have h_past' := h_past
        rw [h_count] at h_past'
        rw [Array.getElem?_eq_none h_past, Array.getElem?_eq_none h_past']
    -- what is kept beside the tokens was computed from the same things
    rw [← h_a.assemble_toList, ← h_b.assemble_toList, h_marks, h_shares.text]

theorem eq_iff_toWords (h_a : a.Constructible) (h_b : b.Constructible) :
    a = b ↔ a.text = b.text ∧ a.toWords = b.toWords := by
  have h_fits {a : TokenLine} (h : a.Constructible) : ∀ k ∈ a.marks.toList, k.stop < UInt32.size :=
    fun k h_k => h.stop_lt k (Array.mem_toList_iff.1 h_k)
  constructor
  · rintro rfl
    exact ⟨rfl, rfl⟩
  · rintro ⟨h_text, h_words⟩
    have h_marks := (wordsOfMarks_inj (h_fits h_a) (h_fits h_b)).1 h_words
    rw [← h_a.assemble_toList, ← h_b.assemble_toList, h_marks, h_text]

end Constructible

/-- Constructible lines are equal exactly if their text and buffer are, and exactly if they have the
    same number of tokens and `equalsSlice` over all of them. `equalsSlice` can be split at any
    token, is symmetric and transitive, is `false` for a stretch past the end of either line, and
    agrees with `equalsWords`, which compares the flat buffers. -/
theorem eq_iff_equalsSlice_and_split {a b : TokenLine} (h_a : a.Constructible)
    (h_b : b.Constructible) :
    (a = b ↔ a.text = b.text ∧ a.toWords = b.toWords) ∧
    (a = b ↔ a.count = b.count ∧ a.equalsSlice b 0 a.count = true) ∧
    ∀ start n,
      (∀ m, a.equalsSlice b start n = true ∧ a.equalsSlice b (start + n) m = true ↔
        a.equalsSlice b start (n + m) = true) ∧
      a.equalsSlice b start n = b.equalsSlice a start n ∧
      (∀ c : TokenLine, c.Constructible → a.equalsSlice b start n = true →
        b.equalsSlice c start n = true → a.equalsSlice c start n = true) ∧
      (a.count < start + n ∨ b.count < start + n → a.equalsSlice b start n = false) ∧
      a.equalsWords b start n = a.equalsSlice b start n := by
  refine ⟨h_a.eq_iff_toWords h_b, ?_, fun start n => ⟨?_, ?_, ?_, ?_, h_a.equalsWords_eq h_b _ _⟩⟩
  · rw [equalsSlice_iff, Nat.zero_add]
    exact h_a.eq_iff_shares h_b
  · intro m
    rw [equalsSlice_iff, equalsSlice_iff, equalsSlice_iff, ← Nat.add_assoc]
    exact Shares.split_iff (Nat.le_add_right start n) (Nat.le_add_right (start + n) m)
  · rw [Bool.eq_iff_iff, equalsSlice_iff, equalsSlice_iff]
    exact ⟨Shares.symm, Shares.symm⟩
  · intro c _ h_ab h_bc
    rw [equalsSlice_iff] at h_ab h_bc ⊢
    exact h_ab.trans h_bc
  · intro h_past
    rw [Bool.eq_false_iff, Ne, equalsSlice_iff]
    intro h
    have h_left := h.left
    have h_right := h.right
    omega

/-- A line that ends in a comment. -/
def slashedLine : TokenLine :=
  assemble [⟨2, ⟨1⟩⟩, ⟨4, ⟨257⟩⟩] "ab//"

/-- The same text and ends, without the comment. -/
def unslashedLine : TokenLine :=
  assemble [⟨2, ⟨1⟩⟩, ⟨4, ⟨1⟩⟩] "ab//"

/-- The first tokens are equal and the second ones are not; three tokens are past the end. -/
theorem eq_iff_equalsSlice_and_split_slashedLine :
    slashedLine.Constructible ∧ unslashedLine.Constructible ∧
    slashedLine.equalsSlice unslashedLine 0 1 = true ∧
    slashedLine.equalsWords unslashedLine 0 1 = true ∧
    slashedLine.equalsSlice slashedLine 0 1 = true ∧
    ¬ slashedLine.equalsSlice unslashedLine 1 1 = true ∧
    slashedLine.equalsSlice unslashedLine 0 3 = false ∧
    slashedLine ≠ unslashedLine := by
  have h_read : ofEnds [2, 1, 4, 257] "ab//" = .ok slashedLine := by decide
  have h_read' : ofStarts [0, 1, 2, 1] "ab//" = .ok unslashedLine := by decide
  have h_slashed : slashedLine.Constructible := .ends h_read
  have h_unslashed : unslashedLine.Constructible := .starts h_read'
  obtain ⟨-, h_eq, h_slices⟩ := eq_iff_equalsSlice_and_split h_slashed h_unslashed
  obtain ⟨h_split, h_symm, h_trans, -, h_words⟩ := h_slices 0 1
  obtain ⟨-, -, -, h_past, -⟩ := h_slices 0 3
  have h_first : slashedLine.equalsSlice unslashedLine 0 1 = true := by decide
  have h_all : slashedLine.equalsSlice unslashedLine 0 2 = false := by decide
  refine ⟨h_slashed, h_unslashed, h_first, h_words.trans h_first, ?_, ?_, ?_, ?_⟩
  · exact h_trans slashedLine h_slashed h_first (h_symm.symm.trans h_first)
  · intro h_second
    have h_both := (h_split 1).1 ⟨h_first, h_second⟩
    rw [h_all] at h_both
    cases h_both
  · exact h_past (.inl (by decide))
  · intro h_same
    have h_shared := (h_eq.1 h_same).2
    rw [show slashedLine.count = 2 from rfl, h_all] at h_shared
    cases h_shared

end TokenLine

end ScopeTokens
