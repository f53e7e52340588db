/-
  ScopeTokens.Proofs.Token.Words

  Flat buffers of words. Marks whose offsets fit into a word are read back from
  the buffer that they are written into (`marksOfWords_wordsOfMarks`), and a
  buffer of even length is the one that its marks are written into
  (`wordsOfMarks_marksOfWords`). `endWordsOfStarts` does to a buffer what
  `endsOfStarts` does to its marks (`marksOfWords_endWordsOfStarts`), so
  `ofStarts` is `ofEnds` of the converted buffer (`ofStarts_eq_ofEnds`).
-/

import ScopeTokens.Token.Line

namespace ScopeTokens

namespace TokenLine

/-- The buffer of pairs `stop, metadata`. -/
def wordsOfMarks (marks : List Mark) : List UInt32 :=
  marks.flatMap fun k => [UInt32.ofNat k.stop, k.metadata.bits]

theorem wordsOfMarks_cons (k : Mark) (ks : List Mark) :
    wordsOfMarks (k :: ks) = UInt32.ofNat k.stop :: k.metadata.bits :: wordsOfMarks ks := rfl

theorem length_wordsOfMarks (marks : List Mark) :
    (wordsOfMarks marks).length = 2 * marks.length := by
  induction marks with
  | nil => rfl
  | cons k ks ih =>
    rw [wordsOfMarks_cons, List.length_cons, List.length_cons, List.length_cons, ih]
    omega

theorem getElem?_wordsOfMarks (marks : List Mark) (i : Nat) :
    (wordsOfMarks marks)[i * 2]? = marks[i]?.map fun k => UInt32.ofNat k.stop := by
  induction marks generalizing i with
  | nil => rfl
  | cons k ks ih =>
    rw [wordsOfMarks_cons]
    cases i with
    | zero => rfl
    | succ i =>
      rw [Nat.succ_mul, List.getElem?_cons_succ, List.getElem?_cons_succ, ih,
        List.getElem?_cons_succ]

/-- Marks whose offsets fit are read back from their buffer. -/
theorem marksOfWords_wordsOfMarks {marks : List Mark} (h : ∀ k ∈ marks, k.stop < UInt32.size) :
    marksOfWords (wordsOfMarks marks) = marks := by
  induction marks with
  | nil => rfl
  | cons k ks ih =>
    obtain ⟨h_k, h_ks⟩ := List.forall_mem_cons.1 h
    rw [wordsOfMarks_cons, marksOfWords, ih h_ks, UInt32.toNat_ofNat_of_lt' h_k]

variable {words : List UInt32}

/-- A buffer of fewer than two words has no marks. -/
theorem marksOfWords_of_short (h : ∀ offset m ws, words = offset :: m :: ws → False) :
    marksOfWords words = [] := by
  unfold marksOfWords
  split
  · rename_i offset m ws
    exact absurd rfl (h offset m ws)
  · rfl

/-- A buffer without a pair has at most one word. -/
theorem length_le_one_of_short (h : ∀ stop m ws, words = stop :: m :: ws → False) :
    words.length ≤ 1 := by
  match words with
  | [] => exact Nat.zero_le 1
  | [w] => exact Nat.le_refl 1
  | stop :: m :: ws => exact absurd rfl (h stop m ws)

theorem length_marksOfWords (words : List UInt32) :
    (marksOfWords words).length = words.length / 2 := by
  fun_induction marksOfWords words with
  | case1 stop m ws ih =>
    rw [List.length_cons, List.length_cons, List.length_cons, ih]
    omega
  | case2 words h_short =>
    have h_length := length_le_one_of_short h_short
    show 0 = words.length / 2
    omega

/-- A buffer of even length is that of its marks. -/
theorem wordsOfMarks_marksOfWords (h : words.length % 2 = 0) :
    wordsOfMarks (marksOfWords words) = words := by
  fun_induction marksOfWords words with
  | case1 stop m ws ih =>
    rw [List.length_cons, List.length_cons] at h
    rw [wordsOfMarks_cons, ih (by omega), UInt32.ofNat_toNat]
  | case2 words h_short =>
    have h_length := length_le_one_of_short h_short
    exact (List.length_eq_zero_iff.1 (by omega)).symm

/-- Word `2 * i + 1` is the metadata of mark `i`. -/
theorem getElem?_metadata_marksOfWords (words : List UInt32) (i : Nat) :
    words[2 * i + 1]? = (marksOfWords words)[i]?.map fun k => k.metadata.bits := by
  fun_induction marksOfWords words generalizing i with
  | case1 stop m ws ih =>
    cases i with
    | zero => rfl
    | succ i => exact ih i
  | case2 words h_short =>
    have h_length := length_le_one_of_short h_short
    exact List.getElem?_eq_none (by omega)

/-! ## Starts and ends -/

/-- Mark `i` of `endsOfStarts` stops where the next one starts, or at `length`. -/
theorem getElem?_endsOfStarts (length : Nat) (marks : List Mark) (i : Nat) :
    (endsOfStarts length marks)[i]? =
      marks[i]?.map fun k => ⟨(marks[i + 1]?.map Mark.stop).getD length, k.metadata⟩ := by
  fun_induction endsOfStarts length marks generalizing i with
  | case1 => rfl
  | case2 k => cases i <;> rfl
  | case3 k k' ks ih =>
    cases i with
    | zero => rfl
    | succ i => exact ih i

theorem stop_endsOfStarts (length : Nat) {marks : List Mark} {i : Nat} (h : i < marks.length) :
    (endsOfStarts length marks)[i]?.map Mark.stop =
      some ((marks[i + 1]?.map Mark.stop).getD length) := by
  rw [getElem?_endsOfStarts, List.getElem?_eq_getElem h]
  rfl

/-- `endsOfStarts` keeps the metadata in place. -/
theorem map_metadata_endsOfStarts (length : Nat) (marks : List Mark) :
    (endsOfStarts length marks).map Mark.metadata = marks.map Mark.metadata := by
  apply List.ext_getElem?
  intro i
  rw [List.getElem?_map, List.getElem?_map, getElem?_endsOfStarts, Option.map_map]
  rfl

theorem length_endWordsOfStarts (length : UInt32) (words : List UInt32) :
    (endWordsOfStarts length words).length = words.length := by
  fun_induction endWordsOfStarts length words with
  | case1 start m start' m' ws ih =>
    rw [List.length_cons, List.length_cons, ih]
    rfl
  | case2 start m ws h_short => rfl
  | case3 ws h_short => rfl

/-- `endWordsOfStarts` on words is `endsOfStarts` on marks. -/
theorem marksOfWords_endWordsOfStarts (length : UInt32) (words : List UInt32) :
    marksOfWords (endWordsOfStarts length words) =
      endsOfStarts length.toNat (marksOfWords words) := by
  fun_induction endWordsOfStarts length words with
  | case1 start m start' m' ws ih =>
    rw [marksOfWords, ih]
    rfl
  -- behind the last mark there is at most one word, which stands for nothing
  | case2 start m ws h_short =>
    rw [marksOfWords, marksOfWords, marksOfWords_of_short h_short]
    rfl
  | case3 ws _ h_short =>
    rw [marksOfWords_of_short h_short]
    rfl

/-- `ofStarts` is `ofEnds` of the buffer with its starts converted to ends. -/
theorem ofStarts_eq_ofEnds (words : List UInt32) (text : String) :
    ofStarts words text = ofEnds (endWordsOfStarts (UInt32.ofNat text.length) words) text := by
  rw [ofStarts, ofEnds]
  rcases Nat.lt_or_ge text.length UInt32.size with h | h
  · rw [length_endWordsOfStarts, marksOfWords_endWordsOfStarts, UInt32.toNat_ofNat_of_lt' h]
  · rw [guardLength_of_le h, guardLength_of_le h]

end TokenLine

end ScopeTokens
