/-
  ScopeTokens.Proofs.Token.Partition

  Tokens as a partition of the text. Marks without a `fault` tile the line: each
  ends behind the one before it, the last at the length (`fault_eq_none_iff`). So
  the tokens of a line from `ofMarks` are adjacent, cover the line, and are not
  empty unless the line is (`Partitions`). The text of a token is the slice
  between its offsets (`slice_eq`), and these texts concatenate to the line
  (`Partitions.join_tokenText`).
-/

import Mathlib.Data.String.Basic
import ScopeTokens.Proofs.Token.Boundary

namespace ScopeTokens

namespace TokenLine

/-! ## Characters between two offsets -/

theorem byteLength_eq_utf8Len (cs : List Char) : byteLength cs = String.utf8Len cs := by
  rw [byteLength_eq_utf8ByteSize, String.utf8ByteSize_ofList]

theorem byteLength_append (cs ds : List Char) :
    byteLength (cs ++ ds) = byteLength cs + byteLength ds := by
  rw [byteLength_eq_utf8Len, byteLength_eq_utf8Len, byteLength_eq_utf8Len, String.utf8Len_append]

theorem byteLength_take_mono (cs : List Char) {i j : Nat} (h : i ≤ j) :
    byteLength (cs.take i) ≤ byteLength (cs.take j) := by
  rw [byteLength_eq_utf8Len, byteLength_eq_utf8Len]
  exact String.utf8Len_le_of_prefix (List.take_prefix_take_left h)

/-- `a.text` as three pieces, of which the middle one is cut out. -/
theorem text_eq_pieces (a : TokenLine) (start stop : Nat) :
    a.text = String.ofList (a.text.toList.take start ++
      (a.text.toList.drop start).take (stop - start) ++
        (a.text.toList.drop start).drop (stop - start)) := by
  rw [List.append_assoc, List.take_append_drop, List.take_append_drop, String.ofList_toList]

/-- `slice` stops behind the second of these pieces. -/
theorem max_byteOffset {a : TokenLine} (h : a.length = a.text.length) (start stop : Nat) :
    max (a.byteOffset stop) (a.byteOffset start) = byteLength (a.text.toList.take start) +
      byteLength ((a.text.toList.drop start).take (stop - start)) := by
  rw [byteOffset_eq h, byteOffset_eq h]
  rcases Nat.le_total start stop with h_le | h_le
  · rw [← byteLength_append, ← List.take_add, Nat.add_sub_cancel' h_le]
    exact Nat.max_eq_left (byteLength_take_mono _ h_le)
  · rw [Nat.sub_eq_zero_of_le h_le, List.take_zero]
    exact Nat.max_eq_right (byteLength_take_mono _ h_le)

/-- `slice` in characters: `drop` and `take`. -/
theorem slice_eq {a : TokenLine} (h : a.length = a.text.length) (start stop : Nat) :
    a.slice start stop = String.ofList ((a.text.toList.drop start).take (stop - start)) := by
  have h_cut := String.extract_of_valid (a.text.toList.take start)
    ((a.text.toList.drop start).take (stop - start))
    ((a.text.toList.drop start).drop (stop - start))
  rw [← text_eq_pieces, ← byteLength_eq_utf8Len, ← byteLength_eq_utf8Len, ← max_byteOffset h,
    ← byteOffset_eq h] at h_cut
  exact h_cut

theorem slice_eq_empty {a : TokenLine} (h : a.length = a.text.length) {start stop : Nat}
    (h_le : stop ≤ start) : a.slice start stop = "" := by
  rw [slice_eq h, Nat.sub_eq_zero_of_le h_le, List.take_zero, String.ofList_nil]

/-- Neighbouring slices concatenate. -/
theorem slice_append_slice {a : TokenLine} (h : a.length = a.text.length) {i j k : Nat}
    (h_ij : i ≤ j) (h_jk : j ≤ k) : a.slice i j ++ a.slice j k = a.slice i k := by
  have h_drop : a.text.toList.drop j = (a.text.toList.drop i).drop (j - i) := by
    rw [List.drop_drop, Nat.add_sub_cancel' h_ij]
  rw [slice_eq h, slice_eq h, slice_eq h, ← String.ofList_append, h_drop, ← List.take_add]
  congr 3
  omega

theorem slice_all {a : TokenLine} (h : a.length = a.text.length) {stop : Nat}
    (h_stop : a.length ≤ stop) : a.slice 0 stop = a.text := by
  rw [slice_eq h, List.drop_zero, List.take_of_length_le, String.ofList_toList]
  rw [String.length_toList]
  omega

/-! ## Marks that pass the checks -/

/-- From `start` on, each mark ends behind the one before it, and the last one at `length`. -/
def Tiles (length : Nat) : Nat → List Mark → Prop
  | start, [] => start = length
  | start, k :: ks => start < k.stop ∧ Tiles length k.stop ks

theorem tiles_iff {length start : Nat} (index : Nat) {marks : List Mark} :
    Tiles length start marks ↔
      firstEmpty index start marks = none ∧ (marks.getLast?.map Mark.stop).getD start = length := by
  induction marks generalizing start index with
  | nil => simp [Tiles, firstEmpty]
  | cons k ks ih =>
    -- the last end of the list is that of its tail, which starts where `k` stops
    have h_last : (((k :: ks).getLast?.map Mark.stop).getD start) =
        (ks.getLast?.map Mark.stop).getD k.stop := by
      cases ks with
      | nil => rfl
      | cons k' ks => simp [List.getLast?_eq_some_getLast]
    rw [Tiles, firstEmpty, h_last, ih (index + 1)]
    by_cases h_stop : k.stop ≤ start
    · rw [if_pos h_stop]
      constructor
      · rintro ⟨h_lt, -⟩
        omega
      · rintro ⟨h_none, -⟩
        exact absurd h_none nofun
    · rw [if_neg h_stop]
      exact and_iff_right (Nat.not_le.1 h_stop)

/-- Marks without a fault tile the line, or are the one empty token of an empty line. -/
theorem fault_eq_none_iff {marks : List Mark} {length : Nat} :
    fault marks length = none ↔
      (marks ≠ [] ∧ Tiles length 0 marks) ∨ (length = 0 ∧ ∃ m, marks = [⟨0, m⟩]) := by
  unfold fault
  cases h_last : marks.getLast? with
  | none =>
    obtain rfl := List.getLast?_eq_none_iff.1 h_last
    simp
  | some last =>
    have h_ne : marks ≠ [] := by
      rintro rfl
      exact absurd h_last nofun
    have h_tiles : Tiles length 0 marks ↔ _ := tiles_iff 0
    rw [h_last, Option.map_some, Option.getD_some] at h_tiles
    dsimp only
    by_cases h_single : length = 0 ∧ marks.length = 1 ∧ last.stop = 0
    · rw [if_pos h_single]
      obtain ⟨h_length, h_one, h_stop⟩ := h_single
      obtain ⟨k, rfl⟩ := List.length_eq_one_iff.1 h_one
      obtain rfl : k = last := by simpa using h_last
      refine iff_of_true rfl (.inr ⟨h_length, k.metadata, ?_⟩)
      rw [← h_stop]
    · rw [if_neg h_single]
      -- so the marks are no single one of an empty line
      have h_no : ¬ (length = 0 ∧ ∃ m, marks = [⟨0, m⟩]) := by
        rintro ⟨h_length, m, rfl⟩
        obtain rfl : (⟨0, m⟩ : Mark) = last := by simpa using h_last
        exact h_single ⟨h_length, rfl, rfl⟩
      rw [or_iff_left h_no, and_iff_right h_ne, h_tiles]
      cases h_first : firstEmpty 0 0 marks with
      | some found => simp
      | none =>
        by_cases h_stop : last.stop = length <;> simp [h_stop]

theorem Tiles.lt_head {length start : Nat} {k : Mark} {marks : List Mark}
    (h : Tiles length start marks) (h_k : marks[0]? = some k) : start < k.stop := by
  cases marks with
  | nil => exact absurd h_k nofun
  | cons k' ks =>
    obtain rfl : k' = k := by simpa using h_k
    exact h.1

theorem Tiles.lt_next {length start i : Nat} {j k : Mark} {marks : List Mark}
    (h : Tiles length start marks) (h_j : marks[i]? = some j) (h_k : marks[i + 1]? = some k) :
    j.stop < k.stop := by
  induction marks generalizing start i with
  | nil => exact absurd h_j nofun
  | cons k' ks ih =>
    rw [List.getElem?_cons_succ] at h_k
    cases i with
    | zero =>
      obtain rfl : k' = j := by simpa using h_j
      exact h.2.lt_head h_k
    | succ i =>
      rw [List.getElem?_cons_succ] at h_j
      exact ih h.2 h_j h_k

/-! ## Lines that partition their text -/

/-- The tokens of `a` partition `text`: no token is empty, except the only one of an empty line, and
    the last one ends at `text.length`. That a token starts where the one before it ends is in the
    definition of `startOffset`. -/
structure Partitions (a : TokenLine) (text : String) : Prop where
  describes : a.Describes text
  start_lt : ∀ i < a.count, a.startOffset i < a.endOffset i ∨ text.length = 0 ∧ a.count = 1
  last : a.endOffset (a.count - 1) = text.length

theorem endOffset_assemble (marks : List Mark) (text : String) (i : Nat) :
    (assemble marks text).endOffset i = (marks[i]?.map Mark.stop).getD text.length := by
  rw [endOffset, assemble, List.getElem?_toArray]
  cases marks[i]? <;> rfl

theorem partitions_of_ofMarks {marks : List Mark} {text : String} {a : TokenLine}
    (h : ofMarks marks text = .ok a) : a.Partitions text := by
  obtain ⟨rfl, h_ne⟩ := eq_assemble_of_ofMarks h
  have h_count := count_assemble marks text
  have h_pos := List.length_pos_of_ne_nil h_ne
  have h_fault : fault marks text.length = none := by
    unfold ofMarks at h
    split at h
    · exact absurd h nofun
    · assumption
  refine ⟨⟨rfl, rfl, by omega⟩, ?_, ?_⟩
  · intro i h_i
    -- without a fault the marks tile the line, or the line is empty and has one mark
    rcases fault_eq_none_iff.1 h_fault with ⟨-, h_tiles⟩ | ⟨h_length, m, rfl⟩
    · have h_lt : i < marks.length := by omega
      obtain ⟨k, h_k⟩ : ∃ k, marks[i]? = some k := ⟨_, List.getElem?_eq_getElem h_lt⟩
      refine .inl ?_
      rw [endOffset_assemble, h_k]
      cases i with
      | zero => exact h_tiles.lt_head h_k
      | succ i =>
        obtain ⟨j, h_j⟩ : ∃ j, marks[i]? = some j :=
          ⟨_, List.getElem?_eq_getElem (Nat.lt_of_succ_lt h_lt)⟩
        rw [startOffset, endOffset_assemble, h_j]
        exact h_tiles.lt_next h_j h_k
    · exact .inr ⟨h_length, h_count⟩
  · rw [endOffset_assemble, h_count, ← List.getLast?_eq_getElem?]
    rcases fault_eq_none_iff.1 h_fault with ⟨-, h_tiles⟩ | ⟨h_length, m, rfl⟩
    · obtain ⟨-, h_last⟩ := (tiles_iff 0).1 h_tiles
      rw [List.getLast?_eq_some_getLast h_ne] at h_last ⊢
      exact h_last
    · exact h_length.symm

theorem ofMarks_whole (text : String) (metadata : TokenMetadata) :
    ofMarks [⟨text.length, metadata⟩] text = .ok (whole text metadata) := by
  have h_fault : fault [⟨text.length, metadata⟩] text.length = none := by
    rw [fault_eq_none_iff]
    rcases Nat.eq_zero_or_pos text.length with h_zero | h_pos
    · exact .inr ⟨h_zero, metadata, by rw [h_zero]⟩
    · exact .inl ⟨List.cons_ne_nil _ _, h_pos, rfl⟩
  rw [ofMarks, h_fault]
  rfl

theorem partitions_whole (text : String) (metadata : TokenMetadata) :
    (whole text metadata).Partitions text :=
  partitions_of_ofMarks (ofMarks_whole text metadata)

/-- `single` is `whole`, for texts within the offset range. -/
theorem single_eq (text : String) (metadata : TokenMetadata) :
    single text metadata = guardLength text (.ok (whole text metadata)) := by
  rw [single, ofMarks_whole]

namespace Partitions

variable {a : TokenLine} {text : String}

theorem length_eq (h : a.Partitions text) : a.length = a.text.length := by
  rw [h.describes.length_eq, h.describes.text_eq]

theorem start_le (h : a.Partitions text) {i : Nat} (h_i : i < a.count) :
    a.startOffset i ≤ a.endOffset i := by
  rcases h.start_lt i h_i with h_lt | ⟨-, h_one⟩
  · exact Nat.le_of_lt h_lt
  · obtain rfl : i = 0 := by omega
    exact Nat.zero_le _

/-- The characters of token `i`. -/
theorem toList_tokenText (h : a.Partitions text) (i : Nat) :
    (a.tokenText i).toList =
      (text.toList.drop (a.startOffset i)).take (a.endOffset i - a.startOffset i) := by
  rw [tokenText, slice_eq h.length_eq, String.toList_ofList, h.describes.text_eq]

/-- `startOffset` is monotone. -/
theorem startOffset_le (h : a.Partitions text) {i j : Nat} (h_le : i ≤ j) (h_j : j ≤ a.count) :
    a.startOffset i ≤ a.startOffset j := by
  induction j with
  | zero =>
    obtain rfl : i = 0 := by omega
    exact Nat.le_refl _
  | succ j ih =>
    show a.startOffset i ≤ a.endOffset j
    rcases Nat.lt_or_eq_of_le h_le with h_lt | rfl
    · exact Nat.le_trans (ih (by omega) (by omega)) (h.start_le h_j)
    · exact Nat.le_refl _

theorem startOffset_count (h : a.Partitions text) : a.startOffset a.count = text.length := by
  obtain ⟨n, h_count⟩ := Nat.exists_eq_succ_of_ne_zero (Nat.ne_of_gt h.describes.count_pos)
  rw [← h.last, h_count]
  rfl

/-- The texts of `n` tokens from `first` on concatenate to one slice. -/
theorem join_tokenText_range' (h : a.Partitions text) {first n : Nat} (h_n : first + n ≤ a.count) :
    String.join ((List.range' first n).map a.tokenText) =
      a.slice (a.startOffset first) (a.startOffset (first + n)) := by
  induction n with
  | zero => exact (slice_eq_empty h.length_eq (Nat.le_refl _)).symm
  | succ n ih =>
    have h_first := h.startOffset_le (Nat.le_add_right first n) (by omega)
    have h_token := h.startOffset_le (Nat.le_succ (first + n)) (by omega)
    rw [List.range'_1_concat, List.map_append, String.join_append, ih (by omega)]
    show _ ++ String.join [a.tokenText (first + n)] = _
    rw [String.join_cons, String.join_nil, String.append_empty, tokenText]
    exact slice_append_slice h.length_eq h_first h_token

/-- The texts of all tokens concatenate to `text`. -/
theorem join_tokenText (h : a.Partitions text) :
    String.join ((List.range a.count).map a.tokenText) = text := by
  have h_count : 0 + a.count = a.count := Nat.zero_add _
  rw [List.range_eq_range', h.join_tokenText_range' (by omega), h_count, h.startOffset_count,
    ← h.describes.length_eq]
  exact (slice_all h.length_eq (Nat.le_refl _)).trans h.describes.text_eq

theorem flatMap_tokenText (h : a.Partitions text) :
    (List.range a.count).flatMap (fun i => (a.tokenText i).toList) = text.toList := by
  rw [← h.join_tokenText, String.toList_join, List.flatMap_map]

end Partitions

end TokenLine

end ScopeTokens
