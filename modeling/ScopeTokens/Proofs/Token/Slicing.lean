/-
  ScopeTokens.Proofs.Token.Slicing

  Slices of a line's text. `charStart` walks through the text for the byte at
  which a character starts, and agrees with `byteOffset`, also where that takes
  its short way (`charStart_eq_byteOffset`). So the bytes of a slice are those
  between two such offsets (`toByteArray_slice`), and its characters are those
  between the two places, cut to the line (`toList_slice`).
-/

import ScopeTokens.Proofs.Token.Buffer

namespace ScopeTokens

namespace TokenLine

/-! ## Starts of characters -/

/-- The byte offsets at which the characters start, the first at `offset`. -/
def charStarts (offset : Nat) : List Char → List Nat
  | [] => []
  | c :: cs => offset :: charStarts (offset + c.utf8Size) cs

/-- The byte offset at which character `i` starts, the size of `text` past the last one. -/
def charStart (text : String) (i : Nat) : Nat :=
  (charStarts 0 text.toList)[i]?.getD text.utf8ByteSize

theorem getD_charStarts (offset : Nat) (cs : List Char) (i : Nat) :
    (charStarts offset cs)[i]?.getD (offset + byteLength cs) =
      offset + byteLength (cs.take i) := by
  induction cs generalizing offset i with
  | nil => simp [charStarts]
  | cons c cs ih =>
    rw [charStarts]
    cases i with
    | zero => simp [byteLength]
    | succ i =>
      rw [List.getElem?_cons_succ, List.take_succ_cons, byteLength_cons, byteLength_cons,
        ← Nat.add_assoc, ← Nat.add_assoc]
      exact ih (offset + c.utf8Size) i

theorem charStart_eq (text : String) (i : Nat) :
    charStart text i = byteLength (text.toList.take i) := by
  have h_starts := getD_charStarts 0 text.toList i
  rw [Nat.zero_add, Nat.zero_add, byteLength_eq_utf8ByteSize, String.ofList_toList] at h_starts
  exact h_starts

variable {a : TokenLine}

/-- The walk through the text and `byteOffset` agree. -/
theorem charStart_eq_byteOffset (h : a.length = a.text.length) (i : Nat) :
    charStart a.text i = a.byteOffset i := by
  rw [charStart_eq, byteOffset_eq h]

/-! ## Slices -/

/-- A slice has the characters from `start` to `stop`, both cut to the length of the line. -/
theorem toList_slice (h : a.length = a.text.length) (start stop : Nat) :
    (a.slice start stop).toList =
      (a.text.toList.take (min stop a.length)).drop (min start a.length) := by
  have h_length : a.length = a.text.toList.length := by rw [h, String.length_toList]
  rw [slice_eq h, String.toList_ofList, h_length, ← List.drop_take]
  rcases Nat.le_total start a.text.toList.length with h_within | h_past
  · rw [Nat.min_eq_left h_within, ← List.take_eq_take_min]
  · rw [Nat.min_eq_right h_past, List.drop_eq_nil_of_le, List.drop_eq_nil_of_le]
    · rw [List.length_take]
      omega
    · rw [List.length_take]
      omega

/-- The bytes of a slice are those between `byteOffset start` and `byteOffset stop`. -/
theorem toByteArray_slice (h : a.length = a.text.length) (start stop : Nat) :
    (a.slice start stop).toByteArray =
      a.text.toByteArray.extract (a.byteOffset start)
        (max (a.byteOffset stop) (a.byteOffset start)) := by
  have h_size (cs : List Char) : byteLength cs = cs.utf8Encode.size := by
    rw [byteLength_eq_utf8ByteSize, ← String.size_toByteArray, String.toByteArray_ofList]
  have h_bytes := congrArg String.toByteArray (text_eq_pieces a start stop)
  rw [String.toByteArray_ofList, List.utf8Encode_append, List.utf8Encode_append,
    ByteArray.append_assoc] at h_bytes
  rw [max_byteOffset h, byteOffset_eq h, slice_eq h, String.toByteArray_ofList, h_bytes, h_size,
    h_size]
  -- what is in front is passed over, and the cut ends behind the middle piece
  symm
  exact (ByteArray.extract_append_size_add (i := 0)).trans (ByteArray.extract_append_eq_left rfl)

/-- `byteOffset` is a valid position of the text, namely the `charStart` of that character, also
    where the text has one byte a character. A slice has the characters between its two places and
    the bytes between their offsets, and is `""` if the places are the wrong way round. Neighbouring
    slices concatenate, and so the texts of all tokens are the text of the line. -/
theorem toList_slice_and_isValid_byteOffset {a : TokenLine} (h : a.Constructible) :
    (∀ i, String.Pos.Raw.IsValid a.text ⟨a.byteOffset i⟩ ∧ charStart a.text i = a.byteOffset i ∧
      (a.text.utf8ByteSize = a.length → charStart a.text i = min i a.text.utf8ByteSize)) ∧
    (∀ start stop,
      (a.slice start stop).toList =
        (a.text.toList.take (min stop a.length)).drop (min start a.length) ∧
      (a.slice start stop).toByteArray =
        a.text.toByteArray.extract (a.byteOffset start)
          (max (a.byteOffset stop) (a.byteOffset start)) ∧
      (stop ≤ start → a.slice start stop = "")) ∧
    (∀ i j k, i ≤ j → j ≤ k → a.slice i j ++ a.slice j k = a.slice i k) ∧
    String.join ((List.range a.count).map a.tokenText) = a.text := by
  have h_partitions := h.partitions
  have h_length := h_partitions.length_eq
  refine ⟨?_, ?_, fun i j k => slice_append_slice h_length, h_partitions.join_tokenText⟩
  · intro i
    have h_start := charStart_eq_byteOffset h_length i
    refine ⟨isValid_byteOffset h_length i, h_start, ?_⟩
    intro h_ascii
    rw [h_start, byteOffset, if_pos h_ascii]
  · intro start stop
    exact ⟨toList_slice h_length start stop, toByteArray_slice h_length start stop,
      slice_eq_empty h_length⟩

/-- Characters of one to four bytes. -/
def wideLine : TokenLine :=
  assemble [⟨1, ⟨1⟩⟩, ⟨3, ⟨257⟩⟩, ⟨5, ⟨1⟩⟩] "aé€😀b"

def narrowLine : TokenLine :=
  assemble [⟨2, ⟨1⟩⟩, ⟨5, ⟨257⟩⟩] "ab//c"

theorem toList_slice_and_isValid_byteOffset_wideLine :
    wideLine.Constructible ∧
    String.Pos.Raw.IsValid "aé€😀b" ⟨6⟩ ∧
    (wideLine.slice 2 9).toList = ['€', '😀', 'b'] ∧
    wideLine.slice 3 1 = "" ∧
    wideLine.slice 1 2 ++ wideLine.slice 2 4 = wideLine.slice 1 4 ∧
    narrowLine.Constructible ∧ narrowLine.text.utf8ByteSize = narrowLine.length ∧
    charStart "ab//c" 7 = 5 := by
  have h_read : ofEnds [1, 1, 3, 257, 5, 1] "aé€😀b" = .ok wideLine := by decide
  have h_wide : wideLine.Constructible := .ends h_read
  obtain ⟨h_starts, h_slices, h_append, -⟩ := toList_slice_and_isValid_byteOffset h_wide
  have h_read' : ofEnds [2, 1, 5, 257] "ab//c" = .ok narrowLine := by decide
  have h_narrow : narrowLine.Constructible := .ends h_read'
  have h_ascii : narrowLine.text.utf8ByteSize = narrowLine.length := by decide
  obtain ⟨h_starts', -⟩ := toList_slice_and_isValid_byteOffset h_narrow
  exact ⟨h_wide, (h_starts 3).1, (h_slices 2 9).1.trans (by decide),
    (h_slices 3 1).2.2 (by decide), h_append 1 2 4 (by decide) (by decide), h_narrow, h_ascii,
    (h_starts' 7).2.2 h_ascii⟩

end TokenLine

end ScopeTokens
