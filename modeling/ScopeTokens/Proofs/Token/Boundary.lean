/-
  ScopeTokens.Proofs.Token.Boundary

  The byte offsets at which a line's text is cut. `byteOffset` has a short way for
  texts with one byte a character, and else adds up the bytes in front. Either way
  it is the length in bytes of the characters in front (`byteOffset_eq`), so it is
  on a character boundary and not past the end (`isValid_byteOffset`).
-/

import ScopeTokens.Token.Slice

namespace ScopeTokens

/-- `n` times the letter a. `letters UInt32.size` is a line past the offset range. -/
def letters (n : Nat) : String :=
  String.ofList (List.replicate n 'a')

theorem length_letters (n : Nat) : (letters n).length = n := by
  rw [letters, String.length_ofList, List.length_replicate]

namespace TokenLine

theorem byteLength_cons (c : Char) (cs : List Char) :
    byteLength (c :: cs) = c.utf8Size + byteLength cs := rfl

theorem byteLength_eq_utf8ByteSize (cs : List Char) :
    byteLength cs = (String.ofList cs).utf8ByteSize := by
  induction cs with
  | nil => rfl
  | cons c cs ih =>
    rw [byteLength_cons, ih, ← List.singleton_append, String.ofList_append,
      String.utf8ByteSize_append]
    simp

/-- A character takes at least one byte. -/
theorem length_le_byteLength (cs : List Char) : cs.length ≤ byteLength cs := by
  induction cs with
  | nil => exact Nat.le_refl 0
  | cons c cs ih =>
    have := c.utf8Size_pos
    rw [byteLength_cons, List.length_cons]
    omega

/-- If a text has as many bytes as characters, so have its prefixes. -/
theorem byteLength_take {cs : List Char} (h : byteLength cs = cs.length) (i : Nat) :
    byteLength (cs.take i) = min i cs.length := by
  induction cs generalizing i with
  | nil => simp [byteLength]
  | cons c cs ih =>
    have h_size := c.utf8Size_pos
    have h_rest := length_le_byteLength cs
    rw [byteLength_cons, List.length_cons] at h
    cases i with
    | zero => simp [byteLength]
    | succ i =>
      rw [List.take_succ_cons, byteLength_cons, ih (by omega), List.length_cons]
      omega

/-- `byteOffset` is the number of bytes in front, whichever way it goes. -/
theorem byteOffset_eq {a : TokenLine} (h : a.length = a.text.length) (i : Nat) :
    a.byteOffset i = byteLength (a.text.toList.take i) := by
  have h_size : a.text.utf8ByteSize = byteLength a.text.toList := by
    rw [byteLength_eq_utf8ByteSize, String.ofList_toList]
  have h_length : a.text.length = a.text.toList.length := String.length_toList.symm
  rw [byteOffset]
  split
  -- as many bytes as characters: each has one
  · rename_i h_ascii
    rw [byteLength_take (by omega)]
    omega
  · rfl

theorem isValid_byteOffset {a : TokenLine} (h : a.length = a.text.length) (i : Nat) :
    String.Pos.Raw.IsValid a.text ⟨a.byteOffset i⟩ := by
  rw [String.Pos.Raw.isValid_iff_exists_take_toList, byteOffset_eq h]
  exact ⟨i, byteLength_eq_utf8ByteSize _⟩

/-! ## Lines that describe their text -/

/-- `a` has the text `text`, its length, and at least one token. -/
structure Describes (a : TokenLine) (text : String) : Prop where
  text_eq : a.text = text
  length_eq : a.length = text.length
  count_pos : 0 < a.count

theorem count_assemble (marks : List Mark) (text : String) :
    (assemble marks text).count = marks.length :=
  List.size_toArray

theorem describes_whole (text : String) (metadata : TokenMetadata) :
    (whole text metadata).Describes text :=
  ⟨rfl, rfl, Nat.zero_lt_one⟩

theorem length_endsOfStarts (length : Nat) (marks : List Mark) :
    (endsOfStarts length marks).length = marks.length := by
  induction marks with
  | nil => rfl
  | cons k ks ih =>
    cases ks with
    | nil => rfl
    | cons k' ks =>
      rw [endsOfStarts, List.length_cons, ih]
      rfl

theorem eq_assemble_of_ofMarks {marks : List Mark} {text : String} {a : TokenLine}
    (h : ofMarks marks text = .ok a) : a = assemble marks text ∧ marks ≠ [] := by
  unfold ofMarks at h
  split at h
  · exact absurd h nofun
  · rename_i h_fault
    refine ⟨(Except.ok.inj h).symm, ?_⟩
    rintro rfl
    exact absurd h_fault nofun

end TokenLine

end ScopeTokens
