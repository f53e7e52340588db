/-
  ScopeTokens.Proofs.Text.ResolvedOffsets

  Which offsets positions resolve to. `charIndex` is the start of the line plus
  the column, cut to the content of the line (`charIndex_eq_lineIndex`). So the
  text between the start of a line and a position on it is a prefix of the line,
  and the positions that are `Within` their lines are in bijection with the
  offsets outside of `\r\n` (`charIndex_mono_and_bijOn`).
-/

import Mathlib.Data.Set.Function
import ScopeTokens.Proofs.Text.LineIndex

namespace ScopeTokens

namespace Line

/-- `offset` on an existing line `n`: the sizes of the lines above, and `column` cut to the
    content. -/
theorem offset_of_getElem? {ls : List Line} {n : Nat} {l : Line} (h : ls[n]? = some l)
    (column : Nat) :
    offset ls n column = totalSize (ls.take n) + min column l.content.length := by
  induction ls generalizing n with
  | nil => simp at h
  | cons l' ls ih =>
    cases n with
    | zero =>
      obtain rfl : l' = l := by simpa using h
      rw [offset, List.take_zero]
      exact (Nat.zero_add _).symm
    | succ n =>
      rw [List.getElem?_cons_succ] at h
      rw [offset_cons_succ, ih h, List.take_succ_cons, totalSize_cons, Nat.add_assoc]

/-- Every offset that does not cut `\r\n` is that of a column on some line. -/
theorem exists_offset_eq {cs : List Char} {i : Nat} (h_i : i ≤ cs.length)
    (h : ¬ Joins (cs.take i) (cs.drop i)) :
    ∃ n column l, (split cs)[n]? = some l ∧ column ≤ l.content.length ∧
      offset (split cs) n column = i := by
  fun_induction split cs generalizing i with
  | case1 =>
    obtain rfl : i = 0 := by simpa using h_i
    exact ⟨0, 0, _, rfl, Nat.zero_le _, rfl⟩
  | case2 cs ih =>
    cases i with
    | zero => exact ⟨0, 0, _, rfl, Nat.zero_le _, rfl⟩
    | succ i =>
      cases i with
      -- between the two characters of the break
      | zero => exact absurd ⟨rfl, rfl⟩ h
      | succ i =>
        obtain ⟨n, column, l, h_l, h_column, h_offset⟩ := ih
          (Nat.le_of_succ_le_succ (Nat.le_of_succ_le_succ h_i))
          fun h_joins => h ((Joins.cons h_joins '\n').cons '\r')
        refine ⟨n + 1, column, l, h_l, h_column, ?_⟩
        rw [offset_cons_succ, h_offset]
        exact Nat.add_comm 2 i
  | case3 c cs h_crlf h_break ih =>
    cases i with
    | zero => exact ⟨0, 0, _, rfl, Nat.zero_le _, rfl⟩
    | succ i =>
      obtain ⟨n, column, l, h_l, h_column, h_offset⟩ := ih
        (Nat.le_of_add_le_add_right h_i) fun h_joins => h (Joins.cons h_joins c)
      refine ⟨n + 1, column, l, h_l, h_column, ?_⟩
      rw [offset_cons_succ, h_offset]
      exact Nat.add_comm 1 i
  | case4 c cs h_crlf h_break ih =>
    have h_ne := split_ne_nil cs
    obtain ⟨l', ls, h_split⟩ := List.exists_cons_of_ne_nil h_ne
    cases i with
    | zero => exact ⟨0, 0, _, by rw [h_split]; rfl, Nat.zero_le _, offset_zero_zero _⟩
    | succ i =>
      obtain ⟨n, column, l, h_l, h_column, h_offset⟩ := ih
        (Nat.le_of_add_le_add_right h_i) fun h_joins => h (Joins.cons h_joins c)
      rw [h_split] at h_l
      -- on the first line the column moves on by `c`, on the others only the line does
      cases n with
      | zero =>
        obtain rfl : l' = l := by simpa using h_l
        refine ⟨0, column + 1, ⟨c :: l'.content, l'.ending⟩, by rw [h_split]; rfl,
          Nat.succ_le_succ h_column, ?_⟩
        rw [offset_consFirst_zero c h_ne, h_offset]
      | succ n =>
        refine ⟨n + 1, column, l, by rw [h_split]; exact h_l, h_column, ?_⟩
        rw [offset_consFirst_succ c h_ne, h_offset]

end Line

/-! ## The start of a line and the columns behind it -/

/-- `charIndex` by the index of line starts: `start` of the line, and the column cut to its
    length. -/
theorem charIndex_eq_lineIndex (cs : List Char) (p : Position) :
    charIndex cs p =
      if LineIndex.lineCount cs ≤ p.line then cs.length
      else LineIndex.start cs p.line + min p.column (LineIndex.lineLength cs p.line) := by
  rw [LineIndex.lineCount_eq, charIndex]
  split
  · rename_i h
    rw [Line.offset_of_length_le h, Line.totalSize_split]
  · rename_i h
    have h_line := List.getElem?_eq_getElem (Nat.not_le.1 h)
    rw [Line.offset_of_getElem? h_line, LineIndex.start_eq, LineIndex.lineLength_eq h_line]

section

variable {cs : List Char} {line : Nat} {l : Line} (h : (Line.split cs)[line]? = some l)

include h

theorem charIndex_of_getElem? (column : Nat) :
    charIndex cs ⟨line, column⟩ = LineIndex.start cs line + min column l.content.length := by
  rw [charIndex, Line.offset_of_getElem? h, LineIndex.start_eq]

/-- Between column `0` and `column` of a line there is a prefix of its content. -/
theorem drop_take_charIndex (column : Nat) :
    (cs.take (charIndex cs ⟨line, column⟩)).drop (charIndex cs ⟨line, 0⟩) =
      l.content.take (min column l.content.length) := by
  have h_stretch := LineIndex.stretch_eq h
  rw [LineIndex.stretch, List.drop_take] at h_stretch
  have h_le : l.content.length ≤ LineIndex.start cs (line + 1) - LineIndex.start cs line := by
    have h_size := Line.length_whole l
    rw [← h_stretch, Line.size] at h_size
    have := List.length_take_le (LineIndex.start cs (line + 1) - LineIndex.start cs line)
      (cs.drop (LineIndex.start cs line))
    omega
  have h_front : l.content.take (min column l.content.length) =
      l.whole.take (min column l.content.length) :=
    (List.take_append_of_le_length (Nat.min_le_right _ _)).symm
  rw [charIndex_of_getElem? h, charIndex_of_getElem? h, Nat.zero_min, Nat.add_zero, List.drop_take,
    Nat.add_sub_cancel_left, h_front, ← h_stretch, List.take_take,
    Nat.min_eq_left (Nat.le_trans (Nat.min_le_right _ _) h_le)]

end

namespace Document

/-- `p` is on a line of `d`, and not past the end of it. -/
def Within (d : Document) (p : Position) : Prop :=
  p.line < d.lineCount ∧ p.column ≤ d.lineLength p.line

variable {d : Document} {p q : Position}

theorem Within.exists_line (h : d.Within p) :
    ∃ l, (Line.split d.text.toList)[p.line]? = some l ∧ p.column ≤ l.content.length := by
  obtain ⟨h_line, h_column⟩ := h
  have h_l := List.getElem?_eq_getElem h_line
  rw [lineLength, h_l] at h_column
  exact ⟨_, h_l, h_column⟩

/-- `charIndex` is injective on positions within their lines: the breaks in front tell the line, and
    then the offset tells the column. -/
theorem Within.eq_of_charIndex_eq (h_p : d.Within p) (h_q : d.Within q)
    (h : d.charIndex p = d.charIndex q) : p = q := by
  have h_line : p.line = q.line := by
    rw [← countBreaks_take_charIndex h_p.1, ← countBreaks_take_charIndex h_q.1]
    exact congrArg (fun i => countBreaks (d.text.toList.take i)) h
  obtain ⟨l, h_l, h_column⟩ := h_p.exists_line
  obtain ⟨l', h_l', h_column'⟩ := h_q.exists_line
  obtain ⟨line, column⟩ := p
  obtain ⟨line', column'⟩ := q
  obtain rfl : line = line' := h_line
  obtain rfl : l = l' := Option.some.inj (h_l.symm.trans h_l')
  rw [charIndex, charIndex, charIndex_of_getElem? h_l, charIndex_of_getElem? h_l'] at h
  rw [Position.mk.injEq]
  dsimp only at h_column h_column' h
  exact ⟨rfl, by omega⟩

theorem exists_within_charIndex_eq {i : Nat} (h_i : i ≤ d.text.length)
    (h : ¬ InsideBreak d.text.toList i) : ∃ p, d.Within p ∧ d.charIndex p = i := by
  rw [insideBreak_iff_joins] at h
  obtain ⟨n, column, l, h_l, h_column, h_offset⟩ :=
    Line.exists_offset_eq (String.length_toList ▸ h_i) h
  refine ⟨⟨n, column⟩, ⟨(List.getElem?_eq_some_iff.1 h_l).1, ?_⟩, h_offset⟩
  have h_line : d.lines[n]? = some l := h_l
  rw [lineLength, h_line]
  exact h_column

/-- `charIndex` is monotone and bounded by the length of the text; between column `0` and `column`
    of a line there is the prefix of the line of that length; no offset is inside a break, and a
    line past the last one resolves to the end of the text. On the positions `Within` their lines it
    is a bijection onto the offsets that are not inside a break. The last part computes it from
    `LineIndex.start`. -/
theorem charIndex_mono_and_bijOn (d : Document) :
    (∀ p q, p ≤ q → d.charIndex p ≤ d.charIndex q ∧ d.charIndex q ≤ d.text.length) ∧
    (∀ line column, line < d.lineCount →
      (d.text.toList.take (d.charIndex ⟨line, column⟩)).drop (d.charIndex ⟨line, 0⟩) =
        (d.lineText line).toList.take (min column (d.lineLength line))) ∧
    (∀ p, ¬ InsideBreak d.text.toList (d.charIndex p)) ∧
    (∀ p, d.lineCount ≤ p.line → d.charIndex p = d.text.length) ∧
    Set.BijOn d.charIndex {p | d.Within p}
      {i | i ≤ d.text.length ∧ ¬ InsideBreak d.text.toList i} ∧
    ∀ p, d.charIndex p =
      if LineIndex.lineCount d.text.toList ≤ p.line then d.text.length
      else LineIndex.start d.text.toList p.line +
        min p.column (LineIndex.lineLength d.text.toList p.line) := by
  have h_length (p : Position) : d.charIndex p ≤ d.text.length := by
    rw [← String.length_toList]
    exact charIndex_le_length _ p
  refine ⟨fun p q h => ⟨charIndex_mono _ h, h_length q⟩, fun line column h_line => ?_,
    not_insideBreak_charIndex _, fun p h => ?_, ⟨?_, ?_, ?_⟩, fun p => ?_⟩
  · have h := List.getElem?_eq_getElem h_line
    rw [d.toList_lineText h, lineLength, h]
    exact drop_take_charIndex h column
  · rw [← String.length_toList, ← Line.totalSize_split]
    exact Line.offset_of_length_le h p.column
  · -- the positions within the text map onto the offsets outside breaks, and no two to the same
    intro p _
    exact ⟨h_length p, not_insideBreak_charIndex _ p⟩
  · intro p h_p q h_q h
    exact Within.eq_of_charIndex_eq h_p h_q h
  · rintro i ⟨h_i, h⟩
    exact exists_within_charIndex_eq h_i h
  · rw [← String.length_toList]
    exact charIndex_eq_lineIndex _ p

end Document

end ScopeTokens
