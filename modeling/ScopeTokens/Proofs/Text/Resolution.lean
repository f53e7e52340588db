/-
  ScopeTokens.Proofs.Text.Resolution

  Offsets of positions. In front of `charIndex cs p` there are `p.line` breaks, if
  the line exists (`countBreaks_take_charIndex`), the offset is never between `\r`
  and `\n` (`not_insideBreak_charIndex`), and it is monotone in `p`
  (`charIndex_mono`).
-/

import ScopeTokens.Proofs.Text.Seams
import ScopeTokens.Text.Offset

namespace ScopeTokens

namespace Line

/-! ## Offsets into split text -/

theorem offset_consFirst_zero (c : Char) {ls : List Line} (h : ls ≠ []) (column : Nat) :
    offset (consFirst c ls) 0 (column + 1) = offset ls 0 column + 1 := by
  cases ls with
  | nil => exact absurd rfl h
  | cons l ls =>
    simp only [consFirst, offset, List.length_cons]
    omega

theorem offset_consFirst_succ (c : Char) {ls : List Line} (h : ls ≠ []) (n column : Nat) :
    offset (consFirst c ls) (n + 1) column = offset ls (n + 1) column + 1 := by
  cases ls with
  | nil => exact absurd rfl h
  | cons l ls =>
    simp only [consFirst, offset, size, List.length_cons]
    omega

theorem offset_zero_zero (ls : List Line) : offset ls 0 0 = 0 := by
  cases ls <;> simp [offset]

theorem offset_cons_succ (l : Line) (ls : List Line) (n column : Nat) :
    offset (l :: ls) (n + 1) column = l.size + offset ls n column := rfl

/-- On an empty first line every column is offset `0`. -/
theorem offset_empty_cons (ending : List Char) (ls : List Line) (column : Nat) :
    offset (⟨[], ending⟩ :: ls) 0 column = 0 := by
  simp [offset]

/-- In front of an offset on line `n` there are `n` breaks. -/
theorem countBreaks_take_offset (cs : List Char) {n : Nat} (column : Nat)
    (h : n < (split cs).length) :
    countBreaks (cs.take (offset (split cs) n column)) = n := by
  fun_induction split cs generalizing n column with
  | case1 =>
    obtain rfl : n = 0 := by simpa using h
    simp [countBreaks_nil]
  | case2 cs ih =>
    cases n with
    | zero => rw [offset_empty_cons, List.take_zero, countBreaks_nil]
    | succ n =>
      have h_size : (⟨[], ['\r', '\n']⟩ : Line).size = 2 := rfl
      rw [offset_cons_succ, h_size, Nat.add_comm, List.take_succ_cons, List.take_succ_cons,
        countBreaks_crlf, ih column (by simpa using h)]
  | case3 c cs h_crlf h_break ih =>
    cases n with
    | zero => rw [offset_empty_cons, List.take_zero, countBreaks_nil]
    | succ n =>
      have h_size : (⟨[], [c]⟩ : Line).size = 1 := rfl
      -- what is taken of the rest starts like the rest, so it does not join `c` either
      have h_apart : ∀ ds, c = '\r' → cs.take (offset (split cs) n column) = '\n' :: ds →
          False := by
        intro ds h_cr h_take
        cases cs with
        | nil => simp at h_take
        | cons d cs =>
          cases h_offset : offset (split (d :: cs)) n column with
          | zero => simp [h_offset] at h_take
          | succ k =>
            rw [h_offset, List.take_succ_cons, List.cons.injEq] at h_take
            exact h_crlf cs h_cr (by rw [h_take.1])
      rw [offset_cons_succ, h_size, Nat.add_comm, List.take_succ_cons, countBreaks.eq_3 _ _ h_apart,
        if_pos h_break, ih column (by simpa using h)]
  | case4 c cs h_crlf h_break ih =>
    have h_ne := split_ne_nil cs
    rw [length_consFirst c h_ne] at h
    have h_plain : isLineBreak c = false := by simpa using h_break
    -- `c` is on the first line, one column in front of what was there before
    cases n with
    | zero =>
      cases column with
      | zero => rw [offset_zero_zero, List.take_zero, countBreaks_nil]
      | succ column =>
        rw [offset_consFirst_zero c h_ne, List.take_succ_cons,
          countBreaks_cons_of_not_break h_plain, ih column h]
    | succ n =>
      rw [offset_consFirst_succ c h_ne, List.take_succ_cons,
        countBreaks_cons_of_not_break h_plain, ih column h]

/-- To put `c` in front of `xs` makes it join `ys` only if `xs` is empty. -/
theorem not_joins_cons {c : Char} {xs ys : List Char} (h_first : xs = [] → ¬ Joins [c] ys)
    (h : ¬ Joins xs ys) : ¬ Joins (c :: xs) ys := by
  cases xs with
  | nil => exact h_first rfl
  | cons x xs => rwa [joins_cons_cons]

/-- `offset` never cuts `cs` between `\r` and `\n`. -/
theorem not_joins_offset (cs : List Char) (n column : Nat) :
    ¬ Joins (cs.take (offset (split cs) n column)) (cs.drop (offset (split cs) n column)) := by
  fun_induction split cs generalizing n column with
  | case1 =>
    rw [List.drop_nil]
    exact not_joins_nil_right _
  | case2 cs ih =>
    cases n with
    | zero =>
      rw [offset_empty_cons, List.take_zero]
      exact not_joins_nil_left _
    | succ n =>
      have h_size : (⟨[], ['\r', '\n']⟩ : Line).size = 2 := rfl
      rw [offset_cons_succ, h_size, Nat.add_comm, List.take_succ_cons, List.take_succ_cons,
        List.drop_succ_cons, List.drop_succ_cons, joins_cons_cons]
      -- both characters of the break are in front of the offset
      exact not_joins_cons (fun _ h => absurd (joins_singleton.1 h).1 (by decide)) (ih n column)
  | case3 c cs h_crlf h_break ih =>
    cases n with
    | zero =>
      rw [offset_empty_cons, List.take_zero]
      exact not_joins_nil_left _
    | succ n =>
      have h_size : (⟨[], [c]⟩ : Line).size = 1 := rfl
      rw [offset_cons_succ, h_size, Nat.add_comm, List.take_succ_cons, List.drop_succ_cons]
      refine not_joins_cons ?_ (ih n column)
      intro h_nil h
      -- with nothing between, the break would be one with the text behind it
      rw [← List.take_append_drop (offset (split cs) n column) cs, h_nil, List.nil_append] at h_crlf
      exact not_joins_singleton_iff.2 h_crlf h
  | case4 c cs h_crlf h_break ih =>
    have h_ne := split_ne_nil cs
    have h_plain : ∀ ys, ¬ Joins [c] ys := by
      intro ys h
      rw [(joins_singleton.1 h).1] at h_break
      exact h_break (by decide)
    cases n with
    | zero =>
      cases column with
      | zero =>
        rw [offset_zero_zero, List.take_zero]
        exact not_joins_nil_left _
      | succ column =>
        rw [offset_consFirst_zero c h_ne, List.take_succ_cons, List.drop_succ_cons]
        exact not_joins_cons (fun _ => h_plain _) (ih 0 column)
    | succ n =>
      rw [offset_consFirst_succ c h_ne, List.take_succ_cons, List.drop_succ_cons]
      exact not_joins_cons (fun _ => h_plain _) (ih (n + 1) column)

theorem totalSize_split (cs : List Char) : totalSize (split cs) = cs.length := by
  fun_induction split cs with
  | case1 => rfl
  | case2 cs ih =>
    simp only [totalSize, List.foldr_cons, size, List.length_cons, List.length_nil] at ih ⊢
    omega
  | case3 c cs _ _ ih =>
    simp only [totalSize, List.foldr_cons, size, List.length_cons, List.length_nil] at ih ⊢
    omega
  | case4 c cs _ _ ih =>
    cases h : split cs with
    | nil => exact absurd h (split_ne_nil cs)
    | cons l ls =>
      rw [h] at ih
      simp only [consFirst, totalSize, List.foldr_cons, size, List.length_cons] at ih ⊢
      omega

/-- `offset` is monotone in the column, and from one line to the next. -/
theorem offset_mono (ls : List Line) {n m column column' : Nat}
    (h : n < m ∨ n = m ∧ column ≤ column') : offset ls n column ≤ offset ls m column' := by
  induction ls generalizing n m with
  | nil => simp [offset]
  | cons l ls ih =>
    cases n with
    | zero =>
      cases m with
      | zero =>
        simp only [offset]
        omega
      | succ m =>
        simp only [offset, size]
        omega
    | succ n =>
      cases m with
      | zero => omega
      | succ m =>
        have := ih (n := n) (m := m) (by omega)
        simp only [offset]
        omega

end Line

/-! ## Resolved positions -/

theorem charIndex_le_length (cs : List Char) (p : Position) : charIndex cs p ≤ cs.length := by
  have := Line.offset_le_totalSize (Line.split cs) p.line p.column
  rwa [Line.totalSize_split] at this

theorem charIndex_mono (cs : List Char) {p q : Position} (h : p ≤ q) :
    charIndex cs p ≤ charIndex cs q :=
  Line.offset_mono _ (Position.le_iff.1 h)

theorem not_joins_charIndex (cs : List Char) (p : Position) :
    ¬ Joins (cs.take (charIndex cs p)) (cs.drop (charIndex cs p)) :=
  Line.not_joins_offset cs p.line p.column

/-- Offset `i` is between a `\r` and the `\n` behind it. -/
def InsideBreak (cs : List Char) (i : Nat) : Prop :=
  0 < i ∧ cs[i - 1]? = some '\r' ∧ cs[i]? = some '\n'

instance (cs : List Char) (i : Nat) : Decidable (InsideBreak cs i) :=
  inferInstanceAs (Decidable (_ ∧ _))

theorem insideBreak_iff_joins {cs : List Char} {i : Nat} :
    InsideBreak cs i ↔ Joins (cs.take i) (cs.drop i) := by
  cases i with
  | zero => simp [InsideBreak, not_joins_nil_left]
  | succ i =>
    rw [InsideBreak, Joins, List.head?_drop, Nat.add_sub_cancel]
    rcases Nat.lt_or_ge i cs.length with h | h
    · rw [List.take_succ_eq_append_getElem h, List.getLast?_concat, List.getElem?_eq_getElem h]
      exact and_iff_right (Nat.succ_pos i)
    · -- past the end there is nothing to join
      simp [List.getElem?_eq_none (Nat.le_succ_of_le h)]

theorem not_insideBreak_charIndex (cs : List Char) (p : Position) :
    ¬ InsideBreak cs (charIndex cs p) := by
  rw [insideBreak_iff_joins]
  exact not_joins_charIndex cs p

theorem countBreaks_take_charIndex {cs : List Char} {p : Position}
    (h : p.line < (Line.split cs).length) : countBreaks (cs.take (charIndex cs p)) = p.line :=
  Line.countBreaks_take_offset cs p.column h

end ScopeTokens
