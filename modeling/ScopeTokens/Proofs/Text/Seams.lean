/-
  ScopeTokens.Proofs.Text.Seams

  Lines of a concatenation `xs ++ ys`. Breaks add up, except that a `\r` at the
  end of `xs` and a `\n` at the front of `ys` become one break
  (`countBreaks_append`). In either case `ys` keeps all its lines but the first
  (`drop_texts_append`), and `xs` all its lines but the last
  (`take_texts_append`).
-/

import Mathlib.Data.List.Infix
import Mathlib.Data.List.TakeDrop
import ScopeTokens.Text.Line

namespace ScopeTokens

/-- `xs` ends in `\r` and `ys` starts with `\n`. -/
def Joins (xs ys : List Char) : Prop :=
  xs.getLast? = some '\r' ∧ ys.head? = some '\n'

instance (xs ys : List Char) : Decidable (Joins xs ys) :=
  inferInstanceAs (Decidable (_ ∧ _))

/-- Number of breaks that `xs ++ ys` has less than `xs` and `ys` together. -/
def seam (xs ys : List Char) : Nat :=
  if Joins xs ys then 1 else 0

theorem seam_le_one (xs ys : List Char) : seam xs ys ≤ 1 := by
  unfold seam
  split <;> omega

theorem seam_of_not_joins {xs ys : List Char} (h : ¬ Joins xs ys) : seam xs ys = 0 :=
  if_neg h

theorem not_joins_nil_left (ys : List Char) : ¬ Joins [] ys := by
  simp [Joins]

theorem not_joins_nil_right (xs : List Char) : ¬ Joins xs [] := by
  simp [Joins]

/-- Only the last character of `xs` matters. -/
theorem joins_cons_cons {c d : Char} {xs ys : List Char} :
    Joins (c :: d :: xs) ys ↔ Joins (d :: xs) ys := by
  simp [Joins]

theorem Joins.cons {xs ys : List Char} (h : Joins xs ys) (c : Char) : Joins (c :: xs) ys := by
  cases xs with
  | nil => exact absurd h (not_joins_nil_left ys)
  | cons x xs => exact joins_cons_cons.2 h

/-- Only the first character of `ys` matters. -/
theorem joins_append_right {xs ys zs : List Char} (h : ys ≠ []) :
    Joins xs (ys ++ zs) ↔ Joins xs ys := by
  cases ys with
  | nil => exact absurd rfl h
  | cons y ys => simp [Joins]

theorem joins_singleton {c : Char} {ys : List Char} :
    Joins [c] ys ↔ c = '\r' ∧ ys.head? = some '\n' := by
  simp [Joins]

/-- `Joins [c] ys` as an equation on `c` and `ys`. -/
theorem joins_singleton_iff_exists {c : Char} {ys : List Char} :
    Joins [c] ys ↔ ∃ zs, c = '\r' ∧ ys = '\n' :: zs := by
  rw [joins_singleton, List.head?_eq_some_iff]
  simp

theorem not_joins_singleton_iff {c : Char} {ys : List Char} :
    ¬ Joins [c] ys ↔ ∀ zs, c = '\r' → ys = '\n' :: zs → False := by
  rw [joins_singleton_iff_exists, not_exists]
  exact forall_congr' fun _ => not_and

/-! ## Breaks -/

/-- `c` adds a break if it is one; a `\r` in front of `\n` adds none. -/
theorem countBreaks_cons (c : Char) (cs : List Char) :
    countBreaks (c :: cs) + seam [c] cs = (if isLineBreak c then 1 else 0) + countBreaks cs := by
  by_cases h : Joins [c] cs
  -- a carriage return in front of a line feed: still one break
  · obtain ⟨ds, rfl, rfl⟩ := joins_singleton_iff_exists.1 h
    have h_lf : countBreaks ('\n' :: ds) = countBreaks ds + 1 := by
      rw [countBreaks.eq_3 _ _ (by simp), if_pos (by decide)]
    rw [countBreaks_crlf, h_lf, seam, if_pos h, if_pos (by decide)]
    omega
  · rw [countBreaks.eq_3 _ _ (not_joins_singleton_iff.1 h), seam_of_not_joins h]
    split <;> omega

/-- `countBreaks` is additive up to `seam`. -/
theorem countBreaks_append (xs ys : List Char) :
    countBreaks (xs ++ ys) + seam xs ys = countBreaks xs + countBreaks ys := by
  induction xs with
  | nil => simp [seam_of_not_joins (not_joins_nil_left ys), countBreaks_nil]
  | cons c xs ih =>
    have h_whole := countBreaks_cons c (xs ++ ys)
    have h_front := countBreaks_cons c xs
    rw [List.cons_append]
    cases xs with
    | nil =>
      have h_nil := seam_of_not_joins (not_joins_nil_right [c])
      rw [List.nil_append] at h_whole ⊢
      rw [countBreaks_nil] at h_front
      omega
    | cons x xs =>
      -- `c` meets `x` in both texts, and what meets `ys` is behind `x`
      have h_above : seam [c] (x :: xs ++ ys) = seam [c] (x :: xs) := by
        simp only [seam, joins_append_right (List.cons_ne_nil x xs)]
      have h_below : seam (c :: x :: xs) ys = seam (x :: xs) ys := by
        simp only [seam, joins_cons_cons]
      omega

theorem countBreaks_append_le (xs ys : List Char) :
    countBreaks (xs ++ ys) ≤ countBreaks xs + countBreaks ys := by
  have := countBreaks_append xs ys
  omega

theorem countBreaks_append_of_not_joins {xs ys : List Char} (h : ¬ Joins xs ys) :
    countBreaks (xs ++ ys) = countBreaks xs + countBreaks ys := by
  have := countBreaks_append xs ys
  have := seam_of_not_joins h
  omega

/-- A text that starts with `\n` has a break. -/
theorem countBreaks_pos_of_head {ys : List Char} (h : ys.head? = some '\n') :
    0 < countBreaks ys := by
  cases ys with
  | nil => simp at h
  | cons y ys =>
    obtain rfl : y = '\n' := by simpa using h
    rw [countBreaks.eq_3 _ _ (by simp), if_pos (by decide)]
    omega

/-! ## Contents of lines -/

namespace Line

/-- `Line.content` of each line of `cs`. -/
def contents (cs : List Char) : List (List Char) :=
  (split cs).map content

theorem length_contents (cs : List Char) : (contents cs).length = countBreaks cs + 1 := by
  rw [contents, List.length_map, length_split]

theorem contents_ne_nil (cs : List Char) : contents cs ≠ [] := by
  intro h
  have := length_contents cs
  rw [h] at this
  simp at this

theorem contents_nil : contents [] = [[]] := rfl

theorem map_content_consFirst (c : Char) {ls : List Line} (h : ls ≠ []) :
    (consFirst c ls).map content = (ls.map content).modifyHead (c :: ·) := by
  cases ls with
  | nil => exact absurd rfl h
  | cons l ls => rfl

/-- A break `c` starts an empty first line. If it joins, that line takes the place of the empty
    first line of `cs`. -/
theorem contents_cons_of_break {c : Char} (h : isLineBreak c = true) (cs : List Char) :
    contents (c :: cs) = [] :: (contents cs).drop (seam [c] cs) := by
  by_cases h_join : Joins [c] cs
  -- the line feed ends the same empty line with and without `c`
  · obtain ⟨ds, rfl, rfl⟩ := joins_singleton_iff_exists.1 h_join
    rw [seam, if_pos h_join, contents, contents, split, split.eq_3 _ _ (by simp),
      if_pos (by decide)]
    rfl
  · rw [seam_of_not_joins h_join, contents,
      split.eq_3 _ _ (not_joins_singleton_iff.1 h_join), if_pos h]
    rfl

/-- A `c` that is no break goes to the front of the first line. -/
theorem contents_cons_of_not_break {c : Char} (h : isLineBreak c = false) (cs : List Char) :
    contents (c :: cs) = (contents cs).modifyHead (c :: ·) := by
  have h_crlf : ∀ ds, c = '\r' → cs = '\n' :: ds → False := by
    rintro ds rfl -
    exact absurd h (by decide)
  rw [contents, split.eq_3 _ _ h_crlf, if_neg (by simp [h]),
    map_content_consFirst c (split_ne_nil cs)]
  rfl

/-- The lines behind the first are not touched by a character in front. -/
theorem tail_contents_cons (c : Char) (cs : List Char) :
    (contents cs).tail <:+ (contents (c :: cs)).tail := by
  cases h : isLineBreak c with
  | false =>
    rw [contents_cons_of_not_break h, List.tail_modifyHead]
  | true =>
    rw [contents_cons_of_break h, List.tail_cons]
    have h_seam : seam [c] cs = 0 ∨ seam [c] cs = 1 := by
      have := seam_le_one [c] cs
      omega
    rcases h_seam with h_seam | h_seam
    · rw [h_seam, List.drop_zero]
      exact List.tail_suffix _
    · rw [h_seam, List.drop_one]

/-- The lines of `ys` behind its first are the last lines of `xs ++ ys`. -/
theorem tail_contents_append (xs ys : List Char) :
    (contents ys).tail <:+ (contents (xs ++ ys)).tail := by
  induction xs with
  | nil => exact List.suffix_rfl
  | cons c xs ih => exact ih.trans (tail_contents_cons c (xs ++ ys))

/-- `tail_contents_append` by number: no seam, `n` breaks in `xs`. -/
theorem drop_contents_append {xs ys : List Char} {n : Nat}
    (h : countBreaks (xs ++ ys) = n + countBreaks ys) :
    (contents (xs ++ ys)).drop (n + 1) = (contents ys).drop 1 := by
  have h_suffix := List.suffix_iff_eq_drop.1 (tail_contents_append xs ys)
  rw [List.length_tail, List.length_tail, length_contents, length_contents, h] at h_suffix
  rw [← List.drop_one, ← List.drop_one, List.drop_drop] at h_suffix
  rw [h_suffix]
  congr 1
  omega

/-- The lines of `xs` in front of its last are the first lines of `xs ++ ys`. -/
theorem dropLast_contents_append (xs ys : List Char) :
    (contents xs).dropLast <+: contents (xs ++ ys) := by
  induction xs with
  | nil => exact List.nil_prefix
  | cons c xs ih =>
    cases h : isLineBreak c with
    | false =>
      rw [List.cons_append, contents_cons_of_not_break h, contents_cons_of_not_break h]
      obtain ⟨l, ls, h_xs⟩ := List.exists_cons_of_ne_nil (contents_ne_nil xs)
      obtain ⟨rest, h_rest⟩ := ih
      rw [h_xs] at h_rest ⊢
      cases ls with
      -- `c` is on the last line of the first text, which need not stay
      | nil => exact List.nil_prefix
      | cons l' ls =>
        rw [List.dropLast_cons_cons] at h_rest
        rw [← h_rest, List.modifyHead_cons, List.dropLast_cons_cons]
        exact ⟨rest, rfl⟩
    | true =>
      rw [List.cons_append, contents_cons_of_break h, contents_cons_of_break h]
      cases xs with
      | nil =>
        rw [contents_nil, seam_of_not_joins (not_joins_nil_right [c])]
        exact ⟨_, rfl⟩
      | cons x xs =>
        have h_seam : seam [c] (x :: xs ++ ys) = seam [c] (x :: xs) := by
          simp only [seam, joins_append_right (List.cons_ne_nil x xs)]
        -- a joined break leaves the text behind it a line to end in
        have h_ne : (contents (x :: xs)).drop (seam [c] (x :: xs)) ≠ [] := by
          rw [Ne, List.drop_eq_nil_iff, length_contents, seam]
          split
          · rename_i h_join
            have := countBreaks_pos_of_head h_join.2
            omega
          · omega
        rw [h_seam, List.dropLast_cons_of_ne_nil h_ne, List.cons_prefix_cons]
        refine ⟨rfl, ?_⟩
        rw [List.dropLast_drop_eq_drop_dropLast]
        exact ih.drop _

/-- `dropLast_contents_append` by number of lines. -/
theorem take_contents_append {xs ys : List Char} {n : Nat} (h : n ≤ countBreaks xs) :
    (contents (xs ++ ys)).take n = (contents xs).take n := by
  have h_prefix := List.prefix_iff_eq_take.1 (dropLast_contents_append xs ys)
  rw [List.length_dropLast, length_contents, List.dropLast_eq_take, length_contents,
    Nat.add_sub_cancel] at h_prefix
  have h_take := congrArg (List.take n) h_prefix
  rwa [List.take_take, List.take_take, Nat.min_eq_left h, eq_comm] at h_take

/-! ## Lines as strings -/

/-- `Line.text` of each line of `cs`. -/
def texts (cs : List Char) : List String :=
  (split cs).map text

theorem texts_eq (cs : List Char) : texts cs = (contents cs).map String.ofList := by
  rw [texts, contents, List.map_map]
  rfl

theorem length_texts (cs : List Char) : (texts cs).length = countBreaks cs + 1 := by
  rw [texts, List.length_map, length_split]

theorem drop_texts_append {xs ys : List Char} {n : Nat}
    (h : countBreaks (xs ++ ys) = n + countBreaks ys) :
    (texts (xs ++ ys)).drop (n + 1) = (texts ys).drop 1 := by
  rw [texts_eq, texts_eq, ← List.map_drop, ← List.map_drop, drop_contents_append h]

theorem take_texts_append {xs ys : List Char} {n : Nat} (h : n ≤ countBreaks xs) :
    (texts (xs ++ ys)).take n = (texts xs).take n := by
  rw [texts_eq, texts_eq, ← List.map_take, ← List.map_take, take_contents_append h]

end Line

end ScopeTokens
