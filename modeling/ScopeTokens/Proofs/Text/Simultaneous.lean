/-
  ScopeTokens.Proofs.Text.Simultaneous

  A batch of splices as a function of the old text, offset by offset. At offset
  `i` stand the new texts of the splices that start at `i`, and then the old
  character, unless some splice covers it (`simultaneous`). No splice comes before
  another in this reading. `applyAll` carries splices out one by one, on a text
  whose length keeps changing, and comes to just that if they are `Apart`
  (`applyAll_eq_simultaneous`), in whatever order they were delivered.
-/

import Mathlib.Data.List.Perm.Basic
import ScopeTokens.Proofs.Text.Substitution
import ScopeTokens.Text.Document

namespace ScopeTokens

namespace Splice

/-- `s` replaces the character at offset `i`. -/
def covers (s : Splice) (i : Nat) : Bool :=
  s.start ≤ i && i < s.stop

theorem covers_iff {s : Splice} {i : Nat} : s.covers i = true ↔ s.start ≤ i ∧ i < s.stop := by
  rw [covers, Bool.and_eq_true, decide_eq_true_eq, decide_eq_true_eq]

/-- What stands at offset `i` with all splices carried out at once: the new texts that start there,
    and the old character unless it is covered. -/
def pieceAt (ss : List Splice) (cs : List Char) (i : Nat) : List Char :=
  (ss.filter fun s => s.start = i).flatMap text ++
    if ss.any fun s => s.covers i then [] else cs[i]?.toList

/-- `cs` with all splices carried out at once. -/
def simultaneous (ss : List Splice) (cs : List Char) : List Char :=
  (List.range (cs.length + 1)).flatMap (pieceAt ss cs)

/-- The new texts of the splices that start at offset `i`. -/
def textAt (ss : List Splice) (i : Nat) : List Char :=
  (ss.filter fun s => s.start = i).flatMap text

/-! ## One offset -/

theorem Ordered.le_start {length done : Nat} {ss : List Splice} (h : Ordered length done ss)
    {s : Splice} (h_s : s ∈ ss) : done ≤ s.start := by
  induction ss generalizing done with
  | nil => exact absurd h_s List.not_mem_nil
  | cons t ss ih =>
    obtain ⟨h_start, h_stop, h_rest⟩ := h
    rcases List.mem_cons.1 h_s with rfl | h_mem
    · exact h_start
    · have := ih h_rest h_mem
      omega

theorem textAt_cons (s : Splice) (ss : List Splice) (i : Nat) :
    textAt (s :: ss) i = (if s.start = i then s.text else []) ++ textAt ss i := by
  by_cases h_start : s.start = i
  · rw [textAt, List.filter_cons_of_pos (by simpa using h_start), List.flatMap_cons,
      if_pos h_start, textAt]
  · rw [textAt, List.filter_cons_of_neg (by simpa using h_start), if_neg h_start,
      List.nil_append, textAt]

theorem textAt_eq_nil {ss : List Splice} {i : Nat}
    (h : ∀ s ∈ ss, s.start = i → s.text = []) : textAt ss i = [] := by
  rw [textAt, List.flatMap_eq_nil_iff]
  intro s h_s
  rw [List.mem_filter, decide_eq_true_eq] at h_s
  exact h s h_s.1 h_s.2

theorem pieceAt_of_not_covers {ss : List Splice} {i : Nat}
    (h : ¬ (ss.any fun s => s.covers i) = true) (cs : List Char) :
    pieceAt ss cs i = textAt ss i ++ cs[i]?.toList := by
  rw [pieceAt, if_neg h, textAt]

/-- In front of all splices the old characters stand. -/
theorem pieceAt_of_lt {ss : List Splice} (cs : List Char) {i : Nat} (h : ∀ s ∈ ss, i < s.start) :
    pieceAt ss cs i = cs[i]?.toList := by
  have h_text : textAt ss i = [] := textAt_eq_nil fun s h_s h_start => by
    have := h s h_s
    omega
  have h_covers : ¬ (ss.any fun s => s.covers i) = true := by
    rw [List.any_eq_true]
    rintro ⟨s, h_s, h_covers⟩
    have := h s h_s
    rw [covers_iff] at h_covers
    omega
  rw [pieceAt_of_not_covers h_covers, h_text, List.nil_append]

/-- A further splice that does not cover `i` adds its text if it starts at `i`. -/
theorem pieceAt_cons_of_not_covers {s : Splice} {i : Nat} (h : ¬ s.covers i = true)
    (ss : List Splice) (cs : List Char) :
    pieceAt (s :: ss) cs i = (if s.start = i then s.text else []) ++ pieceAt ss cs i := by
  rw [Bool.not_eq_true] at h
  have h_text := textAt_cons s ss i
  rw [textAt, textAt] at h_text
  rw [pieceAt, h_text, List.any_cons, h, Bool.false_or, List.append_assoc, pieceAt]

/-- Where a splice covers `i`, only new texts stand. -/
theorem pieceAt_of_covers {s : Splice} {ss : List Splice} {i : Nat} (h_s : s ∈ ss)
    (h : s.covers i = true) (cs : List Char) : pieceAt ss cs i = textAt ss i := by
  rw [pieceAt, if_pos (List.any_eq_true.2 ⟨s, h_s, h⟩), List.append_nil, textAt]

/-! ## All offsets -/

/-- `List.range'` cut at `b`. -/
theorem range'_eq_append {a b c : Nat} (h_ab : a ≤ b) (h_bc : b ≤ c) :
    List.range' a (c - a) = List.range' a (b - a) ++ List.range' b (c - b) := by
  have h_append := List.range'_append_1 (s := a) (m := b - a) (n := c - b)
  rw [Nat.add_sub_cancel' h_ab] at h_append
  rw [h_append]
  congr 1
  omega

/-- The characters at `n` offsets from `a` on are a slice of `cs`. -/
theorem flatMap_getElem? (cs : List Char) (a n : Nat) :
    (List.range' a n).flatMap (fun i => cs[i]?.toList) = (cs.drop a).take n := by
  induction n generalizing a with
  | zero => simp
  | succ n ih =>
    rw [List.range'_succ, List.flatMap_cons, ih]
    rcases Nat.lt_or_ge a cs.length with h | h
    · rw [List.drop_eq_getElem_cons h, List.getElem?_eq_getElem h]
      rfl
    · rw [List.getElem?_eq_none h, List.drop_of_length_le h, List.drop_of_length_le (by omega)]
      simp

theorem flatMap_range'_congr {f g : Nat → List Char} {a n : Nat}
    (h : ∀ i, a ≤ i → i < a + n → f i = g i) :
    (List.range' a n).flatMap f = (List.range' a n).flatMap g := by
  apply List.flatMap_congr
  intro i h_i
  rw [List.mem_range'_1] at h_i
  exact h i h_i.1 h_i.2

/-- `simultaneous` from offset `a` on. -/
def simultaneousFrom (ss : List Splice) (cs : List Char) (a : Nat) : List Char :=
  (List.range' a (cs.length + 1 - a)).flatMap (pieceAt ss cs)

/-- From `a` up to `b` the old text stands, if `pieceAt` is the old character at each of these
    offsets. -/
theorem simultaneousFrom_eq_append {ss : List Splice} {cs : List Char} {a b : Nat} (h_ab : a ≤ b)
    (h_b : b ≤ cs.length)
    (h : ∀ i, a ≤ i → i < b → pieceAt ss cs i = cs[i]?.toList) :
    simultaneousFrom ss cs a = (cs.drop a).take (b - a) ++ simultaneousFrom ss cs b := by
  rw [simultaneousFrom, range'_eq_append h_ab (by omega), List.flatMap_append, ← flatMap_getElem?]
  congr 1
  apply flatMap_range'_congr
  intro i h_i h_lt
  exact h i h_i (by omega)

/-- An insertion at `s.start` comes in front of the rest. -/
theorem simultaneousFrom_cons_of_stop_eq {s : Splice} (h : s.stop = s.start) (ss : List Splice)
    {cs : List Char} (h_length : s.start ≤ cs.length) :
    simultaneousFrom (s :: ss) cs s.start = s.text ++ simultaneousFrom ss cs s.start := by
  have h_piece : ∀ i, pieceAt (s :: ss) cs i =
      (if s.start = i then s.text else []) ++ pieceAt ss cs i := by
    intro i
    apply pieceAt_cons_of_not_covers
    rw [covers_iff]
    omega
  have h_count : cs.length + 1 - s.start = (cs.length - s.start) + 1 := by omega
  rw [simultaneousFrom, simultaneousFrom, h_count, List.range'_succ, List.flatMap_cons,
    List.flatMap_cons, h_piece, if_pos rfl, List.append_assoc]
  congr 2
  apply flatMap_range'_congr
  intro i h_i _
  rw [h_piece, if_neg (by omega), List.nil_append]

/-- From `a` up to `b` the splices cover nothing, and none of them starts there, except at `a`
    itself. -/
def Keep (a b : Nat) (ss : List Splice) : Prop :=
  ∀ s ∈ ss, s.start = a ∧ s.stop = a ∨ b ≤ s.start

/-- A replacement comes in front of the text that others put at `s.start`, and takes out the old
    characters up to `s.stop`. -/
theorem simultaneousFrom_cons_of_keep {s : Splice} {ss : List Splice} {cs : List Char}
    (h_lt : s.start < s.stop) (h_stop : s.stop ≤ cs.length) (h : Keep s.start s.stop ss) :
    simultaneousFrom (s :: ss) cs s.start =
      s.text ++ textAt ss s.start ++ simultaneousFrom ss cs s.stop := by
  have h_covers : ∀ i, s.start ≤ i → i < s.stop →
      pieceAt (s :: ss) cs i = textAt (s :: ss) i :=
    fun i h_i h_lt => pieceAt_of_covers List.mem_cons_self (covers_iff.2 ⟨h_i, h_lt⟩) cs
  -- the characters behind the first of the range are covered, and nothing is inserted at them
  have h_inside : (List.range' (s.start + 1) (s.stop - (s.start + 1))).flatMap
      (pieceAt (s :: ss) cs) = [] := by
    rw [List.flatMap_eq_nil_iff]
    intro i h_i
    rw [List.mem_range'_1] at h_i
    rw [h_covers i (by omega) (by omega), textAt_eq_nil]
    intro t h_t h_eq
    rcases List.mem_cons.1 h_t with rfl | h_t
    · omega
    · have := h t h_t
      omega
  -- from the end of the range on, `s` has no part in what stands there
  have h_behind : (List.range' s.stop (cs.length + 1 - s.stop)).flatMap (pieceAt (s :: ss) cs) =
      simultaneousFrom ss cs s.stop := by
    apply flatMap_range'_congr
    intro i h_i _
    have h_not : ¬ s.covers i = true := by
      rw [covers_iff]
      omega
    rw [pieceAt_cons_of_not_covers h_not, if_neg (by omega), List.nil_append]
  have h_count : cs.length + 1 - s.start = (cs.length + 1 - (s.start + 1)) + 1 := by omega
  rw [simultaneousFrom, h_count, List.range'_succ, List.flatMap_cons,
    h_covers _ (Nat.le_refl _) h_lt, textAt_cons, if_pos rfl,
    range'_eq_append (b := s.stop) (by omega) (by omega), List.flatMap_append, h_inside, h_behind,
    List.nil_append]

/-- A splice comes in front of those that follow it without overlap. -/
theorem simultaneousFrom_cons {cs : List Char} {s : Splice} {ss : List Splice}
    (h_stop : s.start ≤ s.stop) (h : Ordered cs.length s.stop ss) :
    simultaneousFrom (s :: ss) cs s.start = s.text ++ simultaneousFrom ss cs s.stop := by
  have h_length := h.le_length
  rcases Nat.eq_or_lt_of_le h_stop with h_eq | h_lt
  · rw [simultaneousFrom_cons_of_stop_eq h_eq.symm ss (by omega), ← h_eq]
  · have h_text : textAt ss s.start = [] := textAt_eq_nil fun t h_t h_start => by
      have := h.le_start h_t
      omega
    rw [simultaneousFrom_cons_of_keep h_lt h_length fun t h_t => .inr (h.le_start h_t), h_text,
      List.append_nil]

/-- On ordered splices `substitute` is `simultaneousFrom`. -/
theorem substitute_eq_simultaneousFrom {cs : List Char} {done : Nat} {ss : List Splice}
    (h : Ordered cs.length done ss) : substitute cs done ss = simultaneousFrom ss cs done := by
  induction ss generalizing done with
  | nil =>
    have h_piece : pieceAt [] cs = fun i => cs[i]?.toList := rfl
    rw [substitute_nil, simultaneousFrom, h_piece, flatMap_getElem?, List.take_of_length_le]
    rw [List.length_drop]
    omega
  | cons s ss ih =>
    obtain ⟨h_start, h_stop, h_rest⟩ := h
    have h_length := h_rest.le_length
    have h_ordered : Ordered cs.length s.start (s :: ss) := ⟨Nat.le_refl _, h_stop, h_rest⟩
    have h_before : ∀ i, done ≤ i → i < s.start → pieceAt (s :: ss) cs i = cs[i]?.toList :=
      fun i _ h_i => pieceAt_of_lt cs fun t h_t => Nat.lt_of_lt_of_le h_i (h_ordered.le_start h_t)
    rw [substitute_cons, ih h_rest, simultaneousFrom_eq_append h_start (by omega) h_before,
      simultaneousFrom_cons h_stop h_rest, List.append_assoc]

theorem substitute_eq_simultaneous {cs : List Char} {ss : List Splice}
    (h : Ordered cs.length 0 ss) : substitute cs 0 ss = simultaneous ss cs := by
  rw [substitute_eq_simultaneousFrom h, simultaneousFrom, simultaneous, List.range_eq_range',
    Nat.sub_zero]

/-! ## Any order -/

/-- `simultaneous` depends on the order only among splices that start at the same offset. -/
theorem simultaneous_congr {ss ts : List Splice} (h_perm : ts.Perm ss)
    (h : ∀ i, ts.filter (fun s => s.start = i) = ss.filter fun s => s.start = i)
    (cs : List Char) : simultaneous ts cs = simultaneous ss cs := by
  apply List.flatMap_congr
  intro i _
  have h_any : (ts.any fun s => s.covers i) = ss.any fun s => s.covers i := h_perm.any_eq
  rw [pieceAt, pieceAt, h_any, h i]

/-- `simultaneous` does not depend on the order of splices with different starts. -/
theorem simultaneous_perm {ss ts : List Splice} (h : ss.Pairwise fun a b => a.start ≠ b.start)
    (h_perm : ts.Perm ss) (cs : List Char) : simultaneous ts cs = simultaneous ss cs := by
  apply simultaneous_congr h_perm
  intro i
  have h_starts := h_perm.filter fun s => decide (s.start = i)
  -- at most one of the splices starts at the offset
  cases h_ss : ss.filter fun s => decide (s.start = i) with
  | nil =>
    rw [h_ss] at h_starts
    exact h_starts.eq_nil
  | cons a rest =>
    cases rest with
    | nil =>
      rw [h_ss] at h_starts
      exact List.perm_singleton.1 h_starts
    | cons b rest =>
      have h_two := h.filter fun s => decide (s.start = i)
      have h_mem : ∀ s ∈ a :: b :: rest, s.start = i := by
        rw [← h_ss]
        intro s h_s
        simpa using (List.mem_filter.1 h_s).2
      rw [h_ss, List.pairwise_cons] at h_two
      refine absurd ?_ (h_two.1 b List.mem_cons_self)
      rw [h_mem a List.mem_cons_self, h_mem b (List.mem_cons_of_mem a List.mem_cons_self)]

/-- Splices that are apart can be put in order. -/
theorem exists_ordered {length : Nat} {ts : List Splice} (h : ts.Pairwise Apart)
    (h_bounds : ∀ s ∈ ts, s.start ≤ s.stop ∧ s.stop ≤ length) :
    ∃ ss, ts.Perm ss ∧ (ss.Pairwise fun a b => a.start < b.start) ∧ Ordered length 0 ss := by
  have h_perm : ts.Perm (backToFront ts).reverse :=
    (backToFront_perm ts).symm.trans (List.reverse_perm _).symm
  have h_sorted : (backToFront ts).reverse.Pairwise fun a b => a.start ≤ b.start :=
    List.pairwise_reverse.2 (pairwise_backToFront ts)
  generalize (backToFront ts).reverse = ss at h_perm h_sorted
  have h_bounds' : ∀ s ∈ ss, s.start ≤ s.stop ∧ s.stop ≤ length :=
    fun s h_s => h_bounds s (h_perm.symm.subset h_s)
  -- apart and sorted, each range ends where the next one starts or before
  have h_ascend : ss.Pairwise fun a b => a.start < b.start ∧ a.stop ≤ b.start := by
    refine ((h.perm h_perm Apart.symm).and h_sorted).imp_of_mem ?_
    rintro a b h_a h_b ⟨⟨h_ne, h_disjoint⟩, h_le⟩
    have := (h_bounds' b h_b).1
    omega
  refine ⟨ss, h_perm, h_ascend.imp And.left,
    ordered_of_pairwise (Nat.zero_le _) ?_ (h_ascend.imp And.right)⟩
  intro s h_s
  exact ⟨Nat.zero_le _, h_bounds' s h_s⟩

/-- `applyAll` of splices that are apart is `simultaneous`, in any order of delivery. -/
theorem applyAll_eq_simultaneous {cs : List Char} {ts us : List Splice} (h : ts.Pairwise Apart)
    (h_bounds : ∀ s ∈ ts, s.start ≤ s.stop ∧ s.stop ≤ cs.length) (h_perm : us.Perm ts) :
    applyAll us cs = simultaneous ts cs := by
  obtain ⟨ss, h_ss, h_start, h_ordered⟩ := exists_ordered h h_bounds
  rw [applyAll_eq_substitute (h_perm.trans h_ss) h_start h_ordered,
    substitute_eq_simultaneous h_ordered, ← simultaneous_perm (h_start.imp Nat.ne_of_lt) h_ss]

end Splice

/-! ## Documents -/

namespace Document

/-- A batch whose ranges resolve to splices that are `Apart` in the text of `d` is carried out as
    one simultaneous substitution: each range gives way to its new text, every other character is
    kept. The order in which the changes are delivered does not matter. -/
theorem applyChanges_eq_simultaneous (d : Document) (changes : List TextChange)
    (h : changes.Pairwise fun a b =>
      Splice.Apart (.ofChange d.text.toList a) (.ofChange d.text.toList b)) :
    (d.applyChanges changes).text.toList =
      Splice.simultaneous (changes.map (.ofChange d.text.toList)) d.text.toList ∧
    ∀ delivered, delivered.Perm changes → d.applyChanges delivered = d.applyChanges changes := by
  have h_apart : (changes.map (Splice.ofChange d.text.toList)).Pairwise Splice.Apart :=
    List.pairwise_map.2 h
  have h_bounds : ∀ s ∈ changes.map (Splice.ofChange d.text.toList),
      s.start ≤ s.stop ∧ s.stop ≤ d.text.toList.length := by
    intro s h_s
    obtain ⟨c, -, rfl⟩ := List.mem_map.1 h_s
    exact ⟨Splice.start_le_stop_ofChange _ c, Splice.stop_ofChange_le_length _ c⟩
  -- the right side does not mention the order of delivery, so neither text depends on it
  have h_apply : ∀ delivered : List TextChange, delivered.Perm changes →
      Splice.applyAll (delivered.map (Splice.ofChange d.text.toList)) d.text.toList =
        Splice.simultaneous (changes.map (.ofChange d.text.toList)) d.text.toList :=
    fun delivered h_perm => Splice.applyAll_eq_simultaneous h_apart h_bounds (h_perm.map _)
  constructor
  · rw [applyChanges, h_apply changes (.refl changes)]
    exact String.toList_ofList
  · intro delivered h_perm
    rw [applyChanges, applyChanges, h_apply delivered h_perm, h_apply changes (.refl changes)]

/-- Two lines, with `\r\n` between them. -/
def briefDocument : Document :=
  .new ⟨0⟩ "plaintext" "ab\r\ncd"

/-- An insertion past the last line, a range with its ends the wrong way round, and one that takes
    the break behind it out. -/
def scatteredChanges : List TextChange :=
  [⟨⟨⟨9, 0⟩, ⟨3, 3⟩⟩, "\n"⟩, ⟨⟨⟨0, 2⟩, ⟨0, 1⟩⟩, "x"⟩, ⟨⟨⟨0, 7⟩, ⟨1, 0⟩⟩, ""⟩]

theorem applyChanges_eq_simultaneous_scatteredChanges :
    (scatteredChanges.Pairwise fun a b => Splice.Apart
      (.ofChange briefDocument.text.toList a) (.ofChange briefDocument.text.toList b)) ∧
    (briefDocument.applyChanges scatteredChanges).text.toList = ['a', 'x', 'c', 'd', '\n'] ∧
    ∀ delivered, delivered.Perm scatteredChanges →
      briefDocument.applyChanges delivered = briefDocument.applyChanges scatteredChanges := by
  have h_apart : scatteredChanges.Pairwise fun a b => Splice.Apart
      (.ofChange briefDocument.text.toList a) (.ofChange briefDocument.text.toList b) := by decide
  obtain ⟨h_text, h_order⟩ := applyChanges_eq_simultaneous briefDocument scatteredChanges h_apart
  exact ⟨h_apart, h_text.trans (by decide), h_order⟩

end Document

end ScopeTokens
