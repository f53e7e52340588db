/-
  ScopeTokens.Proofs.Text.SharedStarts

  Batches in which splices share a start. Splices that do not overlap share a
  start only if all of them but one replace nothing. They are carried out in the
  order of delivery, each on the text that those before it left, so a replacement
  removes new text that was put at its start before. The batch is `simultaneous`
  exactly if every splice `Spares` the new text that it finds
  (`applyChanges_eq_simultaneous_iff`); this is so if the replacement is delivered
  first.
-/

import Mathlib.Data.List.Permutation
import ScopeTokens.Proofs.StableSort
import ScopeTokens.Proofs.Text.Simultaneous

namespace ScopeTokens

namespace Splice

/-- `a` and `b` do not overlap; they may start at the same offset. -/
def NonOverlapping (a b : Splice) : Prop :=
  a.stop ≤ b.start ∨ b.stop ≤ a.start

instance (a b : Splice) : Decidable (NonOverlapping a b) :=
  inferInstanceAs (Decidable (_ ∨ _))

theorem NonOverlapping.symm {a b : Splice} (h : NonOverlapping a b) : NonOverlapping b a :=
  Or.symm h

/-- To remove as many characters as `s` replaces, behind the new text that the splices `before` put
    at its start, leaves this text as it is. -/
def Spares (cs : List Char) (s : Splice) (before : List Splice) : Prop :=
  (textAt before s.start ++ (cs.drop s.start).take (s.stop - s.start)).drop (s.stop - s.start) =
    textAt before s.start

/-- Every splice spares the new text of those delivered before it. The list has the last delivered
    first. -/
def SpareAll (cs : List Char) : List Splice → Prop
  | [] => True
  | s :: before => Spares cs s before ∧ SpareAll cs before

instance (cs : List Char) (s : Splice) (before : List Splice) : Decidable (Spares cs s before) :=
  inferInstanceAs (Decidable (_ = _))

instance decidableSpareAll (cs : List Char) : (ss : List Splice) → Decidable (SpareAll cs ss)
  | [] => inferInstanceAs (Decidable True)
  | s :: before =>
    have := decidableSpareAll cs before
    inferInstanceAs (Decidable (Spares cs s before ∧ SpareAll cs before))

/-- A splice that replaces nothing spares everything. -/
theorem spares_of_stop_eq {s : Splice} (h : s.stop = s.start) (cs : List Char)
    (before : List Splice) : Spares cs s before := by
  rw [Spares, h, Nat.sub_self, List.take_zero, List.append_nil, List.drop_zero]

/-- A splice that finds no new text at its start spares everything. -/
theorem spares_of_textAt_eq_nil {s : Splice} {before : List Splice}
    (h : textAt before s.start = []) (cs : List Char) : Spares cs s before := by
  rw [Spares, h, List.nil_append, List.drop_eq_nil_iff]
  exact List.length_take_le _ _

/-! ## The splices that start at one offset -/

theorem spares_filter (cs : List Char) (s : Splice) (before : List Splice) :
    Spares cs s (before.filter fun t => t.start = s.start) ↔ Spares cs s before := by
  have h_text : textAt (before.filter fun t => t.start = s.start) s.start =
      textAt before s.start := by
    rw [textAt, List.filter_filter, textAt]
    simp only [Bool.and_self]
  rw [Spares, Spares, h_text]

/-- `SpareAll` can be told for each start on its own. -/
theorem spareAll_iff_filter (cs : List Char) (ss : List Splice) :
    SpareAll cs ss ↔ ∀ i, SpareAll cs (ss.filter fun s => s.start = i) := by
  induction ss with
  | nil => exact ⟨fun _ _ => trivial, fun _ => trivial⟩
  | cons s ss ih =>
    have h_here : (s :: ss).filter (fun t => t.start = s.start) =
        s :: ss.filter fun t => t.start = s.start :=
      List.filter_cons_of_pos (decide_eq_true rfl)
    constructor
    · rintro ⟨h_s, h_ss⟩ i
      by_cases h_i : s.start = i
      · subst h_i
        rw [h_here]
        exact ⟨(spares_filter cs s ss).2 h_s, ih.1 h_ss s.start⟩
      · rw [List.filter_cons_of_neg (by simpa using h_i)]
        exact ih.1 h_ss i
    · intro h
      have h_s := h s.start
      rw [h_here] at h_s
      refine ⟨(spares_filter cs s ss).1 h_s.1, ih.2 fun i => ?_⟩
      by_cases h_i : s.start = i
      · subst h_i
        exact h_s.2
      · have h_rest := h i
        rw [List.filter_cons_of_neg (by simpa using h_i)] at h_rest
        exact h_rest

theorem spareAll_congr {ss ts : List Splice}
    (h : ∀ i, ts.filter (fun s => s.start = i) = ss.filter fun s => s.start = i)
    (cs : List Char) : SpareAll cs ts ↔ SpareAll cs ss := by
  rw [spareAll_iff_filter, spareAll_iff_filter cs ss]
  exact forall_congr' fun i => by rw [h i]

/-- In the order of `backToFront`, the splices of one start are in the order of delivery. -/
theorem filter_reverse_backToFront (ss : List Splice) (i : Nat) :
    (backToFront ss).reverse.filter (fun s => s.start = i) =
      ss.reverse.filter fun s => s.start = i := by
  rw [List.filter_reverse, List.filter_reverse]
  congr 1
  apply filter_mergeSort (R := fun a b : Splice => b.start ≤ a.start)
    (fun _ _ _ h_ab h_bc => Nat.le_trans h_bc h_ab) fun a b => Nat.le_total b.start a.start
  intro a b h_a h_b
  rw [decide_eq_true_eq] at h_a h_b
  omega

/-! ## Carried out one by one -/

/-- The text in front of all splices stays. -/
theorem take_foldr_apply {cs : List Char} {a : Nat} {ss : List Splice} (h_a : a ≤ cs.length)
    (h : ∀ s ∈ ss, a ≤ s.start) : (ss.foldr apply cs).take a = cs.take a := by
  induction ss with
  | nil => rfl
  | cons s ss ih =>
    have h_start : a ≤ s.start := h s List.mem_cons_self
    have h_take := ih fun t h_t => h t (List.mem_cons_of_mem s h_t)
    have h_length := congrArg List.length h_take
    rw [List.length_take, List.length_take] at h_length
    rw [List.foldr_cons, apply, List.append_assoc, List.take_append_of_le_length, List.take_take,
      Nat.min_eq_left h_start, h_take]
    rw [List.length_take]
    omega

theorem le_length_foldr_apply {cs : List Char} {a : Nat} {ss : List Splice} (h_a : a ≤ cs.length)
    (h : ∀ s ∈ ss, a ≤ s.start) : a ≤ (ss.foldr apply cs).length := by
  have h_length := congrArg List.length (take_foldr_apply h_a h)
  rw [List.length_take, List.length_take] at h_length
  omega

/-- `s`, carried out last of all, puts its text at its start and removes what stands behind it by
    then. -/
theorem drop_foldr_apply_cons {cs : List Char} {s : Splice} {ss : List Splice}
    (h_start : s.start ≤ s.stop) (h_length : s.start ≤ cs.length)
    (h : ∀ t ∈ ss, s.start ≤ t.start) :
    ((s :: ss).foldr apply cs).drop s.start =
      s.text ++ ((ss.foldr apply cs).drop s.start).drop (s.stop - s.start) := by
  have h_take : ((ss.foldr apply cs).take s.start).length = s.start :=
    List.length_take_of_le (le_length_foldr_apply h_length h)
  rw [List.foldr_cons, apply, List.append_assoc, List.drop_left' h_take, List.drop_drop,
    Nat.add_sub_cancel' h_start]

/-- Behind the text that was put at `a` there are the old characters up to `b`. -/
theorem exists_drop_foldr_apply {cs : List Char} {a b : Nat} {ss : List Splice}
    (h_ab : a < b) (h_b : b ≤ cs.length) (h_sorted : ss.Pairwise fun s t => s.start ≤ t.start)
    (h : Keep a b ss) :
    ∃ rest, (ss.foldr apply cs).drop a = textAt ss a ++ (cs.drop a).take (b - a) ++ rest := by
  induction ss with
  | nil => exact ⟨(cs.drop a).drop (b - a), (List.take_append_drop (b - a) (cs.drop a)).symm⟩
  | cons s ss ih =>
    rw [List.pairwise_cons] at h_sorted
    have h_ss : Keep a b ss := fun t h_t => h t (List.mem_cons_of_mem s h_t)
    obtain ⟨h_start, h_stop⟩ | h_start := h s List.mem_cons_self
    · obtain ⟨rest, h_rest⟩ := ih h_sorted.2 h_ss
      subst h_start
      refine ⟨rest, ?_⟩
      rw [drop_foldr_apply_cons (by omega) (by omega) h_sorted.1, h_rest, h_stop, Nat.sub_self,
        List.drop_zero, textAt_cons, if_pos rfl]
      simp only [List.append_assoc]
    -- the list ascends, so no splice at all starts before `b`
    · have h_behind : ∀ t ∈ s :: ss, b ≤ t.start := by
        intro t h_t
        rcases List.mem_cons.1 h_t with rfl | h_t
        · exact h_start
        · exact Nat.le_trans h_start (h_sorted.1 t h_t)
      have h_old : (cs.drop a).take (b - a) =
          (((s :: ss).foldr apply cs).drop a).take (b - a) := by
        rw [List.take_drop, List.take_drop, Nat.add_sub_cancel' h_ab.le,
          take_foldr_apply h_b h_behind]
      refine ⟨(((s :: ss).foldr apply cs).drop a).drop (b - a), ?_⟩
      rw [h_old, List.append_assoc, List.take_append_drop, textAt_eq_nil, List.nil_append]
      intro t h_t h_eq
      have := h_behind t h_t
      omega

/-! ## Carried out at once -/

/-- In front of all splices, the texts on both sides agree. -/
theorem foldr_apply_eq_simultaneous_iff {ss : List Splice} {cs : List Char} {a : Nat}
    (h_a : a ≤ cs.length) (h : ∀ s ∈ ss, a ≤ s.start) :
    ss.foldr apply cs = simultaneous ss cs ↔
      (ss.foldr apply cs).drop a = simultaneousFrom ss cs a := by
  have h_whole : simultaneous ss cs = cs.take a ++ simultaneousFrom ss cs a := by
    rw [simultaneous, List.range_eq_range']
    exact simultaneousFrom_eq_append (Nat.zero_le a) h_a fun i _ h_i =>
      pieceAt_of_lt cs fun s h_s => Nat.lt_of_lt_of_le h_i (h s h_s)
  rw [h_whole, ← take_foldr_apply h_a h]
  nth_rewrite 1 [← List.take_append_drop a (ss.foldr apply cs)]
  exact List.append_cancel_left_eq _ _ _ |>.to_iff

/-- `simultaneousFrom` starts with the text put at `a` and the old characters up to `b`. -/
theorem simultaneousFrom_of_keep {ss : List Splice} {cs : List Char} {a b : Nat} (h_ab : a < b)
    (h_b : b ≤ cs.length) (h : Keep a b ss) :
    simultaneousFrom ss cs a =
      textAt ss a ++ (cs.drop a).take (b - a) ++ simultaneousFrom ss cs b := by
  have h_covers : ∀ i, i < b → ¬ (ss.any fun s => s.covers i) = true := by
    intro i h_i
    rw [List.any_eq_true]
    rintro ⟨s, h_s, h_covers⟩
    rw [covers_iff] at h_covers
    have := h s h_s
    omega
  -- up to `b` no range covers a character and no text goes in, but at `a` itself
  have h_next : ∀ i, a + 1 ≤ i → i < b → pieceAt ss cs i = cs[i]?.toList := by
    intro i h_i h_lt
    have h_text : textAt ss i = [] := textAt_eq_nil fun s h_s h_eq => by
      have := h s h_s
      omega
    rw [pieceAt_of_not_covers (h_covers i h_lt), h_text, List.nil_append]
  have h_count : cs.length + 1 - a = (cs.length + 1 - (a + 1)) + 1 := by omega
  have h_take : (cs.drop a).take (b - a) =
      cs[a]?.toList ++ (cs.drop (a + 1)).take (b - (a + 1)) := by
    have h_a : a < cs.length := by omega
    have h_succ : b - a = (b - (a + 1)) + 1 := by omega
    rw [List.drop_eq_getElem_cons h_a, List.getElem?_eq_getElem h_a, h_succ, List.take_succ_cons]
    rfl
  have h_rest := simultaneousFrom_eq_append (by omega) h_b h_next
  rw [simultaneousFrom] at h_rest
  rw [simultaneousFrom, h_count, List.range'_succ, List.flatMap_cons, h_rest,
    pieceAt_of_not_covers (h_covers a h_ab), h_take]
  simp only [List.append_assoc]

/-! ## Both -/

/-- Ascending splices that do not overlap are `simultaneous` exactly if they spare new texts. -/
theorem foldr_apply_eq_simultaneous_iff_spareAll {cs : List Char} {ss : List Splice}
    (h_sorted : ss.Pairwise fun s t => s.start ≤ t.start) (h : ss.Pairwise NonOverlapping)
    (h_bounds : ∀ s ∈ ss, s.start ≤ s.stop ∧ s.stop ≤ cs.length) :
    ss.foldr apply cs = simultaneous ss cs ↔ SpareAll cs ss := by
  induction ss with
  | nil =>
    have h_ordered : Ordered cs.length 0 [] := Nat.zero_le cs.length
    exact iff_of_true (substitute_eq_simultaneous h_ordered) trivial
  | cons s ss ih =>
    rw [List.pairwise_cons] at h_sorted h
    obtain ⟨h_start_stop, h_stop⟩ := h_bounds s List.mem_cons_self
    have h_bounds_ss : ∀ t ∈ ss, t.start ≤ t.stop ∧ t.stop ≤ cs.length :=
      fun t h_t => h_bounds t (List.mem_cons_of_mem s h_t)
    have h_start : s.start ≤ cs.length := Nat.le_trans h_start_stop h_stop
    have h_from : ∀ t ∈ s :: ss, s.start ≤ t.start := by
      rintro t (_ | ⟨_, h_t⟩)
      · exact Nat.le_refl _
      · exact h_sorted.1 t h_t
    -- what stands in front of the first splice is the same; from there on the texts are compared
    rw [foldr_apply_eq_simultaneous_iff h_start h_from,
      drop_foldr_apply_cons h_start_stop h_start h_sorted.1, SpareAll,
      ← ih h_sorted.2 h.2 h_bounds_ss, foldr_apply_eq_simultaneous_iff h_start h_sorted.1]
    rcases Nat.eq_or_lt_of_le h_start_stop with h_eq | h_lt
    · rw [simultaneousFrom_cons_of_stop_eq h_eq.symm ss h_start, List.append_cancel_left_eq,
        ← h_eq, Nat.sub_self, List.drop_zero, and_iff_right (spares_of_stop_eq h_eq.symm cs ss)]
    -- what is cut off must be as long as what is replaced, so the texts behind can be compared
    · have h_keep : Keep s.start s.stop ss := by
        intro t h_t
        have h_not := h.1 t h_t
        rw [NonOverlapping] at h_not
        have := h_sorted.1 t h_t
        have := (h_bounds_ss t h_t).1
        omega
      obtain ⟨rest, h_rest⟩ := exists_drop_foldr_apply h_lt h_stop h_sorted.2 h_keep
      have h_old : ((cs.drop s.start).take (s.stop - s.start)).length = s.stop - s.start := by
        rw [List.length_take, List.length_drop]
        omega
      have h_cut : ((textAt ss s.start ++ (cs.drop s.start).take (s.stop - s.start)).drop
          (s.stop - s.start)).length = (textAt ss s.start).length := by
        rw [List.length_drop, List.length_append, h_old]
        omega
      rw [simultaneousFrom_cons_of_keep h_lt h_stop h_keep, simultaneousFrom_of_keep h_lt h_stop
        h_keep, h_rest, List.drop_append_of_le_length (by rw [List.length_append]; omega),
        List.append_assoc s.text, List.append_cancel_left_eq, List.append_cancel_left_eq, Spares]
      constructor
      · intro h_texts
        exact List.append_inj h_texts h_cut
      · rintro ⟨h_spares, rfl⟩
        rw [h_spares]

/-- `applyAll` of splices that do not overlap is `simultaneous` exactly if `SpareAll` holds in the
    order of delivery. -/
theorem applyAll_eq_simultaneous_iff {cs : List Char} {ss : List Splice}
    (h : ss.Pairwise NonOverlapping)
    (h_bounds : ∀ s ∈ ss, s.start ≤ s.stop ∧ s.stop ≤ cs.length) :
    applyAll ss cs = simultaneous ss.reverse cs ↔ SpareAll cs ss.reverse := by
  have h_perm : (backToFront ss).reverse.Perm ss :=
    (List.reverse_perm _).trans (backToFront_perm ss)
  have h_filter := filter_reverse_backToFront ss
  have h_sorted : (backToFront ss).reverse.Pairwise fun a b => a.start ≤ b.start :=
    List.pairwise_reverse.2 (pairwise_backToFront ss)
  rw [← simultaneous_congr (h_perm.trans (List.reverse_perm ss).symm) h_filter,
    ← spareAll_congr h_filter, applyAll, ← List.foldr_reverse]
  exact foldr_apply_eq_simultaneous_iff_spareAll h_sorted
    (h.perm h_perm.symm NonOverlapping.symm) fun s h_s => h_bounds s (h_perm.subset h_s)

/-- `SpareAll` holds if no new text is delivered before a replacement with the same start. -/
theorem spareAll_reverse {ss : List Splice}
    (h : ss.Pairwise fun a b => a.start = b.start → a.text = [] ∨ b.stop = b.start)
    (cs : List Char) : SpareAll cs ss.reverse := by
  rw [← List.pairwise_reverse] at h
  generalize ss.reverse = latestFirst at h ⊢
  induction latestFirst with
  | nil => trivial
  | cons s before ih =>
    rw [List.pairwise_cons] at h
    refine ⟨?_, ih h.2⟩
    by_cases h_stop : s.stop = s.start
    · exact spares_of_stop_eq h_stop cs before
    · apply spares_of_textAt_eq_nil
      exact textAt_eq_nil fun a h_a h_start => (h.1 a h_a h_start).resolve_right h_stop

end Splice

/-! ## Documents -/

namespace Document

/-- A batch whose resolved ranges do not overlap is one simultaneous substitution exactly if no
    replacement cuts new text that changes delivered before it put at its start (`SpareAll`). It
    does not if every such text is delivered after the replacement. -/
theorem applyChanges_eq_simultaneous_iff (d : Document) (changes : List TextChange)
    (h : changes.Pairwise fun a b =>
      Splice.NonOverlapping (.ofChange d.text.toList a) (.ofChange d.text.toList b)) :
    ((d.applyChanges changes).text.toList =
        Splice.simultaneous (changes.map (.ofChange d.text.toList)).reverse d.text.toList ↔
      Splice.SpareAll d.text.toList (changes.map (.ofChange d.text.toList)).reverse) ∧
    ((changes.map (Splice.ofChange d.text.toList)).Pairwise
        (fun a b => a.start = b.start → a.text = [] ∨ b.stop = b.start) →
      (d.applyChanges changes).text.toList =
        Splice.simultaneous (changes.map (.ofChange d.text.toList)).reverse d.text.toList) := by
  have h_bounds : ∀ s ∈ changes.map (Splice.ofChange d.text.toList),
      s.start ≤ s.stop ∧ s.stop ≤ d.text.toList.length := by
    intro s h_s
    obtain ⟨c, -, rfl⟩ := List.mem_map.1 h_s
    exact ⟨Splice.start_le_stop_ofChange _ c, Splice.stop_ofChange_le_length _ c⟩
  have h_iff := Splice.applyAll_eq_simultaneous_iff (List.pairwise_map.2 h) h_bounds
  rw [applyChanges, String.toList_ofList]
  exact ⟨h_iff, fun h_order => h_iff.2 (Splice.spareAll_reverse h_order _)⟩

/-- One line of three characters. -/
def shortDocument : Document :=
  .new ⟨0⟩ "plaintext" "abc"

/-- A replacement, and then two insertions at its start. -/
def replacedFirst : List TextChange :=
  [⟨⟨⟨0, 0⟩, ⟨0, 2⟩⟩, "xy"⟩, ⟨⟨⟨0, 0⟩, ⟨0, 0⟩⟩, "1"⟩, ⟨⟨⟨0, 0⟩, ⟨0, 0⟩⟩, "2"⟩]

theorem applyChanges_eq_simultaneous_iff_replacedFirst :
    (replacedFirst.Pairwise fun a b => Splice.NonOverlapping
      (.ofChange shortDocument.text.toList a) (.ofChange shortDocument.text.toList b)) ∧
    (shortDocument.applyChanges replacedFirst).text.toList = ['2', '1', 'x', 'y', 'c'] := by
  have h_apart : replacedFirst.Pairwise fun a b => Splice.NonOverlapping
      (.ofChange shortDocument.text.toList a) (.ofChange shortDocument.text.toList b) := by decide
  obtain ⟨-, h_text⟩ := applyChanges_eq_simultaneous_iff shortDocument replacedFirst h_apart
  exact ⟨h_apart, (h_text (by decide)).trans (by decide)⟩

/-- An insertion, and then a replacement with the same start. -/
def insertedFirst : List TextChange :=
  [⟨⟨⟨0, 0⟩, ⟨0, 0⟩⟩, "X"⟩, ⟨⟨⟨0, 0⟩, ⟨0, 1⟩⟩, "X"⟩]

/-- The replacement removes the inserted `X` and not the old `a`. The result is not `simultaneous`
    for any order of the two changes. -/
theorem applyChanges_ne_simultaneous_insertedFirst :
    (insertedFirst.Pairwise fun a b => Splice.NonOverlapping
      (.ofChange shortDocument.text.toList a) (.ofChange shortDocument.text.toList b)) ∧
    ∀ ss : List Splice, ss.Perm (insertedFirst.map (.ofChange shortDocument.text.toList)) →
      (shortDocument.applyChanges insertedFirst).text.toList ≠
        Splice.simultaneous ss shortDocument.text.toList := by
  have h_text : (shortDocument.applyChanges insertedFirst).text.toList = ['X', 'a', 'b', 'c'] := by
    cbv
  have h_orders : ∀ ss ∈ (insertedFirst.map
      (Splice.ofChange shortDocument.text.toList)).permutations',
      Splice.simultaneous ss shortDocument.text.toList = ['X', 'X', 'b', 'c'] := by decide
  refine ⟨by decide, fun ss h_perm => ?_⟩
  rw [h_text, h_orders ss (List.mem_permutations'.2 h_perm)]
  decide

end Document

end ScopeTokens
