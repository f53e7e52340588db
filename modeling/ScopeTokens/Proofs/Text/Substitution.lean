/-
  ScopeTokens.Proofs.Text.Substitution

  A batch of splices as one substitution. For splices in order (`Ordered`),
  `substitute` puts the kept stretches and the new texts together from front to
  back. `applyAll`, which carries the splices out one by one from the back, comes
  to the same in whatever order they were delivered (`applyAll_eq_substitute`). A
  batch of changes is `WellPlaced` if its changes name existing lines and resolve
  to `Apart` splices; sorted by position, these are in order
  (`WellPlaced.ordered`).
-/

import Mathlib.Data.List.Pairwise
import ScopeTokens.Proofs.StableSort
import ScopeTokens.Proofs.Text.Resolution
import ScopeTokens.Text.Splice

namespace ScopeTokens

namespace Splice

/-- `a` and `b` start at different offsets and do not overlap. -/
def Apart (a b : Splice) : Prop :=
  a.start ≠ b.start ∧ (a.stop ≤ b.start ∨ b.stop ≤ a.start)

theorem Apart.symm {a b : Splice} (h : Apart a b) : Apart b a :=
  ⟨h.1.symm, h.2.symm⟩

instance (a b : Splice) : Decidable (Apart a b) :=
  inferInstanceAs (Decidable (_ ∧ _))

/-- The splices follow one another between `done` and `length`, without overlap. -/
def Ordered (length : Nat) (done : Nat) : List Splice → Prop
  | [] => done ≤ length
  | s :: ss => done ≤ s.start ∧ s.start ≤ s.stop ∧ Ordered length s.stop ss

/-- `cs` from offset `done` on, with the splices carried out from front to back. -/
def substitute (cs : List Char) (done : Nat) : List Splice → List Char
  | [] => cs.drop done
  | s :: ss => (cs.drop done).take (s.start - done) ++ s.text ++ substitute cs s.stop ss

theorem substitute_nil (cs : List Char) (done : Nat) : substitute cs done [] = cs.drop done := rfl

theorem substitute_cons (cs : List Char) (done : Nat) (s : Splice) (ss : List Splice) :
    substitute cs done (s :: ss) =
      (cs.drop done).take (s.start - done) ++ s.text ++ substitute cs s.stop ss := rfl

theorem Ordered.le_length {length done : Nat} {ss : List Splice} (h : Ordered length done ss) :
    done ≤ length := by
  induction ss generalizing done with
  | nil => exact h
  | cons s ss ih =>
    obtain ⟨h_start, h_stop, h_rest⟩ := h
    have := ih h_rest
    omega

theorem ordered_of_pairwise {length done : Nat} {ss : List Splice} (h_done : done ≤ length)
    (h_bounds : ∀ s ∈ ss, done ≤ s.start ∧ s.start ≤ s.stop ∧ s.stop ≤ length)
    (h : ss.Pairwise fun a b => a.stop ≤ b.start) : Ordered length done ss := by
  induction ss generalizing done with
  | nil => exact h_done
  | cons s ss ih =>
    obtain ⟨h_start, h_stop, h_length⟩ := h_bounds s List.mem_cons_self
    rw [List.pairwise_cons] at h
    refine ⟨h_start, h_stop, ih h_length ?_ h.2⟩
    intro s' h_mem
    obtain ⟨-, h_stop', h_length'⟩ := h_bounds s' (List.mem_cons_of_mem s h_mem)
    exact ⟨h.1 s' h_mem, h_stop', h_length'⟩

/-! ## Front to back and back to front -/

/-- Invariant of carrying splices out from the back: the text in front of `done` stays, and the rest
    is `substitute`. -/
theorem foldr_apply {cs : List Char} {done : Nat} {ss : List Splice}
    (h : Ordered cs.length done ss) :
    ss.foldr apply cs = cs.take done ++ substitute cs done ss := by
  induction ss generalizing done with
  | nil => exact (List.take_append_drop done cs).symm
  | cons s ss ih =>
    obtain ⟨h_start, h_stop, h_rest⟩ := h
    have h_length : (cs.take s.stop).length = s.stop :=
      List.length_take_of_le h_rest.le_length
    -- the later splices are done by now, and the text in front of them is as it was
    have h_front : (cs.take s.stop ++ substitute cs s.stop ss).take s.start = cs.take s.start := by
      rw [List.take_append_of_le_length (by omega), List.take_take, Nat.min_eq_left h_stop]
    have h_gap : cs.take s.start = cs.take done ++ (cs.drop done).take (s.start - done) := by
      rw [← List.take_add, Nat.add_sub_cancel' h_start]
    rw [List.foldr_cons, ih h_rest, apply, h_front, List.drop_left' h_length, h_gap,
      substitute_cons]
    simp only [List.append_assoc]

theorem pairwise_backToFront (ss : List Splice) :
    (backToFront ss).Pairwise fun a b => b.start ≤ a.start :=
  pairwise_mergeSort_decide (R := fun a b : Splice => b.start ≤ a.start)
    (fun _ _ _ h_ab h_bc => Nat.le_trans h_bc h_ab) (fun a b => Nat.le_total b.start a.start) ss

/-- `backToFront` reverses splices with ascending starts, whatever order `ts` has them in. -/
theorem backToFront_eq_reverse {ss ts : List Splice} (h_perm : ts.Perm ss)
    (h : ss.Pairwise fun a b => a.start < b.start) : backToFront ts = ss.reverse := by
  -- no two start alike, so the order by start leaves no choice
  have h_inj : ∀ a ∈ ss, ∀ b ∈ ss, a.start = b.start → a = b := by
    intro a h_a b h_b h_eq
    have : Std.Symm fun a b : Splice => a.start ≠ b.start := ⟨fun _ _ h => h.symm⟩
    have h_apart : ss.Pairwise fun a b => a.start ≠ b.start := h.imp fun h_lt => by omega
    exact Decidable.by_contra fun h_ne => h_apart.forall h_a h_b h_ne h_eq
  have h_antisymm : ∀ a b, a ∈ backToFront ts → b ∈ ss.reverse → b.start ≤ a.start →
      a.start ≤ b.start → a = b := by
    intro a b h_a h_b h_ba h_ab
    have h_a' : a ∈ ss := h_perm.subset ((backToFront_perm ts).subset h_a)
    exact h_inj a h_a' b (List.mem_reverse.1 h_b) (by omega)
  -- both lists descend by start
  have h_reverse : ss.reverse.Pairwise fun a b => b.start ≤ a.start := by
    rw [List.pairwise_reverse]
    exact h.imp fun h_lt => by omega
  exact List.Perm.eq_of_pairwise h_antisymm (pairwise_backToFront ts) h_reverse
    ((backToFront_perm ts).trans (h_perm.trans (List.reverse_perm ss).symm))

/-- `applyAll` of ordered splices is `substitute`, in any order of delivery. -/
theorem applyAll_eq_substitute {cs : List Char} {ss ts : List Splice} (h_perm : ts.Perm ss)
    (h_start : ss.Pairwise fun a b => a.start < b.start) (h : Ordered cs.length 0 ss) :
    applyAll ts cs = substitute cs 0 ss := by
  have h_fold := foldr_apply h
  rw [List.take_zero, List.nil_append] at h_fold
  rw [applyAll, backToFront_eq_reverse h_perm h_start, List.foldl_reverse, ← h_fold]

/-! ## Splices of changes -/

theorem start_ofChange (cs : List Char) (c : TextChange) :
    (ofChange cs c).start = charIndex cs c.range.normalize.start := rfl

theorem stop_ofChange (cs : List Char) (c : TextChange) :
    (ofChange cs c).stop = charIndex cs c.range.normalize.stop :=
  Nat.max_eq_left (charIndex_mono cs (TextRange.start_le_stop_normalize c.range))

theorem start_ofChange_of_le (cs : List Char) {c : TextChange} (h : c.range.start ≤ c.range.stop) :
    (ofChange cs c).start = charIndex cs c.range.start := by
  rw [start_ofChange, TextRange.normalize_of_le h]

theorem stop_ofChange_of_le (cs : List Char) {c : TextChange} (h : c.range.start ≤ c.range.stop) :
    (ofChange cs c).stop = charIndex cs c.range.stop := by
  rw [stop_ofChange, TextRange.normalize_of_le h]

theorem ofChange_normalize (cs : List Char) (c : TextChange) :
    ofChange cs c.normalize = ofChange cs c := by
  simp only [ofChange, TextChange.normalize, TextRange.normalize_normalize]

theorem stop_ofChange_le_length (cs : List Char) (c : TextChange) :
    (ofChange cs c).stop ≤ cs.length := by
  rw [stop_ofChange]
  exact charIndex_le_length cs _

end Splice

/-- `normalize` keeps the later line as the line of `stop`. -/
theorem TextRange.line_le_stop_normalize (r : TextRange) :
    r.start.line ≤ r.normalize.stop.line ∧ r.stop.line ≤ r.normalize.stop.line := by
  unfold normalize between
  split
  · rename_i h
    rw [Position.lt_iff] at h
    dsimp only
    omega
  · rename_i h
    rw [Position.not_lt, Position.le_iff] at h
    dsimp only
    omega

/-- The changes of `sortByStart changes` have their ends in order. -/
theorem TextChange.start_le_stop_of_mem_sortByStart {changes : List TextChange} {c : TextChange}
    (h : c ∈ sortByStart changes) : c.range.start ≤ c.range.stop := by
  obtain ⟨c', -, rfl⟩ := List.mem_map.1 ((sortByStart_perm changes).subset h)
  exact TextRange.start_le_stop_normalize c'.range

/-- Both ends of `c` are on lines of `cs`. -/
def TextChange.OnLines (cs : List Char) (c : TextChange) : Prop :=
  c.range.start.line < (Line.split cs).length ∧ c.range.stop.line < (Line.split cs).length

instance (cs : List Char) (c : TextChange) : Decidable (c.OnLines cs) :=
  inferInstanceAs (Decidable (_ ∧ _))

/-- The changes name lines of `cs`, start at different offsets and do not overlap. -/
structure WellPlaced (cs : List Char) (changes : List TextChange) : Prop where
  onLines : ∀ c ∈ changes, c.OnLines cs
  apart : changes.Pairwise fun a b => Splice.Apart (.ofChange cs a) (.ofChange cs b)

namespace WellPlaced

variable {cs : List Char} {changes : List TextChange}

/-- A change of the sorted batch has its ends in order, and is on lines of `cs`. -/
theorem mem_sortByStart (h : WellPlaced cs changes) {c : TextChange}
    (h_c : c ∈ TextChange.sortByStart changes) :
    c.range.start ≤ c.range.stop ∧ c.OnLines cs := by
  refine ⟨TextChange.start_le_stop_of_mem_sortByStart h_c, ?_⟩
  obtain ⟨c', h_c', rfl⟩ := List.mem_map.1 ((TextChange.sortByStart_perm changes).subset h_c)
  have h_lines := h.onLines c' h_c'
  unfold TextChange.OnLines TextChange.normalize TextRange.normalize TextRange.between at *
  split
  · exact h_lines.symm
  · exact h_lines

theorem map_ofChange_perm (cs : List Char) (changes : List TextChange) :
    (changes.map (Splice.ofChange cs)).Perm
      ((TextChange.sortByStart changes).map (Splice.ofChange cs)) := by
  have h_perm := (TextChange.sortByStart_perm changes).map (Splice.ofChange cs)
  rw [List.map_map] at h_perm
  have h_fun : Splice.ofChange cs ∘ TextChange.normalize = Splice.ofChange cs :=
    funext fun c => Splice.ofChange_normalize cs c
  rw [h_fun] at h_perm
  exact h_perm.symm

/-- The splices of the sorted batch ascend without overlap. -/
theorem pairwise_ofChange (h : WellPlaced cs changes) :
    ((TextChange.sortByStart changes).map (Splice.ofChange cs)).Pairwise fun a b =>
      a.start < b.start ∧ a.stop ≤ b.start := by
  -- `Apart` is symmetric, so it survives the sort
  have h_apart : ((TextChange.sortByStart changes).map (Splice.ofChange cs)).Pairwise
      Splice.Apart :=
    (List.pairwise_map.2 h.apart).perm (map_ofChange_perm cs changes) Splice.Apart.symm
  rw [List.pairwise_map] at h_apart ⊢
  refine (h_apart.and (TextChange.pairwise_sortByStart changes)).imp_of_mem ?_
  rintro a b h_a h_b ⟨⟨h_ne, h_disjoint⟩, h_le⟩
  have h_a_start := Splice.start_ofChange_of_le cs (h.mem_sortByStart h_a).1
  have h_b_start := Splice.start_ofChange_of_le cs (h.mem_sortByStart h_b).1
  have h_start := charIndex_mono cs h_le
  have h_b_stop := Splice.start_le_stop_ofChange cs b
  omega

theorem ordered (h : WellPlaced cs changes) :
    Splice.Ordered cs.length 0 ((TextChange.sortByStart changes).map (Splice.ofChange cs)) := by
  refine Splice.ordered_of_pairwise (Nat.zero_le _) ?_ (h.pairwise_ofChange.imp And.right)
  intro s h_s
  obtain ⟨c, -, rfl⟩ := List.mem_map.1 h_s
  exact ⟨Nat.zero_le _, Splice.start_le_stop_ofChange cs c, Splice.stop_ofChange_le_length cs c⟩

/-- `applyAll` of a well placed batch is `substitute` of the sorted one. -/
theorem applyAll_eq (h : WellPlaced cs changes) :
    Splice.applyAll (changes.map (Splice.ofChange cs)) cs =
      Splice.substitute cs 0 ((TextChange.sortByStart changes).map (Splice.ofChange cs)) :=
  Splice.applyAll_eq_substitute (map_ofChange_perm cs changes)
    (h.pairwise_ofChange.imp And.left) h.ordered

end WellPlaced

end ScopeTokens
