/-
  ScopeTokens.Proofs.StableSort

  Stable sorting by a total and transitive relation `R`. The result of `mergeSort`
  ascends in `R` (`pairwise_mergeSort_decide`). Elements with `R a b` and `R b a`
  are peers, and sorting keeps peers in the order in which they were
  (`filter_mergeSort`). A list that ascends is determined by the peers of each
  element (`eq_of_peers_eq`), so no other sort can differ.
-/

import Mathlib.Data.List.Pairwise

namespace ScopeTokens

variable {α : Type} {R : α → α → Prop} [DecidableRel R]

theorem pairwise_mergeSort_decide (h_trans : ∀ a b c, R a b → R b c → R a c)
    (h_total : ∀ a b, R a b ∨ R b a) (l : List α) :
    (l.mergeSort fun a b => R a b).Pairwise R := by
  have h_sorted : (l.mergeSort fun a b => R a b).Pairwise fun a b => decide (R a b) = true := by
    apply List.pairwise_mergeSort
    · simpa only [decide_eq_true_eq] using h_trans
    · simpa only [Bool.or_eq_true, decide_eq_true_eq] using h_total
  simpa only [decide_eq_true_eq] using h_sorted

theorem filter_mergeSort (h_trans : ∀ a b c, R a b → R b c → R a c)
    (h_total : ∀ a b, R a b ∨ R b a) {p : α → Bool}
    (h : ∀ a b, p a = true → p b = true → R a b) (l : List α) :
    (l.mergeSort fun a b => R a b).filter p = l.filter p := by
  have h_sorted : (l.filter p).Pairwise fun a b => decide (R a b) = true := by
    apply List.pairwise_of_forall_mem_list
    intro a h_a b h_b
    exact decide_eq_true (h a b (List.mem_filter.1 h_a).2 (List.mem_filter.1 h_b).2)
  have h_sublist : (l.filter p).Sublist (l.mergeSort fun a b => R a b) := by
    apply List.sublist_mergeSort _ _ h_sorted List.filter_sublist
    · simpa only [decide_eq_true_eq] using h_trans
    · simpa only [Bool.or_eq_true, decide_eq_true_eq] using h_total
  have h_filter := h_sublist.filter p
  rw [List.filter_filter, funext fun a => Bool.and_self (p a)] at h_filter
  exact (h_filter.eq_of_length ((List.mergeSort_perm l _).filter p).length_eq.symm).symm

/-- If all elements with `p` are peers, sorting does not change which of them comes first. -/
theorem find?_mergeSort (h_trans : ∀ a b c, R a b → R b c → R a c)
    (h_total : ∀ a b, R a b ∨ R b a) {p : α → Bool}
    (h : ∀ a b, p a = true → p b = true → R a b) (l : List α) :
    (l.mergeSort fun a b => R a b).find? p = l.find? p := by
  rw [← List.head?_filter, ← List.head?_filter, filter_mergeSort h_trans h_total h]

/-- The elements of `l` that are peers of `a`. -/
def peers (R : α → α → Prop) [DecidableRel R] (a : α) (l : List α) : List α :=
  l.filter fun b => R a b ∧ R b a

theorem peers_append (a : α) (l₁ l₂ : List α) :
    peers R a (l₁ ++ l₂) = peers R a l₁ ++ peers R a l₂ :=
  List.filter_append ..

theorem peers_eq_nil_iff {a : α} {l : List α} :
    peers R a l = [] ↔ ∀ b ∈ l, ¬ (R a b ∧ R b a) := by
  simp only [peers, List.filter_eq_nil_iff, decide_eq_true_eq]

theorem mem_peers_self (h_refl : ∀ a, R a a) {a : α} {l : List α} : a ∈ peers R a l ↔ a ∈ l := by
  simp [peers, h_refl]

/-- Two ascending lists with the same `peers` of every `a` are equal. -/
theorem eq_of_peers_eq (h_refl : ∀ a, R a a) {l₁ l₂ : List α} (h₁ : l₁.Pairwise R)
    (h₂ : l₂.Pairwise R) (h : ∀ a, peers R a l₁ = peers R a l₂) : l₁ = l₂ := by
  have h_mem (a : α) : a ∈ l₁ ↔ a ∈ l₂ := by
    rw [← mem_peers_self h_refl, h a, mem_peers_self h_refl]
  induction l₁ generalizing l₂ with
  | nil => exact (List.eq_nil_iff_forall_not_mem.2 fun a h_a => nomatch (h_mem a).2 h_a).symm
  | cons a l₁ ih =>
    cases l₂ with
    | nil => exact nomatch (h_mem a).1 List.mem_cons_self
    | cons b l₂ =>
      obtain ⟨h_a, h_l₁⟩ := List.pairwise_cons.1 h₁
      obtain ⟨h_b, h_l₂⟩ := List.pairwise_cons.1 h₂
      -- each head comes before the other one, so they are of one kind
      have h_ab : R a b := by
        rcases List.mem_cons.1 ((h_mem b).2 List.mem_cons_self) with rfl | h_mem_b
        · exact h_refl b
        · exact h_a b h_mem_b
      have h_ba : R b a := by
        rcases List.mem_cons.1 ((h_mem a).1 List.mem_cons_self) with rfl | h_mem_a
        · exact h_refl a
        · exact h_b a h_mem_a
      have h_heads := h a
      simp only [peers, List.filter_cons, h_refl, h_ab, h_ba, and_self, decide_true, if_true,
        List.cons.injEq] at h_heads
      obtain ⟨rfl, -⟩ := h_heads
      have h_tails (c : α) : peers R c l₁ = peers R c l₂ := by
        have h_c := h c
        simp only [peers, List.filter_cons] at h_c ⊢
        split at h_c
        · exact List.tail_eq_of_cons_eq h_c
        · exact h_c
      rw [ih h_l₁ h_l₂ h_tails fun c => by
        rw [← mem_peers_self h_refl, h_tails c, mem_peers_self h_refl]]

theorem peers_mergeSort (h_trans : ∀ a b c, R a b → R b c → R a c)
    (h_total : ∀ a b, R a b ∨ R b a) (a : α) (l : List α) :
    peers R a (l.mergeSort fun a b => R a b) = peers R a l := by
  refine filter_mergeSort h_trans h_total (fun b c h_b h_c => ?_) l
  rw [decide_eq_true_eq] at h_b h_c
  exact h_trans b a c h_b.2 h_c.1

end ScopeTokens
