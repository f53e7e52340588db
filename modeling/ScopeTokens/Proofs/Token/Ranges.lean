/-
  ScopeTokens.Proofs.Token.Ranges

  The ranges of a kind. They are `Separated`: not empty, ascending, with a
  character between any two, and they hold exactly the offsets at which the token
  is of the kind. `Separated` ranges are determined by the offsets in them
  (`Separated.eq`), so there are no others like that. One pass from the front that
  lengthens the last range or pushes a new one finds the same
  (`collectRanges_eq`). `hasType` and `lineMetadata` are read off the tokens as
  well.
-/

import ScopeTokens.Proofs.Token.Search

namespace ScopeTokens

namespace TokenLine

/-! ## Ranges -/

/-- `offset` is in one of `ranges`. -/
def InSome (ranges : List (Nat × Nat)) (offset : Nat) : Prop :=
  ∃ r ∈ ranges, r.1 ≤ offset ∧ offset < r.2

/-- The ranges are not empty and ascend, with a character between any two. -/
structure Separated (ranges : List (Nat × Nat)) : Prop where
  nonempty : ∀ r ∈ ranges, r.1 < r.2
  apart : ranges.Pairwise fun r r' => r.2 < r'.1

theorem not_inSome_nil (offset : Nat) : ¬ InSome [] offset := by
  rintro ⟨r, h_r, -⟩
  exact absurd h_r List.not_mem_nil

theorem inSome_cons (r : Nat × Nat) (rs : List (Nat × Nat)) (offset : Nat) :
    InSome (r :: rs) offset ↔ (r.1 ≤ offset ∧ offset < r.2) ∨ InSome rs offset := by
  simp only [InSome, List.mem_cons, exists_eq_or_imp]

theorem inSome_head {r : Nat × Nat} (rs : List (Nat × Nat)) {offset : Nat} (h_le : r.1 ≤ offset)
    (h_lt : offset < r.2) : InSome (r :: rs) offset :=
  ⟨r, List.mem_cons_self, h_le, h_lt⟩

namespace Separated

variable {r r' : Nat × Nat} {rs rs' : List (Nat × Nat)} {offset : Nat}

theorem nil : Separated [] :=
  ⟨fun _ h_r => absurd h_r List.not_mem_nil, .nil⟩

theorem cons_iff : Separated (r :: rs) ↔ r.1 < r.2 ∧ (∀ r' ∈ rs, r.2 < r'.1) ∧ Separated rs := by
  constructor
  · rintro ⟨h_nonempty, h_apart⟩
    obtain ⟨h_r, h_rs⟩ := List.forall_mem_cons.1 h_nonempty
    obtain ⟨h_behind, h_rest⟩ := List.pairwise_cons.1 h_apart
    exact ⟨h_r, h_behind, h_rs, h_rest⟩
  · rintro ⟨h_r, h_behind, h_rs, h_rest⟩
    exact ⟨List.forall_mem_cons.2 ⟨h_r, h_rs⟩, List.pairwise_cons.2 ⟨h_behind, h_rest⟩⟩

/-- The offsets in `rs` are those behind the first range. -/
theorem inSome_tail_iff (h : Separated (r :: rs)) :
    InSome rs offset ↔ InSome (r :: rs) offset ∧ r.2 ≤ offset := by
  obtain ⟨-, h_behind, -⟩ := cons_iff.1 h
  rw [inSome_cons]
  constructor
  · rintro ⟨r', h_r', h_start, h_stop⟩
    have h_lt := h_behind r' h_r'
    exact ⟨.inr ⟨r', h_r', h_start, h_stop⟩, by omega⟩
  · rintro ⟨⟨-, h_lt⟩ | h_in, h_le⟩
    · omega
    · exact h_in

theorem start_le_of_inSome (h : Separated (r :: rs)) (h_in : InSome (r :: rs) offset) :
    r.1 ≤ offset := by
  obtain ⟨h_r, -, -⟩ := cons_iff.1 h
  rcases (inSome_cons r rs offset).1 h_in with ⟨h_le, -⟩ | h_rest
  · exact h_le
  · obtain ⟨-, h_le⟩ := h.inSome_tail_iff.1 h_rest
    omega

/-- The end of the first range is in no range. -/
theorem not_inSome_stop (h : Separated (r :: rs)) : ¬ InSome (r :: rs) r.2 := by
  obtain ⟨-, h_behind, -⟩ := cons_iff.1 h
  rw [inSome_cons]
  rintro (⟨-, h_lt⟩ | ⟨r', h_r', h_le, -⟩)
  · omega
  · have h_lt := h_behind r' h_r'
    omega

/-- If the same offsets are in both lists, the first range of the one is within that of the
    other. -/
theorem head_within (h : Separated (r :: rs)) (h' : Separated (r' :: rs'))
    (h_same : ∀ offset, InSome (r :: rs) offset ↔ InSome (r' :: rs') offset) :
    r'.1 ≤ r.1 ∧ r.2 ≤ r'.2 := by
  obtain ⟨h_r, -, -⟩ := cons_iff.1 h
  obtain ⟨h_r', -, -⟩ := cons_iff.1 h'
  have h_start := h'.start_le_of_inSome ((h_same r.1).1 (inSome_head rs (Nat.le_refl _) h_r))
  have h_start' := h.start_le_of_inSome ((h_same r'.1).2 (inSome_head rs' (Nat.le_refl _) h_r'))
  refine ⟨h_start, Nat.le_of_not_lt ?_⟩
  intro h_short
  -- else the offset at which the other range ends would lie in this one
  exact h'.not_inSome_stop ((h_same r'.2).1 (inSome_head rs (by omega) h_short))

/-- Separated ranges with the same offsets are equal. -/
theorem eq (h : Separated rs) (h' : Separated rs')
    (h_same : ∀ offset, InSome rs offset ↔ InSome rs' offset) : rs = rs' := by
  induction rs generalizing rs' with
  | nil =>
    cases rs' with
    | nil => rfl
    | cons r' rs' =>
      have h_in := (h_same r'.1).2 (inSome_head rs' (Nat.le_refl _) (cons_iff.1 h').1)
      exact absurd h_in (not_inSome_nil _)
  | cons r rs ih =>
    cases rs' with
    | nil =>
      have h_in := (h_same r.1).1 (inSome_head rs (Nat.le_refl _) (cons_iff.1 h).1)
      exact absurd h_in (not_inSome_nil _)
    -- the first ranges lie within each other, and the rest is what lies behind them
    | cons r' rs' =>
      obtain ⟨h_start, h_stop⟩ := h.head_within h' h_same
      obtain ⟨h_start', h_stop'⟩ := h'.head_within h fun offset => (h_same offset).symm
      obtain rfl : r = r' := Prod.ext (by omega) (by omega)
      rw [ih (cons_iff.1 h).2.2 (cons_iff.1 h').2.2]
      intro offset
      rw [h.inSome_tail_iff, h'.inSome_tail_iff, h_same]

end Separated

/-! ## Ranges of tokens -/

theorem nonempty_consRange {start stop : Nat} {rs : List (Nat × Nat)} (h : start < stop)
    (h_rs : ∀ r ∈ rs, r.1 < r.2) : ∀ r ∈ consRange start stop rs, r.1 < r.2 := by
  unfold consRange
  split
  · rename_i start' stop' rs'
    obtain ⟨h_head, h_rest⟩ := List.forall_mem_cons.1 h_rs
    split
    · exact List.forall_mem_cons.2 ⟨by dsimp only at h_head ⊢; omega, h_rest⟩
    · exact List.forall_mem_cons.2 ⟨h, h_rs⟩
  · exact List.forall_mem_cons.2 ⟨h, h_rs⟩

theorem inSome_consRange {start stop : Nat} {rs : List (Nat × Nat)} (h : start < stop)
    (h_rs : ∀ r ∈ rs, r.1 < r.2) (offset : Nat) :
    InSome (consRange start stop rs) offset ↔
      (start ≤ offset ∧ offset < stop) ∨ InSome rs offset := by
  unfold consRange
  split
  · rename_i start' stop' rs'
    obtain ⟨h_head, -⟩ := List.forall_mem_cons.1 h_rs
    split
    · rw [inSome_cons, inSome_cons, ← or_assoc]
      apply or_congr_left
      dsimp only at h_head ⊢
      omega
    · exact inSome_cons ..
  · exact inSome_cons ..

theorem separated_consRange {start stop : Nat} {rs : List (Nat × Nat)} (h : start < stop)
    (h_rs : Separated rs) (h_behind : ∀ r ∈ rs, stop ≤ r.1) :
    Separated (consRange start stop rs) := by
  unfold consRange
  split
  · rename_i start' stop' rs'
    obtain ⟨h_head, h_apart, h_rest⟩ := Separated.cons_iff.1 h_rs
    have h_le := h_behind _ List.mem_cons_self
    dsimp only at h_head h_le
    split
    · exact Separated.cons_iff.2 ⟨by dsimp only; omega, h_apart, h_rest⟩
    · refine Separated.cons_iff.2 ⟨h, List.forall_mem_cons.2 ⟨by dsimp only; omega, ?_⟩, h_rs⟩
      intro r h_r
      have := h_apart r h_r
      dsimp only at this ⊢
      omega
  · exact Separated.cons_iff.2 ⟨h, fun _ h_r => absurd h_r List.not_mem_nil, .nil⟩

variable {t : TokenType} {spans : List Span}

theorem nonempty_rangesOf (h : ∀ s ∈ spans, s.start ≤ s.stop) :
    ∀ r ∈ rangesOf t spans, r.1 < r.2 := by
  fun_induction rangesOf t spans with
  | case1 => exact fun r h_r => absurd h_r List.not_mem_nil
  | case2 s ss _ ih => exact ih (List.forall_mem_cons.1 h).2
  | case3 s ss h_not ih =>
    obtain ⟨h_s, h_ss⟩ := List.forall_mem_cons.1 h
    exact nonempty_consRange (by omega) (ih h_ss)

/-- The offsets in `rangesOf t spans` are those of the spans of kind `t`. -/
theorem inSome_rangesOf_iff (h : ∀ s ∈ spans, s.start ≤ s.stop) (offset : Nat) :
    InSome (rangesOf t spans) offset ↔
      ∃ s ∈ spans, s.metadata.tokenType = t ∧ s.start ≤ offset ∧ offset < s.stop := by
  fun_induction rangesOf t spans with
  | case1 => exact iff_of_false (not_inSome_nil offset) (by simp)
  | case2 s ss h_skip ih =>
    obtain ⟨-, h_ss⟩ := List.forall_mem_cons.1 h
    rw [ih h_ss, List.exists_mem_cons_iff, or_iff_right]
    -- a token that is skipped is empty, or of another kind
    rintro ⟨h_type, h_le, h_lt⟩
    rcases h_skip with h_empty | h_other
    · omega
    · exact h_other h_type
  | case3 s ss h_not ih =>
    obtain ⟨h_s, h_ss⟩ := List.forall_mem_cons.1 h
    have h_type : s.metadata.tokenType = t := by
      by_contra h_other
      exact h_not (.inr h_other)
    rw [inSome_consRange (by omega) (nonempty_rangesOf h_ss), ih h_ss, List.exists_mem_cons_iff]
    exact or_congr_left (and_iff_right h_type).symm

theorem separated_rangesOf (h : ∀ s ∈ spans, s.start ≤ s.stop)
    (h_order : spans.Pairwise fun s s' => s.stop ≤ s'.start) : Separated (rangesOf t spans) := by
  fun_induction rangesOf t spans with
  | case1 => exact .nil
  | case2 s ss _ ih => exact ih (List.forall_mem_cons.1 h).2 (List.pairwise_cons.1 h_order).2
  | case3 s ss h_not ih =>
    obtain ⟨h_s, h_ss⟩ := List.forall_mem_cons.1 h
    obtain ⟨h_behind, h_rest⟩ := List.pairwise_cons.1 h_order
    refine separated_consRange (by omega) (ih h_ss h_rest) ?_
    -- the start of a range is an offset of some token behind this one
    intro r h_r
    have h_in : InSome (rangesOf t ss) r.1 :=
      ⟨r, h_r, Nat.le_refl _, nonempty_rangesOf h_ss r h_r⟩
    obtain ⟨s', h_s', -, h_le, -⟩ := (inSome_rangesOf_iff h_ss r.1).1 h_in
    exact Nat.le_trans (h_behind s' h_s') h_le

/-! ## One pass over the tokens -/

/-- Lengthens the last range if the token starts where it ends, else pushes a new one. -/
def pushRange (ranges : List (Nat × Nat)) (start stop : Nat) : List (Nat × Nat) :=
  match ranges.getLast? with
  | none => ranges ++ [(start, stop)]
  | some last =>
    if last.2 = start then ranges.dropLast ++ [(last.1, stop)] else ranges ++ [(start, stop)]

/-- The ranges of kind `t` in one pass over the tokens. -/
def collectRanges (t : TokenType) (spans : List Span) : List (Nat × Nat) :=
  spans.foldl (fun ranges s =>
    if s.start = s.stop ∨ s.metadata.tokenType ≠ t then ranges
    else pushRange ranges s.start s.stop) []

theorem pushRange_concat (ranges : List (Nat × Nat)) (first last start stop : Nat) :
    pushRange (ranges ++ [(first, last)]) start stop =
      if last = start then ranges ++ [(first, stop)]
      else ranges ++ [(first, last)] ++ [(start, stop)] := by
  rw [pushRange, List.getLast?_concat]
  dsimp only
  rw [List.dropLast_concat]

/-- `consRange` twice, if the ranges touch or not. -/
theorem consRange_consRange (first last start stop : Nat) (rs : List (Nat × Nat)) :
    consRange first last (consRange start stop rs) =
      if last = start then consRange first stop rs
      else (first, last) :: consRange start stop rs := by
  cases rs with
  | nil => rfl
  | cons r rs =>
    obtain ⟨start', stop'⟩ := r
    by_cases h_next : stop = start'
    · simp only [consRange, if_pos h_next]
    · simp only [consRange, if_neg h_next]

/-- Pushing behind a last range is `consRange` in front of the ranges of the rest. -/
theorem foldl_pushRange (t : TokenType) (ranges : List (Nat × Nat)) (first last : Nat)
    (spans : List Span) :
    spans.foldl (fun ranges s =>
      if s.start = s.stop ∨ s.metadata.tokenType ≠ t then ranges
      else pushRange ranges s.start s.stop) (ranges ++ [(first, last)]) =
      ranges ++ consRange first last (rangesOf t spans) := by
  -- the last range stands by itself, since it may still grow
  induction spans generalizing ranges first last with
  | nil => rfl
  | cons s ss ih =>
    rw [List.foldl_cons, rangesOf]
    by_cases h_skip : s.start = s.stop ∨ s.metadata.tokenType ≠ t
    · rw [if_pos h_skip, if_pos h_skip, ih]
    · rw [if_neg h_skip, if_neg h_skip, pushRange_concat, consRange_consRange]
      by_cases h_touch : last = s.start
      · rw [if_pos h_touch, if_pos h_touch, ih]
      · rw [if_neg h_touch, if_neg h_touch, ih, List.append_assoc, List.singleton_append]

theorem collectRanges_eq (t : TokenType) (spans : List Span) :
    collectRanges t spans = rangesOf t spans := by
  induction spans with
  | nil => rfl
  | cons s ss ih =>
    rw [collectRanges, List.foldl_cons, rangesOf]
    by_cases h_skip : s.start = s.stop ∨ s.metadata.tokenType ≠ t
    · rw [if_pos h_skip, if_pos h_skip]
      exact ih
    · rw [if_neg h_skip, if_neg h_skip]
      exact foldl_pushRange t [] s.start s.stop ss

/-! ## Tokens of a line -/

theorem getElem?_spansFrom (start : Nat) (marks : List Mark) (i : Nat) :
    (spansFrom start marks)[i]? =
      marks[i]?.map fun k => ⟨stopBefore start marks i, k.stop, k.metadata⟩ := by
  induction marks generalizing start i with
  | nil => rfl
  | cons k ks ih =>
    rw [spansFrom]
    cases i with
    | zero => rfl
    | succ i => rw [List.getElem?_cons_succ, List.getElem?_cons_succ, ih, stopBefore_cons]

variable {a : TokenLine}

/-- `startOffset` in terms of marks. -/
theorem startOffset_eq_stopBefore {i : Nat} (h : i < a.count) :
    a.startOffset i = stopBefore 0 a.marks.toList i := by
  cases i with
  | zero => rfl
  | succ i =>
    rw [startOffset, stopBefore, Array.getElem?_toList, getElem?_marks (Nat.lt_of_succ_lt h)]
    rfl

/-- `spans` by index. -/
theorem spans_eq_map (a : TokenLine) :
    a.spans = (List.range a.count).map fun i =>
      ⟨a.startOffset i, a.endOffset i, a.metadata i⟩ := by
  apply List.ext_getElem?
  intro i
  rw [spans, getElem?_spansFrom, List.getElem?_map, Array.getElem?_toList]
  by_cases h : i < a.count
  · rw [List.getElem?_range h, getElem?_marks h, Option.map_some, Option.map_some,
      startOffset_eq_stopBefore h]
  · rw [Array.getElem?_eq_none (Nat.le_of_not_lt h),
      List.getElem?_eq_none (by rw [List.length_range]; omega)]
    rfl

theorem mem_spans_iff {s : Span} :
    s ∈ a.spans ↔ ∃ i < a.count, s = ⟨a.startOffset i, a.endOffset i, a.metadata i⟩ := by
  rw [spans_eq_map, List.mem_map]
  simp only [List.mem_range, eq_comm]

/-- What some mark has as metadata, some token has. -/
theorem exists_mem_marks_iff (p : TokenMetadata → Prop) :
    (∃ k ∈ a.marks.toList, p k.metadata) ↔ ∃ i < a.count, p (a.metadata i) := by
  constructor
  · rintro ⟨k, h_k, h_p⟩
    obtain ⟨i, h_i⟩ := List.getElem?_of_mem h_k
    rw [Array.getElem?_toList] at h_i
    refine ⟨i, (Array.getElem?_eq_some_iff.1 h_i).1, ?_⟩
    rwa [metadata_of_getElem? h_i]
  · rintro ⟨i, h_i, h_p⟩
    exact ⟨_, Array.mem_toList_iff.2 (Array.mem_of_getElem? (getElem?_marks h_i)), h_p⟩

theorem contains_foldl_insert (s : TypeSet) (marks : List Mark) (t : TokenType) :
    (marks.foldl (fun s k => s.insert k.metadata.tokenType) s).contains t = true ↔
      s.contains t = true ∨ ∃ k ∈ marks, k.metadata.tokenType = t := by
  induction marks generalizing s with
  | nil => simp
  | cons k ks ih =>
    rw [List.foldl_cons, ih, TypeSet.contains_insert, Bool.or_eq_true, decide_eq_true_eq,
      List.exists_mem_cons_iff, or_assoc]

theorem hasType_assemble (marks : List Mark) (text : String) (t : TokenType) :
    (assemble marks text).hasType t = true ↔ ∃ k ∈ marks, k.metadata.tokenType = t := by
  rw [hasType, assemble, contains_foldl_insert, TypeSet.contains_empty]
  simp

theorem getLsbD_foldl_union (m : TokenMetadata) (marks : List Mark) (b : Nat) :
    (marks.foldl (fun m k => m.union k.metadata) m).bits.toBitVec.getLsbD b = true ↔
      m.bits.toBitVec.getLsbD b = true ∨
        ∃ k ∈ marks, k.metadata.bits.toBitVec.getLsbD b = true := by
  induction marks generalizing m with
  | nil => simp
  | cons k ks ih =>
    rw [List.foldl_cons, ih, TokenMetadata.union, UInt32.toBitVec_or, BitVec.getLsbD_or,
      Bool.or_eq_true, List.exists_mem_cons_iff, or_assoc]

theorem getLsbD_lineMetadata_assemble (marks : List Mark) (text : String) (b : Nat) :
    (assemble marks text).lineMetadata.bits.toBitVec.getLsbD b = true ↔
      ∃ k ∈ marks, k.metadata.bits.toBitVec.getLsbD b = true := by
  rw [assemble, getLsbD_foldl_union]
  simp

namespace Partitions

variable {text : String}

theorem start_le_of_mem_spans (h : a.Partitions text) : ∀ s ∈ a.spans, s.start ≤ s.stop := by
  intro s h_s
  obtain ⟨i, h_i, rfl⟩ := mem_spans_iff.1 h_s
  exact h.start_le h_i

theorem pairwise_spans (h : a.Partitions text) :
    a.spans.Pairwise fun s s' => s.stop ≤ s'.start := by
  rw [spans_eq_map, List.pairwise_map]
  refine List.Pairwise.imp_of_mem ?_ List.pairwise_lt_range
  intro i j _ h_j h_lt
  exact h.endOffset_le_startOffset h_lt (List.mem_range.1 h_j)

/-- A token of kind `t` holds `offset` exactly if the token found there is of kind `t`. -/
theorem exists_mem_spans_iff (h : a.Partitions text) (offset : Nat) :
    (∃ s ∈ a.spans, s.metadata.tokenType = t ∧ s.start ≤ offset ∧ offset < s.stop) ↔
      offset < text.length ∧ a.tokenType (a.indexOf offset) = t := by
  constructor
  · rintro ⟨s, h_s, h_type, h_holds⟩
    obtain ⟨i, h_i, rfl⟩ := mem_spans_iff.1 h_s
    have h_stop := h.endOffset_le_length h_i
    have h_offset : offset < text.length := Nat.lt_of_lt_of_le h_holds.2 h_stop
    refine ⟨h_offset, ?_⟩
    rw [← (h.holds_iff_eq_indexOf h_offset i).1 h_holds]
    exact h_type
  · rintro ⟨h_offset, h_type⟩
    obtain ⟨h_found, h_holds⟩ := h.holds_indexOf h_offset
    exact ⟨_, mem_spans_iff.2 ⟨_, h_found, rfl⟩, h_type, h_holds⟩

end Partitions

/-! ## Ranges of a line -/

/-- `ranges` are separated, and hold the offsets of the line at which the token is of kind `t`. -/
structure IsRangesOf (a : TokenLine) (t : TokenType) (ranges : List (Nat × Nat)) : Prop where
  separated : Separated ranges
  inSome_iff : ∀ offset, InSome ranges offset ↔
    offset < a.length ∧ a.tokenType (a.indexOf offset) = t

theorem IsRangesOf.unique {ranges ranges' : List (Nat × Nat)} (h : a.IsRangesOf t ranges)
    (h' : a.IsRangesOf t ranges') : ranges = ranges' := by
  apply h.separated.eq h'.separated
  intro offset
  rw [h.inSome_iff, h'.inSome_iff]

namespace Constructible

theorem isRangesOf_findRangesOf (h : a.Constructible) (t : TokenType) :
    a.IsRangesOf t (a.findRangesOf t) := by
  have h_partitions := h.partitions
  have h_le := h_partitions.start_le_of_mem_spans
  refine ⟨separated_rangesOf h_le h_partitions.pairwise_spans, ?_⟩
  intro offset
  rw [findRangesOf, inSome_rangesOf_iff h_le, h_partitions.exists_mem_spans_iff,
    h_partitions.length_eq]

theorem hasType_iff (h : a.Constructible) (t : TokenType) :
    a.hasType t = true ↔ ∃ i < a.count, a.tokenType i = t := by
  have h_marks := hasType_assemble a.marks.toList a.text t
  rw [h.assemble_toList] at h_marks
  rw [h_marks]
  exact exists_mem_marks_iff fun m => m.tokenType = t

theorem getLsbD_lineMetadata (h : a.Constructible) (b : Nat) :
    a.lineMetadata.bits.toBitVec.getLsbD b = true ↔
      ∃ i < a.count, (a.metadata i).bits.toBitVec.getLsbD b = true := by
  have h_marks := getLsbD_lineMetadata_assemble a.marks.toList a.text b
  rw [h.assemble_toList] at h_marks
  rw [h_marks]
  exact exists_mem_marks_iff fun m => m.bits.toBitVec.getLsbD b = true

/-- On a line that is not empty, a kind occurs exactly if it has a range. -/
theorem exists_tokenType_iff (h : a.Constructible) (h_pos : 0 < a.length) (t : TokenType) :
    (∃ i < a.count, a.tokenType i = t) ↔ a.findRangesOf t ≠ [] := by
  have h_partitions := h.partitions
  have h_length : a.length = a.text.length := h_partitions.length_eq
  have h_ranges := h.isRangesOf_findRangesOf t
  constructor
  · -- the token holds its own start, so some range contains that offset
    rintro ⟨i, h_i, h_type⟩ h_nil
    have h_start : a.startOffset i < a.endOffset i := by
      rcases h_partitions.start_lt i h_i with h_lt | ⟨h_empty, -⟩
      · exact h_lt
      · omega
    have h_stop := h_partitions.endOffset_le_length h_i
    have h_in := (h_ranges.inSome_iff (a.startOffset i)).2
      ⟨by omega, by rwa [h_partitions.indexOf_startOffset h_i]⟩
    rw [h_nil] at h_in
    exact not_inSome_nil _ h_in
  · -- the token at the start of a range is of the type
    intro h_ne
    obtain ⟨r, h_r⟩ := List.exists_mem_of_ne_nil _ h_ne
    have h_in : InSome (a.findRangesOf t) r.1 :=
      ⟨r, h_r, Nat.le_refl _, h_ranges.separated.nonempty r h_r⟩
    exact ⟨_, h_partitions.indexOf_lt r.1, ((h_ranges.inSome_iff r.1).1 h_in).2⟩

end Constructible

/-- `findRangesOf t` are the only ranges with `IsRangesOf`, and one pass over the tokens collects
    them. `hasType t` says whether a token is of kind `t`, which on a line that is not empty is so
    if `t` has a range. A bit of `lineMetadata` is set if it is set in the metadata of some
    token. -/
theorem isRangesOf_iff_and_hasType_iff {a : TokenLine} (h : a.Constructible) :
    (∀ t : TokenType,
      (∀ ranges, a.IsRangesOf t ranges ↔ ranges = a.findRangesOf t) ∧
      collectRanges t a.spans = a.findRangesOf t ∧
      (a.hasType t = true ↔ ∃ i < a.count, a.tokenType i = t) ∧
      (0 < a.length → (a.hasType t = true ↔ a.findRangesOf t ≠ []))) ∧
    ∀ b, a.lineMetadata.bits.toBitVec.getLsbD b = true ↔
      ∃ i < a.count, (a.metadata i).bits.toBitVec.getLsbD b = true := by
  refine ⟨fun t => ⟨?_, collectRanges_eq t a.spans, h.hasType_iff t, ?_⟩,
    h.getLsbD_lineMetadata⟩
  · have h_ranges := h.isRangesOf_findRangesOf t
    intro ranges
    constructor
    · intro h_other
      exact h_other.unique h_ranges
    · rintro rfl
      exact h_ranges
  · intro h_pos
    rw [h.hasType_iff, h.exists_tokenType_iff h_pos]

/-- Two comments touch, a third is apart from them. The type bits of comment and string together are
    those of `regex`, which is not present. -/
def commentedLine : TokenLine :=
  assemble [⟨1, ⟨257⟩⟩, ⟨3, ⟨258⟩⟩, ⟨4, ⟨513⟩⟩, ⟨5, ⟨257⟩⟩] "añ€de"

theorem isRangesOf_iff_and_hasType_iff_commentedLine :
    commentedLine.Constructible ∧
    commentedLine.IsRangesOf .comment [(0, 3), (4, 5)] ∧
    0 < commentedLine.length ∧
    commentedLine.hasType .comment = true ∧ commentedLine.hasType .regex = false ∧
    commentedLine.lineMetadata.tokenType = .regex ∧
    ∃ i < commentedLine.count, (commentedLine.metadata i).bits.toBitVec.getLsbD 9 = true := by
  have h_read : ofEnds [1, 257, 3, 258, 4, 513, 5, 257] "añ€de" = .ok commentedLine := by decide
  have h_line : commentedLine.Constructible := .ends h_read
  have h_pos : 0 < commentedLine.length := by decide
  obtain ⟨h_kinds, h_bits⟩ := isRangesOf_iff_and_hasType_iff h_line
  obtain ⟨h_comments, -, -, h_comment⟩ := h_kinds .comment
  obtain ⟨-, -, -, h_regex⟩ := h_kinds .regex
  refine ⟨h_line, (h_comments _).2 (by decide), h_pos, (h_comment h_pos).2 (by decide), ?_,
    by decide, (h_bits 9).1 (by decide)⟩
  rw [Bool.eq_false_iff, Ne, h_regex h_pos]
  decide

end TokenLine

end ScopeTokens
