/-
  ScopeTokens.Proofs.Cache.Normalized

  Which raw token gives a character its scopes. A raw token is `Proper` if it is
  not empty, and `Leads` if it comes first of the proper ones with its start. A
  character ought to have the scopes of the leading token that starts last at or
  before it, or of the first one if none does (`Governs`), and a token ought to
  end where the next leading one starts (`Normalized`). `build` does this with one
  exception (`exists_build_normalized_iff`): the first token is stored with start
  `0`, and what follows is compared with that. So if its own start is another
  place within the line, a second token with that start is not seen as a
  repetition.
-/

import ScopeTokens.Proofs.Cache.Kept
import ScopeTokens.Proofs.StableSort

namespace ScopeTokens

namespace RawToken

/-- `t` is not empty. -/
def Proper (t : RawToken) : Prop :=
  t.start < t.stop

instance (t : RawToken) : Decidable t.Proper :=
  inferInstanceAs (Decidable (_ < _))

/-- `t` is proper and starts at `s`. -/
def startsAt (s : Nat) (t : RawToken) : Bool :=
  decide t.Proper && t.start == s

theorem startsAt_iff {s : Nat} {t : RawToken} : t.startsAt s = true ↔ t.Proper ∧ t.start = s := by
  rw [startsAt, Bool.and_eq_true, decide_eq_true_eq, beq_iff_eq]

end RawToken

namespace LineLexer

/-! ## What a line ought to come to -/

/-- `t` is the first of the proper tokens with its start, in the order of `raw`. -/
def Leads (raw : List RawToken) (t : RawToken) : Prop :=
  raw.find? (RawToken.startsAt t.start) = some t

/-- `t` gives the character at `offset` its scopes: it leads, and starts last of those that start at
    or before `offset`, or first of all if none does. -/
structure Governs (raw : List RawToken) (offset : Nat) (t : RawToken) : Prop where
  leads : Leads raw t
  nearest : (t.start ≤ offset ∧ ∀ u ∈ raw, u.Proper → u.start ≤ offset → u.start ≤ t.start) ∨
    ∀ u ∈ raw, u.Proper → offset < u.start ∧ t.start ≤ u.start

/-- What `raw` ought to come to on a line of `length` characters. Each character has the scopes of
    the token that governs it, and the boundaries are the starts of proper tokens behind the
    smallest start and within the line. -/
structure Normalized (raw : List RawToken) (length : Nat) (tokens : ScopedTokens) : Prop where
  scopes : ∀ offset < length, ∃ i < tokens.line.count, ∃ t,
    tokens.line.startOffset i ≤ offset ∧ offset < tokens.line.endOffset i ∧
      Governs raw offset t ∧ tokens.scopes[i]? = some t.scopes
  boundaries : ∀ b, (∃ i, 0 < i ∧ i < tokens.line.count ∧ tokens.line.startOffset i = b) ↔
    (∃ t ∈ raw, t.Proper ∧ t.start = b) ∧ (∃ t ∈ raw, t.Proper ∧ t.start < b) ∧ b < length

/-- Two or more proper tokens have the smallest start, and that is within the line and not `0`. -/
def RepeatsFirst (raw : List RawToken) (length : Nat) : Prop :=
  ∃ s < length, 0 < s ∧ (∀ t ∈ raw, t.Proper → s ≤ t.start) ∧
    1 < raw.countP (RawToken.startsAt s)

instance (raw : List RawToken) (length : Nat) : Decidable (RepeatsFirst raw length) :=
  inferInstanceAs (Decidable (∃ s < length, _))

/-! ## Sorted answers -/

theorem sortRaw_perm (raw : List RawToken) : (sortRaw raw).Perm raw :=
  List.mergeSort_perm _ _

theorem pairwise_sortRaw (raw : List RawToken) :
    (sortRaw raw).Pairwise fun t u => t.start ≤ u.start :=
  pairwise_mergeSort_decide (R := fun t u : RawToken => t.start ≤ u.start)
    (fun _ _ _ => Nat.le_trans) (fun _ _ => Nat.le_total _ _) raw

/-- `sortRaw` keeps the first token with a given start in front of the others. -/
theorem find?_sortRaw (raw : List RawToken) (s : Nat) :
    (sortRaw raw).find? (RawToken.startsAt s) = raw.find? (RawToken.startsAt s) := by
  apply find?_mergeSort (R := fun t u : RawToken => t.start ≤ u.start)
    (fun _ _ _ => Nat.le_trans) fun _ _ => Nat.le_total _ _
  intro t u h_t h_u
  rw [RawToken.startsAt_iff] at h_t h_u
  omega

/-- Empty tokens in front are skipped, and the first proper one is kept with start `0`. -/
theorem starts_none_append {length : Nat} (h_length : 0 < length) {before after : List RawToken}
    {t : RawToken} (h_before : ∀ u ∈ before, ¬ u.Proper) (h_t : t.Proper) :
    starts length none (before ++ t :: after) =
      (0, t.scopes) :: starts length (some 0) after := by
  induction before with
  | nil =>
    have h_not : ¬ (t.stop ≤ t.start ∧ 0 < length) := fun h => Nat.not_lt.2 h.1 h_t
    rw [List.nil_append, starts, if_neg h_not]
  | cons u us ih =>
    obtain ⟨h_u, h_us⟩ := List.forall_mem_cons.1 h_before
    rw [List.cons_append, starts, if_pos ⟨Nat.not_lt.1 h_u, h_length⟩]
    exact ih h_us

/-- Behind a kept start, what is kept are the leading tokens that start behind it and within the
    line. -/
theorem mem_starts_iff {length above : Nat} {ts : List RawToken} (h_length : 0 < length)
    (h_sorted : ts.Pairwise fun t u => t.start ≤ u.start) {k : Nat × ScopeStack} :
    k ∈ starts length (some above) ts ↔
      above < k.1 ∧ k.1 < length ∧
        (ts.find? (RawToken.startsAt k.1)).map RawToken.scopes = some k.2 := by
  induction ts generalizing above with
  | nil => simp [starts]
  | cons t ts ih =>
    obtain ⟨h_least, h_rest⟩ := List.pairwise_cons.1 h_sorted
    by_cases h_proper : t.Proper
    · have h_not : ¬ (t.stop ≤ t.start ∧ 0 < length) := fun h => Nat.not_lt.2 h.1 h_proper
      rw [starts, if_neg h_not]
      dsimp only
      by_cases h_drop : min t.start length ≤ above ∨ length ≤ min t.start length
      -- a stretch that is dropped starts before all that is still to be kept, or past the line
      · rw [if_pos h_drop, ih h_rest]
        refine and_congr_right fun h_above => and_congr_right fun h_k => ?_
        have h_other : ¬ t.startsAt k.1 = true := by
          rw [RawToken.startsAt_iff]
          omega
        rw [List.find?_cons_of_neg h_other]
      · have h_min : min t.start length = t.start := by omega
        rw [if_neg h_drop, h_min, List.mem_cons, ih h_rest]
        by_cases h_start : k.1 = t.start
        · have h_this : t.startsAt k.1 = true := RawToken.startsAt_iff.2 ⟨h_proper, h_start.symm⟩
          rw [List.find?_cons_of_pos h_this, Option.map_some, Option.some.injEq, Prod.ext_iff,
            eq_comm (a := k.2)]
          constructor
          · rintro (⟨-, h_scopes⟩ | ⟨h_lt, -⟩)
            · exact ⟨by omega, by omega, h_scopes⟩
            · omega
          · rintro ⟨-, -, h_scopes⟩
            exact .inl ⟨h_start, h_scopes⟩
        · have h_other : ¬ t.startsAt k.1 = true := by
            rw [RawToken.startsAt_iff]
            omega
          rw [List.find?_cons_of_neg h_other]
          constructor
          · rintro (rfl | ⟨h_lt, h_k, h_find⟩)
            · exact absurd rfl h_start
            · exact ⟨by omega, h_k, h_find⟩
          · rintro ⟨h_above, h_k, h_find⟩
            obtain ⟨u, h_u, -⟩ := Option.map_eq_some_iff.1 h_find
            have h_least_u := h_least u (List.mem_of_find?_eq_some h_u)
            obtain ⟨-, h_u_start⟩ := RawToken.startsAt_iff.1 (List.find?_some h_u)
            exact .inr ⟨by omega, h_k, h_find⟩
    · have h_other : ¬ t.startsAt k.1 = true := fun h => h_proper (RawToken.startsAt_iff.1 h).1
      rw [starts, if_pos ⟨Nat.not_lt.1 h_proper, h_length⟩, ih h_rest,
        List.find?_cons_of_neg h_other]

/-! ## The first stretch and the others -/

/-- `first` is the proper token with which `kept` starts, and `rest` the sorted ones behind it. -/
structure Headed (raw : List RawToken) (length : Nat) (first : RawToken)
    (rest : List RawToken) : Prop where
  kept_eq : ∀ own, kept own length raw = (0, first.scopes) :: starts length (some 0) rest
  sorted : rest.Pairwise fun t u => t.start ≤ u.start
  leads : Leads raw first
  least : ∀ t ∈ raw, t.Proper → first.start ≤ t.start
  find?_eq : ∀ s, s ≠ first.start →
    rest.find? (RawToken.startsAt s) = raw.find? (RawToken.startsAt s)
  repeats_iff : (∃ t ∈ rest, t.startsAt first.start = true) ↔
    1 < raw.countP (RawToken.startsAt first.start)

theorem exists_headed {raw : List RawToken} {length : Nat} (h_length : 0 < length)
    (h_some : ∃ t ∈ raw, t.Proper) : ∃ first rest, Headed raw length first rest := by
  obtain ⟨t, h_t, h_proper⟩ := h_some
  -- the first proper stretch of the sorted answer
  obtain ⟨first, h_first⟩ :
      ∃ first, (sortRaw raw).find? (fun t => decide t.Proper) = some first := by
    apply Option.isSome_iff_exists.1
    rw [List.find?_isSome]
    exact ⟨t, (sortRaw_perm raw).mem_iff.2 h_t, decide_eq_true h_proper⟩
  obtain ⟨h_first_proper, before, rest, h_sort, h_before⟩ := List.find?_eq_some_iff_append.1 h_first
  simp only [decide_eq_true_eq, Bool.not_eq_true', decide_eq_false_iff_not]
    at h_first_proper h_before
  have h_sorted := pairwise_sortRaw raw
  rw [h_sort] at h_sorted
  obtain ⟨-, h_sorted, -⟩ := List.pairwise_append.1 h_sorted
  obtain ⟨h_least, h_sorted⟩ := List.pairwise_cons.1 h_sorted
  have h_skip : ∀ s, ∀ u ∈ before, ¬ u.startsAt s = true :=
    fun s u h_u h => h_before u h_u (RawToken.startsAt_iff.1 h).1
  have h_find : ∀ s, raw.find? (RawToken.startsAt s) =
      (first :: rest).find? (RawToken.startsAt s) := by
    intro s
    rw [← find?_sortRaw, h_sort, List.find?_append, List.find?_eq_none.2 (h_skip s)]
    rfl
  refine ⟨first, rest, ?_, h_sorted, ?_, ?_, ?_, ?_⟩
  · intro own
    rw [kept, h_sort, starts_none_append h_length h_before h_first_proper]
  · rw [Leads, h_find]
    exact List.find?_cons_of_pos (RawToken.startsAt_iff.2 ⟨h_first_proper, rfl⟩)
  · intro u h_u h_u_proper
    have h_mem := (sortRaw_perm raw).mem_iff.2 h_u
    rw [h_sort, List.mem_append, List.mem_cons] at h_mem
    rcases h_mem with h_mem | rfl | h_mem
    · exact absurd h_u_proper (h_before u h_mem)
    · exact Nat.le_refl _
    · exact h_least u h_mem
  · intro s h_s
    rw [h_find]
    refine (List.find?_cons_of_neg ?_).symm
    rw [RawToken.startsAt_iff]
    exact fun h => h_s h.2.symm
  · have h_count : raw.countP (RawToken.startsAt first.start) =
        rest.countP (RawToken.startsAt first.start) + 1 := by
      rw [← (sortRaw_perm raw).countP_eq, h_sort, List.countP_append,
        List.countP_eq_zero.2 (h_skip first.start),
        List.countP_cons_of_pos (RawToken.startsAt_iff.2 ⟨h_first_proper, rfl⟩), Nat.zero_add]
    rw [h_count, Nat.lt_add_left_iff_pos, List.countP_pos_iff]

/-- A start is kept behind `above` exactly if a proper token starts there. -/
theorem exists_start_iff {length above b : Nat} {ts : List RawToken} (h_length : 0 < length)
    (h_sorted : ts.Pairwise fun t u => t.start ≤ u.start) :
    (∃ k ∈ starts length (some above) ts, k.1 = b) ↔
      above < b ∧ b < length ∧ ∃ t ∈ ts, t.startsAt b = true := by
  constructor
  · rintro ⟨k, h_k, rfl⟩
    obtain ⟨h_above, h_lt, h_find⟩ := (mem_starts_iff h_length h_sorted).1 h_k
    obtain ⟨t, h_t, -⟩ := Option.map_eq_some_iff.1 h_find
    exact ⟨h_above, h_lt, t, List.mem_of_find?_eq_some h_t, List.find?_some h_t⟩
  · rintro ⟨h_above, h_lt, h_some⟩
    obtain ⟨t, h_t⟩ := Option.isSome_iff_exists.1 (List.find?_isSome.2 h_some)
    refine ⟨(b, t.scopes), (mem_starts_iff h_length h_sorted).2 ⟨h_above, h_lt, ?_⟩, rfl⟩
    rw [h_t]
    rfl

theorem Leads.mem {raw : List RawToken} {t : RawToken} (h : Leads raw t) : t ∈ raw :=
  List.mem_of_find?_eq_some h

theorem Leads.proper {raw : List RawToken} {t : RawToken} (h : Leads raw t) : t.Proper :=
  (RawToken.startsAt_iff.1 (List.find?_some h)).1

namespace Headed

variable {raw rest : List RawToken} {length : Nat} {first : RawToken}

/-- Proper tokens with another start than `first` are all in `rest`. -/
theorem exists_rest_iff (h : Headed raw length first rest) {b : Nat} (h_b : b ≠ first.start) :
    (∃ t ∈ rest, t.startsAt b = true) ↔ ∃ t ∈ raw, t.startsAt b = true := by
  rw [← List.find?_isSome, ← List.find?_isSome, h.find?_eq b h_b]

theorem repeatsFirst_iff (h : Headed raw length first rest) :
    RepeatsFirst raw length ↔
      0 < first.start ∧ first.start < length ∧ ∃ t ∈ rest, t.startsAt first.start = true := by
  rw [h.repeats_iff]
  constructor
  · rintro ⟨s, h_lt, h_pos, h_least, h_count⟩
    -- the smallest start is that of the first stretch
    obtain ⟨t, h_t, h_start⟩ := List.countP_pos_iff.1 (Nat.zero_lt_of_lt h_count)
    obtain ⟨h_proper, h_t_start⟩ := RawToken.startsAt_iff.1 h_start
    have h_first := h.least t h_t h_proper
    have h_s := h_least first h.leads.mem h.leads.proper
    obtain rfl : s = first.start := by omega
    exact ⟨h_pos, h_lt, h_count⟩
  · rintro ⟨h_pos, h_lt, h_count⟩
    exact ⟨first.start, h_lt, h_pos, h.least, h_count⟩

/-- Unless `RepeatsFirst`, the starts of proper tokens in `rest` are the boundaries that
    `Normalized` wants. -/
theorem boundary_iff (h : Headed raw length first rest) (h_not : ¬ RepeatsFirst raw length)
    (b : Nat) :
    (0 < b ∧ b < length ∧ ∃ t ∈ rest, t.startsAt b = true) ↔
      (∃ t ∈ raw, t.Proper ∧ t.start = b) ∧ (∃ t ∈ raw, t.Proper ∧ t.start < b) ∧ b < length := by
  rw [h.repeatsFirst_iff] at h_not
  constructor
  · rintro ⟨h_pos, h_lt, h_rest⟩
    have h_ne : b ≠ first.start := by
      rintro rfl
      exact h_not ⟨h_pos, h_lt, h_rest⟩
    obtain ⟨t, h_t, h_start⟩ := (h.exists_rest_iff h_ne).1 h_rest
    rw [RawToken.startsAt_iff] at h_start
    have h_first := h.least t h_t h_start.1
    exact ⟨⟨t, h_t, h_start⟩, ⟨first, h.leads.mem, h.leads.proper, by omega⟩, h_lt⟩
  · rintro ⟨⟨t, h_t, h_start⟩, ⟨u, h_u, h_proper, h_u_lt⟩, h_lt⟩
    have h_first := h.least u h_u h_proper
    refine ⟨by omega, h_lt, (h.exists_rest_iff (by omega)).2 ?_⟩
    exact ⟨t, h_t, RawToken.startsAt_iff.2 h_start⟩

/-- Unless `RepeatsFirst`, the last kept start at or before a character is that of the token that
    governs it. -/
theorem exists_governs (h : Headed raw length first rest) (h_not : ¬ RepeatsFirst raw length)
    {offset : Nat} (h_offset : offset < length) {k : Nat × ScopeStack}
    (h_k : k ∈ (0, first.scopes) :: starts length (some 0) rest) (h_le : k.1 ≤ offset)
    (h_last : ∀ j ∈ (0, first.scopes) :: starts length (some 0) rest,
      j.1 ≤ offset → j.1 ≤ k.1) :
    ∃ t, Governs raw offset t ∧ t.scopes = k.2 := by
  have h_length : 0 < length := Nat.zero_lt_of_lt h_offset
  -- a proper stretch that starts behind the first, and not behind the character, is no later
  have h_between : ∀ u ∈ raw, u.Proper → first.start < u.start → u.start ≤ offset →
      u.start ≤ k.1 := by
    intro u h_u h_proper h_lt h_u_offset
    have h_rest := (h.exists_rest_iff (Nat.ne_of_gt h_lt)).2
      ⟨u, h_u, RawToken.startsAt_iff.2 ⟨h_proper, rfl⟩⟩
    have h_kept : ∃ j ∈ starts length (some 0) rest, j.1 = u.start :=
      (exists_start_iff h_length h.sorted).2
        ⟨Nat.zero_lt_of_lt h_lt, Nat.lt_of_le_of_lt h_u_offset h_offset, h_rest⟩
    obtain ⟨j, h_j, h_start⟩ := h_kept
    rw [← h_start] at h_u_offset ⊢
    exact h_last j (List.mem_cons_of_mem _ h_j) h_u_offset
  rcases List.mem_cons.1 h_k with rfl | h_rest
  · refine ⟨first, ⟨h.leads, ?_⟩, rfl⟩
    by_cases h_start : first.start ≤ offset
    · refine .inl ⟨h_start, ?_⟩
      intro u h_u h_proper h_u_offset
      apply Nat.le_of_not_lt
      intro h_lt
      have := h_between u h_u h_proper h_lt h_u_offset
      omega
    · refine .inr ?_
      intro u h_u h_proper
      have := h.least u h_u h_proper
      omega
  · obtain ⟨h_pos, h_lt, h_find⟩ := (mem_starts_iff h_length h.sorted).1 h_rest
    obtain ⟨t, h_t, h_scopes⟩ := Option.map_eq_some_iff.1 h_find
    obtain ⟨h_proper, h_start⟩ := RawToken.startsAt_iff.1 (List.find?_some h_t)
    have h_ne : k.1 ≠ first.start := by
      intro h_eq
      rw [h.repeatsFirst_iff, ← h_eq] at h_not
      exact h_not ⟨h_pos, h_lt, t, List.mem_of_find?_eq_some h_t, List.find?_some h_t⟩
    rw [h.find?_eq k.1 h_ne, ← h_start] at h_t
    refine ⟨t, ⟨h_t, .inl ⟨by omega, ?_⟩⟩, h_scopes⟩
    intro u h_u h_u_proper h_u_offset
    have h_first := h.least u h_u h_u_proper
    have h_first_t := h.least t (Leads.mem h_t) h_proper
    by_cases h_u_first : u.start = first.start
    · omega
    · have := h_between u h_u h_u_proper (by omega) h_u_offset
      omega

end Headed

/-! ## Tokens -/

variable {σ : Type}

/-- The boundaries of `keptTokens` are the starts of proper tokens in `rest`. -/
theorem boundary_keptTokens_iff (lx : LineLexer σ) (own : ScopeName) {text : String}
    {raw rest : List RawToken} {first : RawToken} (h : Headed raw text.length first rest)
    (h_length : 0 < text.length) (b : Nat) :
    (∃ i, 0 < i ∧ i < (lx.keptTokens own text raw).line.count ∧
      (lx.keptTokens own text raw).line.startOffset i = b) ↔
      0 < b ∧ b < text.length ∧ ∃ t ∈ rest, t.startsAt b = true := by
  rw [← exists_start_iff h_length h.sorted, count_keptTokens]
  constructor
  · rintro ⟨i, h_pos, h_i, rfl⟩
    obtain ⟨k, h_k⟩ : ∃ k, (kept own text.length raw)[i]? = some k :=
      ⟨_, List.getElem?_eq_getElem h_i⟩
    refine ⟨k, ?_, (startOffset_keptTokens lx own text raw h_k).symm⟩
    obtain ⟨j, rfl⟩ := Nat.exists_eq_succ_of_ne_zero (Nat.ne_of_gt h_pos)
    rw [h.kept_eq, List.getElem?_cons_succ] at h_k
    exact List.mem_of_getElem? h_k
  · rintro ⟨k, h_k, rfl⟩
    obtain ⟨j, h_j⟩ := List.getElem?_of_mem h_k
    have h_kept : (kept own text.length raw)[j + 1]? = some k := by
      rw [h.kept_eq, List.getElem?_cons_succ, h_j]
    exact ⟨j + 1, Nat.zero_lt_succ j, (List.getElem?_eq_some_iff.1 h_kept).1,
      startOffset_keptTokens lx own text raw h_kept⟩

/-- `keptTokens` is normalized exactly unless `RepeatsFirst`. -/
theorem normalized_keptTokens_iff (lx : LineLexer σ) (own : ScopeName) {text : String}
    (h_length : 0 < text.length) {raw : List RawToken} (h_some : ∃ t ∈ raw, t.start < t.stop) :
    Normalized raw text.length (lx.keptTokens own text raw) ↔ ¬ RepeatsFirst raw text.length := by
  obtain ⟨first, rest, h_headed⟩ := exists_headed h_length h_some
  have h_boundary := boundary_keptTokens_iff lx own h_headed h_length
  constructor
  · intro h_normalized h_repeats
    -- a repeated first start makes a boundary, with no start before it
    have h_first := (h_normalized.boundaries first.start).1
      ((h_boundary first.start).2 (h_headed.repeatsFirst_iff.1 h_repeats))
    obtain ⟨t, h_t, h_proper, h_lt⟩ := h_first.2.1
    have := h_headed.least t h_t h_proper
    omega
  · intro h_not
    refine ⟨?_, fun b => (h_boundary b).trans (h_headed.boundary_iff h_not b)⟩
    intro offset h_offset
    have h_climbs := climbs_starts text.length 0 rest
    obtain ⟨i, k, h_i, h_le, h_end, h_last⟩ :=
      Climbs.exists_last_le (k := (0, first.scopes)) h_climbs (Nat.zero_le offset) h_offset
    obtain ⟨t, h_governs, h_scopes⟩ :=
      h_headed.exists_governs h_not h_offset (List.mem_of_getElem? h_i) h_le h_last
    rw [← h_headed.kept_eq own] at h_i h_end
    obtain ⟨h_lt, -⟩ := List.getElem?_eq_some_iff.1 h_i
    refine ⟨i, ?_, t, ?_, ?_, h_governs, ?_⟩
    · rw [count_keptTokens]
      exact h_lt
    · rw [startOffset_keptTokens lx own text raw h_i]
      exact h_le
    · rw [endOffset_keptTokens lx own text raw h_lt]
      exact h_end
    · rw [keptTokens, List.getElem?_map, h_i, h_scopes]
      rfl

/-- Let `raw` have a proper token, and `text` not be empty. `build` succeeds if `text` is within the
    offset range, and what it answers is `Normalized` exactly unless two or more proper tokens have
    the smallest start and that is within the line and not `0` (`RepeatsFirst`). -/
theorem exists_build_normalized_iff (lx : LineLexer σ) (own : ScopeName) (text : String)
    (h_text : text ≠ "") (raw : List RawToken) (h_some : ∃ t ∈ raw, t.start < t.stop) :
    (text.length < UInt32.size → ∃ tokens : ScopedTokens, lx.build own text raw = .ok tokens) ∧
    ∀ tokens : ScopedTokens, lx.build own text raw = .ok tokens →
      (Normalized raw text.length tokens ↔ ¬ RepeatsFirst raw text.length) := by
  have h_length : 0 < text.length := by
    apply Nat.pos_of_ne_zero
    intro h_zero
    exact h_text (String.length_eq_zero_iff.1 h_zero)
  constructor
  · intro h_fits
    exact ⟨_, build_eq lx own raw h_fits⟩
  · intro tokens h_build
    obtain ⟨-, rfl⟩ := eq_keptTokens_of_build h_build
    exact normalized_keptTokens_iff lx own h_length h_some

/-- A lexer of a language without embedded ones. -/
def plainLexer : LineLexer Nat :=
  ⟨none, .initial, ⟨2⟩, 20000⟩

/-- Raw tokens out of order and with gaps, one of them empty, and two with the same start. -/
def gappedTokens : List RawToken :=
  [⟨4, 9, [⟨"late"⟩]⟩, ⟨1, 3, [⟨"early"⟩]⟩, ⟨0, 0, [⟨"empty"⟩]⟩, ⟨4, 5, [⟨"again"⟩]⟩]

theorem exists_build_normalized_gappedTokens :
    "let x" ≠ "" ∧ (∃ t ∈ gappedTokens, t.start < t.stop) ∧ ¬ RepeatsFirst gappedTokens 5 ∧
    ∃ tokens : ScopedTokens, plainLexer.build ⟨"source.own"⟩ "let x" gappedTokens = .ok tokens ∧
      Normalized gappedTokens "let x".length tokens := by
  have h_some : ∃ t ∈ gappedTokens, t.start < t.stop := by decide
  have h_not : ¬ RepeatsFirst gappedTokens 5 := by decide
  obtain ⟨h_exists, h_iff⟩ := exists_build_normalized_iff plainLexer ⟨"source.own"⟩ "let x"
    (by decide) gappedTokens h_some
  obtain ⟨tokens, h_build⟩ := h_exists (by decide)
  exact ⟨by decide, h_some, h_not, tokens, h_build, (h_iff tokens h_build).2 h_not⟩

/-- Two raw tokens with start 2, which is the smallest start. -/
def repeatedTokens : List RawToken :=
  [⟨2, 3, [⟨"first"⟩]⟩, ⟨2, 4, [⟨"second"⟩]⟩]

/-- The second token is kept with start 2, and its scopes are those of the characters that the first
    should have given them to. -/
theorem not_normalized_repeatedTokens :
    ∃ tokens : ScopedTokens, plainLexer.build ⟨"source.own"⟩ "abcd" repeatedTokens = .ok tokens ∧
      tokens.scopes = [[⟨"first"⟩], [⟨"second"⟩]] ∧ ¬ Normalized repeatedTokens 4 tokens := by
  have h_kept : kept ⟨"source.own"⟩ "abcd".length repeatedTokens =
      [(0, [⟨"first"⟩]), (2, [⟨"second"⟩])] := by
    have h_sort : sortRaw repeatedTokens = repeatedTokens := List.mergeSort_of_pairwise (by decide)
    rw [kept, h_sort]
    decide
  refine ⟨plainLexer.keptTokens ⟨"source.own"⟩ "abcd" repeatedTokens, build_eq _ _ _ (by decide),
    ?_, ?_⟩
  · rw [keptTokens, h_kept]
    rfl
  · intro h
    have h_second : (kept ⟨"source.own"⟩ "abcd".length repeatedTokens)[1]? =
        some (2, [⟨"second"⟩]) := by
      rw [h_kept]
      rfl
    have h_count : 1 < (plainLexer.keptTokens ⟨"source.own"⟩ "abcd" repeatedTokens).line.count := by
      rw [count_keptTokens, h_kept]
      decide
    -- there is a boundary at the third character, and no stretch starts before it
    obtain ⟨-, h_before, -⟩ := (h.boundaries 2).1
      ⟨1, Nat.zero_lt_one, h_count, startOffset_keptTokens plainLexer _ _ _ h_second⟩
    exact absurd h_before (by decide)

end LineLexer

end ScopeTokens
