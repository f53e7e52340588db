/-
  ScopeTokens.Proofs.Cache.PendingRanges

  The log of touched lines as a set of lines. A log is `Tidy` if its ranges
  ascend, none is empty, and no two touch. `insert` keeps it tidy and adds exactly
  the lines of the range (`covers_insert_iff`); a log that grows beyond `limit`
  covers more. When lines are replaced, `shift` moves the lines above and below
  with them (`Covers.shift_above`, `Covers.shift_below`). In a tidy log the place
  of a range can be found by binary search, and the ranges that it touches can be
  removed one by one (`markInPlace_eq`).
-/

import ScopeTokens.Cache.Pending

namespace ScopeTokens

namespace LineRange

variable {r s : LineRange} {line : Nat}

/-- The cover of ranges that touch has no other lines than theirs. -/
theorem contains_cover_iff (h : s.start ≤ r.stop) (h' : r.start ≤ s.stop) :
    (r.cover s).contains line = true ↔ r.contains line = true ∨ s.contains line = true := by
  simp only [contains_iff, cover]
  omega

end LineRange

namespace PendingLog

/-! ## Lines of a log -/

/-- `line` is in one of the ranges. -/
def Covers (log : PendingLog) (line : Nat) : Prop :=
  ∃ r ∈ log, r.contains line = true

/-- The ranges are not empty and ascend, with a line between any two. -/
structure Tidy (log : PendingLog) : Prop where
  nonempty : ∀ r ∈ log, r.start < r.stop
  apart : log.Pairwise fun r s => r.stop < s.start

theorem covers_cons_iff {r : LineRange} {log : PendingLog} {line : Nat} :
    Covers (r :: log) line ↔ r.contains line = true ∨ Covers log line := by
  simp [Covers]

theorem tidy_nil : Tidy [] :=
  ⟨fun _ h => absurd h List.not_mem_nil, .nil⟩

theorem tidy_cons_iff {r : LineRange} {log : PendingLog} :
    Tidy (r :: log) ↔ r.start < r.stop ∧ (∀ s ∈ log, r.stop < s.start) ∧ Tidy log := by
  constructor
  · rintro ⟨h_nonempty, h_apart⟩
    obtain ⟨h_first, h_rest⟩ := List.forall_mem_cons.1 h_nonempty
    obtain ⟨h_before, h_apart⟩ := List.pairwise_cons.1 h_apart
    exact ⟨h_first, h_before, h_rest, h_apart⟩
  · rintro ⟨h_first, h_before, h_rest, h_apart⟩
    exact ⟨List.forall_mem_cons.2 ⟨h_first, h_rest⟩, List.pairwise_cons.2 ⟨h_before, h_apart⟩⟩

theorem tidy_singleton {r : LineRange} (h : r.start < r.stop) : Tidy [r] :=
  tidy_cons_iff.2 ⟨h, fun _ h_s => absurd h_s List.not_mem_nil, tidy_nil⟩

/-! ## Logging a range -/

variable {log : PendingLog} {r : LineRange} {line bound : Nat}

theorem lt_start_of_mem_absorb (h_r : bound < r.start) (h : ∀ s ∈ log, bound < s.start) :
    ∀ s ∈ absorb r log, bound < s.start := by
  induction log generalizing r with
  | nil => exact List.forall_mem_singleton.2 h_r
  | cons s ss ih =>
    obtain ⟨h_s, h_ss⟩ := List.forall_mem_cons.1 h
    rw [absorb]
    split
    · exact ih (by simp only [LineRange.cover]; omega) h_ss
    · exact List.forall_mem_cons.2 ⟨h_r, h⟩

theorem lt_start_of_mem_insert (h_r : bound < r.start) (h : ∀ s ∈ log, bound < s.start) :
    ∀ s ∈ insert r log, bound < s.start := by
  induction log with
  | nil => exact List.forall_mem_singleton.2 h_r
  | cons s ss ih =>
    obtain ⟨h_s, h_ss⟩ := List.forall_mem_cons.1 h
    rw [insert]
    split
    · exact List.forall_mem_cons.2 ⟨h_s, ih h_ss⟩
    · exact lt_start_of_mem_absorb h_r h

theorem tidy_absorb (h : Tidy log) (h_r : r.start < r.stop) : Tidy (absorb r log) := by
  induction log generalizing r with
  | nil => exact tidy_singleton h_r
  | cons s ss ih =>
    obtain ⟨h_s, h_before, h_ss⟩ := tidy_cons_iff.1 h
    rw [absorb]
    split
    · exact ih h_ss (by simp only [LineRange.cover]; omega)
    · rename_i h_past
      refine tidy_cons_iff.2 ⟨h_r, List.forall_mem_cons.2 ⟨by omega, fun t h_t => ?_⟩, h⟩
      have h_t' := h_before t h_t
      omega

theorem tidy_insert (h : Tidy log) (h_r : r.start < r.stop) : Tidy (insert r log) := by
  induction log with
  | nil => exact tidy_singleton h_r
  | cons s ss ih =>
    obtain ⟨h_s, h_before, h_ss⟩ := tidy_cons_iff.1 h
    rw [insert]
    split
    · rename_i h_front
      exact tidy_cons_iff.2 ⟨h_s, lt_start_of_mem_insert h_front h_before, ih h_ss⟩
    · exact tidy_absorb h h_r

/-- `absorb` adds the lines of `r`, and no others. -/
theorem covers_absorb_iff (h : ∀ s ∈ log, r.start ≤ s.stop) :
    Covers (absorb r log) line ↔ r.contains line = true ∨ Covers log line := by
  induction log generalizing r with
  | nil => exact covers_cons_iff
  | cons s ss ih =>
    obtain ⟨h_s, h_ss⟩ := List.forall_mem_cons.1 h
    rw [absorb]
    split
    · rename_i h_touch
      have h_cover : ∀ t ∈ ss, (r.cover s).start ≤ t.stop := fun t h_t =>
        Nat.le_trans (Nat.min_le_left _ _) (h_ss t h_t)
      rw [ih h_cover, LineRange.contains_cover_iff h_touch h_s, covers_cons_iff, or_assoc]
    · exact covers_cons_iff

/-- `insert` into a tidy log adds the lines of `r`, and no others. -/
theorem covers_insert_iff (h : Tidy log) :
    Covers (insert r log) line ↔ r.contains line = true ∨ Covers log line := by
  induction log with
  | nil => exact covers_cons_iff
  | cons s ss ih =>
    obtain ⟨h_s, h_before, h_ss⟩ := tidy_cons_iff.1 h
    rw [insert]
    split
    · rw [covers_cons_iff, covers_cons_iff, ih h_ss]
      exact or_left_comm
    · rename_i h_back
      refine covers_absorb_iff (List.forall_mem_cons.2 ⟨by omega, fun t h_t => ?_⟩)
      have h_t' := h_before t h_t
      have h_t'' := h_ss.nonempty t h_t
      omega

/-! ## Keeping to the limit -/

namespace Tidy

theorem head_le {first : LineRange} (h : Tidy log) (h_first : log.head? = some first)
    (h_r : r ∈ log) : first.start ≤ r.start := by
  cases log with
  | nil => cases h_first
  | cons s ss =>
    obtain rfl := Option.some.inj h_first
    obtain ⟨h_s, h_before, -⟩ := tidy_cons_iff.1 h
    rcases List.mem_cons.1 h_r with rfl | h_mem
    · exact Nat.le_refl _
    · have h_lt := h_before r h_mem
      omega

theorem le_getLast {last : LineRange} (h : Tidy log) (h_last : log.getLast? = some last)
    (h_r : r ∈ log) : r.stop ≤ last.stop := by
  induction log generalizing r with
  | nil => cases h_last
  | cons s ss ih =>
    obtain ⟨h_s, h_before, h_ss⟩ := tidy_cons_iff.1 h
    cases ss with
    | nil =>
      obtain rfl := Option.some.inj h_last
      rw [List.mem_singleton.1 h_r]
      exact Nat.le_refl _
    | cons t ts =>
      rw [List.getLast?_cons_cons] at h_last
      rcases List.mem_cons.1 h_r with rfl | h_mem
      · -- the first range ends before the second starts, which ends no later than the last
        have h_lt := h_before t List.mem_cons_self
        have h_t := h_ss.nonempty t List.mem_cons_self
        have h_le := ih h_ss h_last List.mem_cons_self
        omega
      · exact ih h_ss h_last h_mem

end Tidy

/-- `collapse` leaves the log alone or replaces it by one range over all of it. -/
theorem collapse_cases (log : PendingLog) :
    collapse log = log ∨ ∃ first last, log.head? = some first ∧ log.getLast? = some last ∧
      collapse log = [⟨first.start, last.stop⟩] := by
  unfold collapse
  split
  · split
    · rename_i first last h_first h_last
      exact .inr ⟨first, last, h_first, h_last, rfl⟩
    · exact .inl rfl
  · exact .inl rfl

theorem tidy_collapse (h : Tidy log) : Tidy (collapse log) := by
  rcases collapse_cases log with h_same | ⟨first, last, h_first, h_last, h_one⟩
  · rwa [h_same]
  · rw [h_one]
    have h_mem := List.mem_of_mem_head? h_first
    have h_lt := h.nonempty first h_mem
    have h_le := h.le_getLast h_last h_mem
    exact tidy_singleton (by dsimp only; omega)

theorem Covers.collapse (h : Covers log line) (h_tidy : Tidy log) :
    Covers (collapse log) line := by
  rcases collapse_cases log with h_same | ⟨first, last, h_first, h_last, h_one⟩
  · rwa [h_same]
  · obtain ⟨r, h_r, h_line⟩ := h
    have h_start := h_tidy.head_le h_first h_r
    have h_stop := h_tidy.le_getLast h_last h_r
    rw [LineRange.contains_iff] at h_line
    rw [h_one, Covers]
    exact ⟨_, List.mem_singleton_self _, LineRange.contains_iff.2 (by dsimp only; omega)⟩

theorem tidy_mark (h : Tidy log) (h_r : r.start < r.stop) : Tidy (mark log r) :=
  tidy_collapse (tidy_insert h h_r)

/-- `mark` loses no line of the log or of `r`. -/
theorem covers_mark (h : Tidy log) (h_r : r.start < r.stop)
    (h_line : r.contains line = true ∨ Covers log line) : Covers (mark log r) line :=
  ((covers_insert_iff h).2 h_line).collapse (tidy_insert h h_r)

/-- Marking ranges one after the other keeps a log tidy. -/
theorem tidy_foldl_mark {f : LineRange → LineRange} {rs : List LineRange}
    (h : Tidy log) (h_rs : ∀ r ∈ rs, (f r).start < (f r).stop) :
    Tidy (rs.foldl (fun log r => mark log (f r)) log) := by
  induction rs generalizing log with
  | nil => exact h
  | cons r rs ih =>
    obtain ⟨h_r, h_rs⟩ := List.forall_mem_cons.1 h_rs
    exact ih (tidy_mark h h_r) h_rs

theorem covers_foldl_mark {f : LineRange → LineRange} {rs : List LineRange} (h : Tidy log)
    (h_rs : ∀ r ∈ rs, (f r).start < (f r).stop)
    (h_line : Covers log line ∨ ∃ r ∈ rs, (f r).contains line = true) :
    Covers (rs.foldl (fun log r => mark log (f r)) log) line := by
  induction rs generalizing log with
  | nil =>
    rcases h_line with h_log | ⟨r, h_r, -⟩
    · exact h_log
    · exact absurd h_r List.not_mem_nil
  | cons r rs ih =>
    obtain ⟨h_r, h_rs⟩ := List.forall_mem_cons.1 h_rs
    apply ih (tidy_mark h h_r) h_rs
    rcases h_line with h_log | ⟨s, h_s, h_s_line⟩
    · exact .inl (covers_mark h h_r (.inr h_log))
    · rcases List.mem_cons.1 h_s with rfl | h_mem
      · exact .inl (covers_mark h h_r (.inl h_s_line))
      · exact .inr ⟨s, h_mem, h_s_line⟩

/-! ## Following lines that are replaced -/

/-- Where `r` is after lines `start` to `stop` became lines `start` to `last`. -/
def shiftRange (start stop last : Nat) (r : LineRange) : LineRange :=
  ⟨shiftStart start stop last r.start, shiftStop start stop last r.stop⟩

variable {start stop last : Nat}

/-- A range stays non-empty, even if all its lines are replaced. -/
theorem nonempty_shiftRange (h : start ≤ last) (h_r : r.start < r.stop) :
    (shiftRange start stop last r).start < (shiftRange start stop last r).stop := by
  simp only [shiftRange, shiftStart, shiftStop]
  grind

theorem contains_shiftRange_above (h : start ≤ last) (h_line : line < start)
    (h_r : r.contains line = true) : (shiftRange start stop last r).contains line = true := by
  rw [LineRange.contains_iff] at h_r ⊢
  simp only [shiftRange, shiftStart, shiftStop]
  grind

theorem contains_shiftRange_below (h_stop : start ≤ stop) (h : start ≤ last) (h_line : stop < line)
    (h_r : r.contains line = true) :
    (shiftRange start stop last r).contains (line - stop + last) = true := by
  rw [LineRange.contains_iff] at h_r ⊢
  simp only [shiftRange, shiftStart, shiftStop]
  grind

theorem tidy_shift (h : ∀ r ∈ log, r.start < r.stop) (h_start : start ≤ last) :
    Tidy (shift log start stop last) :=
  tidy_foldl_mark tidy_nil fun r h_r => nonempty_shiftRange h_start (h r h_r)

/-- `shift` keeps lines above `start`. -/
theorem Covers.shift_above (h : Covers log line) (h_tidy : Tidy log) (h_start : start ≤ last)
    (h_line : line < start) : Covers (shift log start stop last) line := by
  obtain ⟨r, h_r, h_r_line⟩ := h
  exact covers_foldl_mark tidy_nil
    (fun r h_r => nonempty_shiftRange h_start (h_tidy.nonempty r h_r))
    (.inr ⟨r, h_r, contains_shiftRange_above h_start h_line h_r_line⟩)

/-- `shift` keeps lines below `stop`, under their new numbers. -/
theorem Covers.shift_below (h : Covers log line) (h_tidy : Tidy log) (h_stop : start ≤ stop)
    (h_start : start ≤ last) (h_line : stop < line) :
    Covers (shift log start stop last) (line - stop + last) := by
  obtain ⟨r, h_r, h_r_line⟩ := h
  exact covers_foldl_mark tidy_nil
    (fun r h_r => nonempty_shiftRange h_start (h_tidy.nonempty r h_r))
    (.inr ⟨r, h_r, contains_shiftRange_below h_stop h_start h_line h_r_line⟩)

/-! ## The place of a range, by halving -/

/-- Binary search between `low` and `high` for the first range that does not end before `line`. -/
def place (log : PendingLog) (line low high : Nat) : Nat :=
  if low < high then
    let mid := low + (high - low) / 2
    match log[mid]? with
    | none => low
    | some r =>
      if r.stop < line then place log line (mid + 1) high else place log line low mid
  else low
termination_by high - low
decreasing_by all_goals omega

/-- Removes ranges at index `i` while `r` touches them, and joins `r` to them. -/
def joinAt (log : PendingLog) (i : Nat) (r : LineRange) : PendingLog × LineRange :=
  if h : i < log.length then
    if log[i].start ≤ r.stop then joinAt (log.eraseIdx i) i (r.cover log[i]) else (log, r)
  else (log, r)
termination_by log.length
decreasing_by
  rw [List.length_eraseIdx_of_lt h]
  omega

/-- `mark` on the list itself: finds the place, removes what is touched, inserts, and collapses. -/
def markInPlace (log : PendingLog) (r : LineRange) : PendingLog :=
  let i := place log r.start 0 log.length
  let joined := joinAt log i r
  let log' := joined.1.insertIdx i joined.2
  if limit < log'.length then
    [⟨(log'.head?.map LineRange.start).getD 0, (log'.getLast?.map LineRange.stop).getD 0⟩]
  else log'

/-- `shift` with `markInPlace` for each range. -/
def shiftInPlace (log : PendingLog) (start stop last : Nat) : PendingLog :=
  log.foldl (fun log r => markInPlace log (shiftRange start stop last r)) []

/-- Invariant of the search: the place is between `low` and `high`. -/
theorem place_append {front back : PendingLog} {line low high : Nat}
    (h_front : ∀ r ∈ front, r.stop < line) (h_back : ∀ r ∈ back, line ≤ r.stop)
    (h_low : low ≤ front.length) (h_high : front.length ≤ high)
    (h_length : high ≤ (front ++ back).length) :
    place (front ++ back) line low high = front.length := by
  fun_induction place (front ++ back) line low high with
  | case1 low high h_lt mid h_none =>
    have h_mid := List.getElem?_eq_none_iff.1 h_none
    omega
  | case2 low high h_lt mid r h_r h_before ih =>
    -- a range that stops before `line` lies in front, so the search goes on above `mid`
    refine ih ?_ h_high h_length
    rcases Nat.lt_or_ge mid front.length with h_in | h_out
    · exact h_in
    · rw [List.getElem?_append_right h_out] at h_r
      have h_after := h_back r (List.mem_of_getElem? h_r)
      omega
  | case3 low high h_lt mid r h_r h_after ih =>
    -- a range that does not stop before `line` lies behind
    refine ih h_low ?_ (by omega)
    rcases Nat.lt_or_ge mid front.length with h_in | h_out
    · rw [List.getElem?_append_left h_in] at h_r
      exact absurd (h_front r (List.mem_of_getElem? h_r)) h_after
    · exact h_out
  | case4 low high h_not => omega

theorem insert_append {front : PendingLog} (h : ∀ s ∈ front, s.stop < r.start)
    (back : PendingLog) : insert r (front ++ back) = front ++ insert r back := by
  induction front with
  | nil => rfl
  | cons s ss ih =>
    obtain ⟨h_s, h_ss⟩ := List.forall_mem_cons.1 h
    rw [List.cons_append, insert, if_pos h_s, ih h_ss, List.cons_append]

/-- `joinAt` removes what `absorb` joins, and leaves the rest. -/
theorem joinAt_append (front back : PendingLog) (r : LineRange) :
    ∃ rest merged, joinAt (front ++ back) front.length r = (front ++ rest, merged) ∧
      absorb r back = merged :: rest := by
  induction back generalizing r with
  | nil =>
    refine ⟨[], r, ?_, rfl⟩
    rw [joinAt, dif_neg (by simp)]
  | cons s ss ih =>
    have h_lt : front.length < (front ++ s :: ss).length := by simp
    have h_get : (front ++ s :: ss)[front.length] = s := by simp
    rw [joinAt, dif_pos h_lt, h_get, absorb]
    split
    · obtain ⟨rest, merged, h_join, h_absorb⟩ := ih (r.cover s)
      refine ⟨rest, merged, ?_, h_absorb⟩
      rw [List.eraseIdx_append_of_length_le (Nat.le_refl _), Nat.sub_self, List.eraseIdx_cons_zero]
      exact h_join
    · exact ⟨s :: ss, r, rfl, rfl⟩

/-- The ranges that end before `line` are in front of the others. -/
theorem Tidy.exists_split (h : Tidy log) (line : Nat) :
    ∃ front back, log = front ++ back ∧ (∀ s ∈ front, s.stop < line) ∧
      ∀ s ∈ back, line ≤ s.stop := by
  induction log with
  | nil => exact ⟨[], [], rfl, nofun, nofun⟩
  | cons s ss ih =>
    obtain ⟨h_s, h_before, h_ss⟩ := tidy_cons_iff.1 h
    by_cases h_line : s.stop < line
    · obtain ⟨front, back, rfl, h_front, h_back⟩ := ih h_ss
      exact ⟨s :: front, back, rfl, List.forall_mem_cons.2 ⟨h_line, h_front⟩, h_back⟩
    · refine ⟨[], s :: ss, rfl, nofun, List.forall_mem_cons.2 ⟨by omega, fun t h_t => ?_⟩⟩
      have h_start := h_before t h_t
      have h_stop := h_ss.nonempty t h_t
      omega

theorem insert_of_le {back : PendingLog} (h : ∀ s ∈ back, r.start ≤ s.stop) :
    insert r back = absorb r back := by
  cases back with
  | nil => rfl
  | cons s ss => rw [insert, if_neg (Nat.not_lt.2 (h s List.mem_cons_self))]

theorem insertIdx_length_append (front back : PendingLog) (r : LineRange) :
    (front ++ back).insertIdx front.length r = front ++ r :: back := by
  induction front with
  | nil => rfl
  | cons s ss ih => simp [List.insertIdx_succ_cons, ih]

/-- In a tidy log, `markInPlace` is `mark`. -/
theorem markInPlace_eq (h : Tidy log) (r : LineRange) : markInPlace log r = mark log r := by
  obtain ⟨front, back, rfl, h_front, h_back⟩ := h.exists_split r.start
  obtain ⟨rest, merged, h_join, h_absorb⟩ := joinAt_append front back r
  have h_place := place_append h_front h_back (Nat.zero_le _)
    (by rw [List.length_append]; omega) (Nat.le_refl (front ++ back).length)
  have h_insert : (front ++ rest).insertIdx front.length merged = insert r (front ++ back) := by
    rw [insert_append h_front, insert_of_le h_back, h_absorb, insertIdx_length_append]
  simp only [markInPlace, h_place, h_join, h_insert, mark, collapse]
  by_cases h_limit : limit < (insert r (front ++ back)).length
  · rw [if_pos h_limit, if_pos h_limit]
    cases h_log : insert r (front ++ back) with
    | nil => simp [h_log] at h_limit
    | cons s ss => rw [List.getLast?_eq_some_getLast (List.cons_ne_nil s ss)]; rfl
  · rw [if_neg h_limit, if_neg h_limit]

theorem foldl_markInPlace_eq {f : LineRange → LineRange} {rs : List LineRange} (h : Tidy log)
    (h_rs : ∀ r ∈ rs, (f r).start < (f r).stop) :
    rs.foldl (fun log r => markInPlace log (f r)) log =
      rs.foldl (fun log r => mark log (f r)) log := by
  induction rs generalizing log with
  | nil => rfl
  | cons r rs ih =>
    obtain ⟨h_r, h_rs⟩ := List.forall_mem_cons.1 h_rs
    -- the log stays tidy, so the next range is put in its place as well
    rw [List.foldl_cons, List.foldl_cons, markInPlace_eq h]
    exact ih (tidy_mark h h_r) h_rs

theorem shiftInPlace_eq (h : Tidy log) (h_start : start ≤ last) (stop : Nat) :
    shiftInPlace log start stop last = shift log start stop last :=
  foldl_markInPlace_eq tidy_nil fun r h_r => nonempty_shiftRange h_start (h.nonempty r h_r)

/-- What a change does to a tidy log can be done in place. -/
theorem markInPlace_shiftInPlace_eq (h : Tidy log) (h_start : start ≤ last) (stop : Nat)
    (r : LineRange) :
    markInPlace (shiftInPlace log start stop last) r = mark (shift log start stop last) r := by
  rw [shiftInPlace_eq h h_start, markInPlace_eq (tidy_shift h.nonempty h_start)]

end PendingLog

end ScopeTokens
