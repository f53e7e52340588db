/-
  ScopeTokens.Proofs.Cache.InPlaceHeal

  Healing in place. The lines of a range are walked through from its start; at a
  line that is out of date, all lines are computed anew down to where the state
  is what it was and the next line is up to date, and the walk goes on there.
  This makes no access outside of the slots either, and comes to what healing
  line by line does (`healRange_eq`, `validateRange_eq`).
-/

import ScopeTokens.Cache.Heal
import ScopeTokens.Proofs.Cache.Healing
import ScopeTokens.Proofs.Cache.InPlace

namespace ScopeTokens

/-- The entries of a healing without failure. -/
def LineLexer.Healing.result {σ : Type} (h : LineLexer.Healing σ) :
    Except TokenizeError (List (LineEntry σ)) :=
  match h.failure with
  | some e => .error e
  | none => .ok h.entries

namespace Slots

variable {σ : Type}

/-- An entry in front of a healing is one more entry that is done with. -/
theorem map_result_cons (pre : List (LineEntry σ)) (e : LineEntry σ) (work : CacheStats)
    (rest : LineLexer.Healing σ) :
    (LineLexer.Healing.result ⟨e :: rest.entries, work, rest.failure⟩).map
        (fun es => full (pre ++ es)) =
      rest.result.map fun es => full (pre ++ [e] ++ es) := by
  obtain ⟨entries, work', failure⟩ := rest
  cases failure with
  | some err => rfl
  | none =>
    show Except.ok (full (pre ++ e :: entries)) = Except.ok (full (pre ++ [e] ++ entries))
    rw [List.append_assoc]
    rfl

variable [DecidableEq σ]

/-! ## Walking down -/

/-- The slot has not been computed from the live text. -/
def isStale : Option (LineEntry σ) → String → Bool
  | none, _ => true
  | some e, live => e.isStale live

/-- Computes a line with `below` lines below it, and goes on with the next line as long as the state
    is another one than before or the next line is out of date. Answers with the number of lines
    that were computed below the first. -/
def healDown (lx : LineLexer σ) (src : LineSource) (slots : Slots σ) (line below : Nat) :
    Option (Except TokenizeError (Slots σ × Nat)) :=
  slots[line]?.bind fun before =>
    (slots.retokenize lx src line).bind fun
      | .error e => some (.error e)
      | .ok slots' =>
        match below with
        | 0 => some (.ok (slots', 0))
        | below + 1 =>
          slots'[line]?.bind fun redone =>
            slots'[line + 1]?.bind fun next =>
              if endState redone == endState before && !isStale next (src.lineText (line + 1)) then
                some (.ok (slots', 0))
              else
                (healDown lx src slots' (line + 1) below).map fun r => r.map fun (slots'', n) =>
                  (slots'', n + 1)

/-- Heals a line, and what hangs on it below. -/
def healFrom (lx : LineLexer σ) (src : LineSource) (slots : Slots σ) (line : Nat) :
    Option (Except TokenizeError (Slots σ × Nat)) :=
  slots[line]?.bind fun slot =>
    if isStale slot (src.lineText line) then
      healDown lx src slots line (slots.length - (line + 1))
    else some (.ok (slots, 0))

/-- Heals the lines from `line` up to, and without, `stop`. -/
def healRange (lx : LineLexer σ) (src : LineSource) (slots : Slots σ) (line stop : Nat) :
    Option (Except TokenizeError (Slots σ)) :=
  if line < stop then
    match healFrom lx src slots line with
    | some (.ok (slots', n)) => healRange lx src slots' (line + 1 + n) stop
    | some (.error e) => some (.error e)
    | none => none
  else some (.ok slots)
termination_by stop - line

/-- Heals the lines of several ranges, as far as they exist. -/
def healAll (lx : LineLexer σ) (src : LineSource) (slots : Slots σ) :
    List LineRange → Option (Except TokenizeError (Slots σ))
  | [] => some (.ok slots)
  | range :: ranges =>
    match healRange lx src slots range.start (min range.stop slots.length) with
    | some (.ok slots') => healAll lx src slots' ranges
    | r => r

/-- Heals the lines that edits touched and those of a range, and does everything anew or settles if
    that comes to nothing. -/
def validateRange (c : TokenCache σ) (registry : Registry (Grammar σ)) (src : LineSource)
    (range : LineRange) : Option (Slots σ) :=
  if (full c.lines).length ≠ src.lineCount then refresh c registry src
  else
    (healAll (c.lexer registry.languages) src (full c.lines) (c.pending ++ [range])).bind fun
      | .ok slots => some slots
      | .error _ => settle (c.lexer registry.languages) src

/-! ## Line by line -/

/-- What healing line by line makes of the entries `es`, below entries `pre` that are done with. -/
def healed (lx : LineLexer σ) (src : LineSource) (range : LineRange) (pre : List (LineEntry σ))
    (above : LineLexer.Above σ) (es : List (LineEntry σ)) : Except TokenizeError (Slots σ) :=
  (lx.heal range pre.length above es (src.lines.drop pre.length)).result.map
    fun es' => full (pre ++ es')

variable {lx : LineLexer σ} {src : LineSource} {range : LineRange} {pre : List (LineEntry σ)}
  {above : LineLexer.Above σ} {e : LineEntry σ} {es : List (LineEntry σ)}

theorem healed_nil : healed lx src range pre above [] = .ok (full pre) := by
  rw [healed, LineLexer.heal_nil]
  show Except.ok (full (pre ++ [])) = _
  rw [List.append_nil]

theorem healed_cons_of_not_redoes (es : List (LineEntry σ)) (h_line : pre.length < src.lineCount)
    (h : ¬ above.redoes range pre.length e (src.lineText pre.length) = true) :
    healed lx src range pre above (e :: es) =
      healed lx src range (pre ++ [e]) ⟨e.endState, false, false⟩ es := by
  rw [healed, healed, drop_lines_eq h_line, LineLexer.heal_cons_of_not_redoes h, List.length_append,
    List.length_singleton]
  exact map_result_cons pre e _ _

theorem healed_cons_of_ok {e' : LineEntry σ} (es : List (LineEntry σ))
    (h_line : pre.length < src.lineCount)
    (h : above.redoes range pre.length e (src.lineText pre.length) = true)
    (h_entry : lx.entry (src.lineText pre.length) above.state = .ok e') :
    healed lx src range pre above (e :: es) =
      healed lx src range (pre ++ [e']) ⟨e'.endState, true, e'.endState != e.endState⟩ es := by
  rw [healed, healed, drop_lines_eq h_line, LineLexer.heal_cons_of_ok h h_entry, List.length_append,
    List.length_singleton]
  exact map_result_cons pre e' _ _

theorem healed_cons_of_error {err : TokenizeError} (es : List (LineEntry σ))
    (h_line : pre.length < src.lineCount)
    (h : above.redoes range pre.length e (src.lineText pre.length) = true)
    (h_entry : lx.entry (src.lineText pre.length) above.state = .error err) :
    healed lx src range pre above (e :: es) = .error err := by
  rw [healed, drop_lines_eq h_line, LineLexer.heal_cons_of_error h h_entry]
  rfl

/-! ## The walks step by step -/

theorem healDown_of_error {err : TokenizeError} (below : Nat)
    (h_entry : lx.entry (src.lineText pre.length) (LineLexer.stateBelow pre) = .error err) :
    healDown lx src (full (pre ++ e :: es)) pre.length below = some (.error err) := by
  rw [healDown, getElem?_full_middle, Option.bind_some, retokenize_middle, h_entry]
  rfl

/-- The last line has none below it that the walk could go on with. -/
theorem healDown_zero {e' : LineEntry σ}
    (h_entry : lx.entry (src.lineText pre.length) (LineLexer.stateBelow pre) = .ok e') :
    healDown lx src (full (pre ++ e :: es)) pre.length 0 =
      some (.ok (full (pre ++ e' :: es), 0)) := by
  rw [healDown, getElem?_full_middle, Option.bind_some, retokenize_middle, h_entry]
  rfl

theorem healDown_succ {e' : LineEntry σ} (e next : LineEntry σ) (es : List (LineEntry σ))
    (below : Nat)
    (h_entry : lx.entry (src.lineText pre.length) (LineLexer.stateBelow pre) = .ok e') :
    healDown lx src (full (pre ++ e :: next :: es)) pre.length (below + 1) =
      if e'.endState == e.endState && !next.isStale (src.lineText (pre.length + 1)) then
        some (.ok (full (pre ++ e' :: next :: es), 0))
      else
        (healDown lx src (full (pre ++ e' :: next :: es)) (pre.length + 1) below).map fun r =>
          r.map fun (slots, n) => (slots, n + 1) := by
  have h_next : (full (pre ++ e' :: next :: es))[pre.length + 1]? = some (some next) := by
    have h_get := getElem?_full_middle (pre ++ [e']) es next
    rwa [List.append_assoc, List.length_append, List.length_singleton] at h_get
  rw [healDown, getElem?_full_middle, Option.bind_some, retokenize_middle, h_entry]
  simp only [Except.map, Option.bind_some, getElem?_full_middle, h_next]
  rfl

theorem healRange_of_le {slots : Slots σ} {line stop : Nat} (h : stop ≤ line) :
    healRange lx src slots line stop = some (.ok slots) := by
  rw [healRange, if_neg (Nat.not_lt.2 h)]

theorem healRange_of_not_stale {stop : Nat} (h_stop : pre.length < stop)
    (h : ¬ e.isStale (src.lineText pre.length) = true) :
    healRange lx src (full (pre ++ e :: es)) pre.length stop =
      healRange lx src (full (pre ++ e :: es)) (pre.length + 1) stop := by
  rw [healRange, if_pos h_stop, healFrom, getElem?_full_middle, Option.bind_some]
  simp only [isStale, h]
  rfl

/-- At a line that is out of date, the walk goes down first. -/
theorem healRange_of_stale {stop : Nat} (h_stop : pre.length < stop)
    (h : e.isStale (src.lineText pre.length) = true) :
    healRange lx src (full (pre ++ e :: es)) pre.length stop =
      match healDown lx src (full (pre ++ e :: es)) pre.length es.length with
      | some (.ok (slots, n)) => healRange lx src slots (pre.length + 1 + n) stop
      | some (.error err) => some (.error err)
      | none => none := by
  have h_below : (full (pre ++ e :: es)).length - (pre.length + 1) = es.length := by
    rw [length_full, List.length_append, List.length_cons]
    omega
  rw [healRange, if_pos h_stop, healFrom, getElem?_full_middle, Option.bind_some, h_below]
  simp only [isStale, h, if_true]

/-! ## Both are the same -/

/-- What walking down from a line that is computed anew comes to, and healing line by line with it:
    both fail, or the walk stops below `n` more lines, where healing line by line goes over to lines
    that need not be computed. -/
inductive WalkedDown (lx : LineLexer σ) (src : LineSource) (range : LineRange)
    (pre : List (LineEntry σ)) (above : LineLexer.Above σ) (e : LineEntry σ)
    (es : List (LineEntry σ)) : Prop
  | failed (err : TokenizeError)
    (h_down : healDown lx src (full (pre ++ e :: es)) pre.length es.length = some (.error err))
    (h_healed : healed lx src range pre above (e :: es) = .error err)
  | stopped (redone : List (LineEntry σ)) (n : Nat) (h_redone : redone.length = n + 1)
    (h_n : n ≤ es.length)
    (h_down : healDown lx src (full (pre ++ e :: es)) pre.length es.length =
      some (.ok (full (pre ++ redone ++ es.drop n), n)))
    (h_healed : healed lx src range pre above (e :: es) =
      healed lx src range (pre ++ redone) ⟨LineLexer.stateBelow (pre ++ redone), false, false⟩
        (es.drop n))

theorem walkedDown_healDown (lx : LineLexer σ)
    (h_length : pre.length + (es.length + 1) = src.lineCount)
    (h_state : above.state = LineLexer.stateBelow pre)
    (h : above.redoes range pre.length e (src.lineText pre.length) = true) :
    WalkedDown lx src range pre above e es := by
  have h_line : pre.length < src.lineCount := by omega
  induction es generalizing pre e above with
  | nil =>
    cases h_entry : lx.entry (src.lineText pre.length) above.state with
    | error err =>
      have h_healed := healed_cons_of_error [] h_line h h_entry
      rw [h_state] at h_entry
      exact .failed err (healDown_of_error _ h_entry) h_healed
    | ok e' =>
      have h_healed := healed_cons_of_ok [] h_line h h_entry
      rw [h_state] at h_entry
      refine .stopped [e'] 0 rfl (Nat.le_refl 0) ?_ ?_
      · rw [List.drop_nil, List.append_nil]
        exact healDown_zero h_entry
      · rw [h_healed, List.drop_nil, healed_nil, healed_nil]
  | cons next es ih =>
    cases h_entry : lx.entry (src.lineText pre.length) above.state with
    | error err =>
      have h_healed := healed_cons_of_error (next :: es) h_line h h_entry
      rw [h_state] at h_entry
      exact .failed err (healDown_of_error _ h_entry) h_healed
    | ok e' =>
      have h_healed := healed_cons_of_ok (next :: es) h_line h h_entry
      rw [h_state] at h_entry
      have h_down := healDown_succ e next es es.length h_entry
      have h_pre : (pre ++ [e']).length = pre.length + 1 := by
        rw [List.length_append, List.length_singleton]
      rw [List.length_cons] at h_length
      have h_line' : (pre ++ [e']).length < src.lineCount := by omega
      by_cases h_settled :
          (e'.endState == e.endState && !next.isStale (src.lineText (pre.length + 1))) = true
      -- the walk stops here, and line by line the next line is left alone, whether or not a line
      -- above it was computed anew
      · rw [if_pos h_settled] at h_down
        rw [Bool.and_eq_true, beq_iff_eq, Bool.not_eq_true', ← Bool.not_eq_true,
          ← h_pre] at h_settled
        obtain ⟨h_same, h_live⟩ := h_settled
        refine .stopped [e'] 0 rfl (Nat.zero_le _) ?_ ?_
        · rw [List.drop_zero, List.append_assoc]
          exact h_down
        · rw [h_healed, List.drop_zero, LineLexer.stateBelow_concat, h_same, bne_self_eq_false,
            healed_cons_of_not_redoes es h_line' (LineLexer.not_redoes_of_not_stale h_live),
            healed_cons_of_not_redoes es h_line' (LineLexer.not_redoes_of_not_stale h_live)]
      -- the walk goes on, and line by line the next line is computed anew as well
      · rw [if_neg h_settled] at h_down
        have h_redoes : LineLexer.Above.redoes ⟨e'.endState, true, e'.endState != e.endState⟩ range
            (pre ++ [e']).length next (src.lineText (pre ++ [e']).length) = true := by
          apply LineLexer.redoes_below_redone
          rw [h_pre, bne_iff_ne]
          simpa [imp_iff_not_or] using h_settled
        have h_walk := ih (by omega) (LineLexer.stateBelow_concat pre e').symm h_redoes h_line'
        have h_slots : pre ++ [e'] ++ next :: es = pre ++ e' :: next :: es :=
          List.append_assoc _ _ _
        cases h_walk with
        | failed err h_down' h_healed' =>
          rw [h_pre, h_slots] at h_down'
          rw [h_down'] at h_down
          exact .failed err h_down (h_healed.trans h_healed')
        | stopped redone n h_redone h_n h_down' h_healed' =>
          have h_done : pre ++ [e'] ++ redone = pre ++ e' :: redone := List.append_assoc _ _ _
          rw [h_pre, h_slots, h_done] at h_down'
          rw [h_down'] at h_down
          rw [h_done] at h_healed'
          exact .stopped (e' :: redone) (n + 1) (congrArg Nat.succ h_redone) (Nat.succ_le_succ h_n)
            h_down (h_healed.trans h_healed')

/-- Walking through the lines of a range, from the first that is not done with. -/
theorem healRange_eq (lx : LineLexer σ) (range : LineRange) (pre es : List (LineEntry σ))
    (h_length : pre.length + es.length = src.lineCount) :
    healRange lx src (full (pre ++ es)) (max range.start pre.length)
        (min range.stop src.lineCount) =
      some (healed lx src range pre ⟨LineLexer.stateBelow pre, false, false⟩ es) := by
  -- the walk may skip lines that were computed anew, so the induction is on the lines left
  induction h_left : es.length using Nat.strongRecOn generalizing pre es with
  | ind left ih =>
    cases es with
    | nil =>
      rw [List.length_nil] at h_length
      rw [healRange_of_le (by omega), List.append_nil, healed_nil]
    | cons e es =>
      rw [List.length_cons] at h_length h_left
      have h_line : pre.length < src.lineCount := by omega
      have h_next := ih es.length (by omega) (pre ++ [e]) es
        (by rw [List.length_append, List.length_singleton]; omega) rfl
      rw [List.length_append, List.length_singleton, LineLexer.stateBelow_concat, List.append_assoc,
        List.cons_append, List.nil_append] at h_next
      by_cases h_asked : range.contains pre.length = true
      · have h_range := LineRange.contains_iff.1 h_asked
        have h_stop : pre.length < min range.stop src.lineCount := by omega
        rw [Nat.max_eq_right h_range.1]
        by_cases h_stale : e.isStale (src.lineText pre.length) = true
        -- the walk goes on below the last line that it computed on its way down
        · rw [healRange_of_stale h_stop h_stale]
          have h_redoes : LineLexer.Above.redoes ⟨LineLexer.stateBelow pre, false, false⟩ range
              pre.length e (src.lineText pre.length) = true :=
            LineLexer.redoes_below_kept.2 ⟨h_asked, h_stale⟩
          cases walkedDown_healDown lx h_length rfl h_redoes with
          | failed err h_down h_healed => rw [h_down, h_healed]
          | stopped redone n h_redone h_n h_down h_healed =>
            have h_done : (pre ++ redone).length = pre.length + 1 + n := by
              rw [List.length_append, h_redone]
              omega
            have h_rest := ih (es.drop n).length (by rw [List.length_drop]; omega) (pre ++ redone)
              (es.drop n) (by rw [h_done, List.length_drop]; omega) rfl
            rw [h_done, Nat.max_eq_right (by omega)] at h_rest
            rw [h_down, h_healed]
            exact h_rest
        -- the line is up to date
        · rw [Nat.max_eq_right (by omega)] at h_next
          rw [healRange_of_not_stale h_stop h_stale, healed_cons_of_not_redoes es h_line
            (LineLexer.not_redoes_of_not_stale h_stale)]
          exact h_next
      · have h_keep : ¬ LineLexer.Above.redoes ⟨LineLexer.stateBelow pre, false, false⟩ range
            pre.length e (src.lineText pre.length) = true :=
          fun h_redoes => h_asked (LineLexer.redoes_below_kept.1 h_redoes).1
        rw [healed_cons_of_not_redoes es h_line h_keep, ← h_next]
        rw [LineRange.contains_iff, not_and, Nat.not_lt] at h_asked
        rcases Nat.lt_or_ge pre.length range.start with h_before | h_after
        -- the walk starts further down
        · rw [Nat.max_eq_left (by omega), Nat.max_eq_left (by omega)]
        -- the walk is over
        · have h_range := h_asked h_after
          rw [healRange_of_le (by omega), healRange_of_le (by omega)]

/-- Healing ranges in place, one after the other. -/
theorem healAll_eq (lx : LineLexer σ) (src : LineSource) (ranges : List LineRange)
    {es : List (LineEntry σ)} (h_length : es.length = src.lineCount) :
    healAll lx src (full es) ranges =
      some ((lx.healAll src.lines ranges es).result.map full) := by
  induction ranges generalizing es with
  | nil => rfl
  | cons range ranges ih =>
    -- the first range heals from the top, with no line in front
    have h_first := healRange_eq lx range [] es (by rw [List.length_nil, h_length, Nat.zero_add])
    rw [List.nil_append, List.length_nil, Nat.max_eq_left (Nat.zero_le _)] at h_first
    rw [healAll, length_full, h_length, h_first]
    have h_top : healed lx src range [] ⟨LineLexer.stateBelow [], false, false⟩ es =
        (lx.heal range 0 .top es src.lines).result.map full := rfl
    have h_count := LineLexer.length_heal lx range 0 .top es src.lines
    rw [h_top, LineLexer.healAll]
    cases h_failure : (lx.heal range 0 .top es src.lines).failure with
    | some err =>
      simp only [h_failure, LineLexer.Healing.result, Except.map]
    | none =>
      have h_rest := ih (h_count.trans h_length)
      simp only [h_failure, LineLexer.Healing.result, Except.map] at h_rest ⊢
      exact h_rest

/-- Validating in place makes no access outside of the slots, and leaves none empty. -/
theorem validateRange_eq (c : TokenCache σ) (registry : Registry (Grammar σ)) (src : LineSource)
    (range : LineRange) :
    validateRange c registry src range =
      some (full (c.validateRange registry src range).cache.lines) := by
  rw [validateRange, TokenCache.validateRange, length_full]
  by_cases h_count : c.lines.length = src.lineCount
  · have h_same : ¬ c.lineCount ≠ src.lineCount := not_not_intro h_count
    rw [if_neg (not_not_intro h_count), if_neg h_same, healAll_eq _ src _ h_count, Option.bind_some]
    cases h_failure : ((c.lexer registry.languages).healAll src.lines (c.pending ++ [range])
        c.lines).failure with
    | some err =>
      simp only [h_failure, LineLexer.Healing.result, Except.map]
      exact settle_eq rfl src
    | none => simp only [h_failure, LineLexer.Healing.result, Except.map]
  · have h_differs : c.lineCount ≠ src.lineCount := h_count
    rw [if_pos h_count, if_pos h_differs]
    exact refresh_eq c registry src

end Slots

end ScopeTokens
