/-
  ScopeTokens.Proofs.Cache.Healing

  What `heal` preserves and achieves, from top to bottom. A line below one that
  was redone is redone as well, or its own end state shows that the state handed
  down did not change; so chained entries stay chained (`chained_heal`). A line
  with its live text keeps it, and every line of the range gets it (`fresh_heal`).
  Both carry over to several ranges, one after the other (`Healed`).
-/

import ScopeTokens.Cache.Heal
import ScopeTokens.Proofs.Cache.InStep

namespace ScopeTokens

namespace LineLexer

variable {σ : Type} {lx : LineLexer σ} {range : LineRange} {above : Above σ} {e : LineEntry σ}
  {text : String} {es : List (LineEntry σ)} {texts : List String}

/-! ## What is healed -/

/-- `es` is chained to the state above, or else the line above was redone with another end state,
    and `es` is still chained to the state before. -/
def Linked (lx : LineLexer σ) (above : Above σ) (es : List (LineEntry σ)) : Prop :=
  if above.changed then above.redone = true ∧ ∃ s, Chained lx s es else Chained lx above.state es

theorem Linked.exists_chained (h : Linked lx above es) : ∃ s, Chained lx s es := by
  unfold Linked at h
  split at h
  · exact h.2
  · exact ⟨above.state, h⟩

theorem linked_iff_of_not_changed (h : ¬ above.changed = true) :
    Linked lx above es ↔ Chained lx above.state es := by
  rw [Linked, if_neg h]

/-- The entry of `line` has the text of `texts` there. -/
def Fresh (texts : List String) (es : List (LineEntry σ)) (line : Nat) : Prop :=
  es[line]?.map LineEntry.text = texts[line]?

/-- If all lines are fresh, the entries have the texts `texts`. -/
theorem map_text_of_fresh (h : ∀ line, Fresh texts es line) : es.map LineEntry.text = texts := by
  apply List.ext_getElem?
  intro line
  rw [List.getElem?_map]
  exact h line

/-- From `es` to `es'`, fresh lines stay fresh, and the lines of `ranges` become fresh. -/
def Freshens (texts : List String) (ranges : List LineRange) (es es' : List (LineEntry σ)) : Prop :=
  ∀ line, Fresh texts es line ∨ (∃ r ∈ ranges, r.contains line = true) → Fresh texts es' line

theorem freshens_nil (texts : List String) (es : List (LineEntry σ)) : Freshens texts [] es es := by
  rintro line (h_fresh | ⟨r, h_r, -⟩)
  · exact h_fresh
  · exact absurd h_r List.not_mem_nil

theorem Freshens.trans {ranges ranges' : List LineRange} {es es' es'' : List (LineEntry σ)}
    (h : Freshens texts ranges es es') (h' : Freshens texts ranges' es' es'') :
    Freshens texts (ranges ++ ranges') es es'' := by
  rintro line (h_fresh | ⟨r, h_r, h_line⟩)
  · exact h' line (.inl (h line (.inl h_fresh)))
  · rcases List.mem_append.1 h_r with h_first | h_second
    · exact h' line (.inl (h line (.inr ⟨r, h_first, h_line⟩)))
    · exact h' line (.inr ⟨r, h_second, h_line⟩)

/-- What healing `ranges` without a failure leaves of `es`. -/
structure Healed (lx : LineLexer σ) (texts : List String) (ranges : List LineRange)
    (es es' : List (LineEntry σ)) : Prop where
  length : es'.length = es.length
  chained : Chained lx none es → Chained lx none es'
  fresh : Freshens texts ranges es es'

/-- A line with its live text is left alone, unless the state above it changed. -/
theorem not_redoes_of_not_stale {state : Option σ} {redone : Bool} {line : Nat}
    (h : ¬ e.isStale text = true) :
    ¬ Above.redoes ⟨state, redone, false⟩ range line e text = true := by
  simp [Above.redoes, h]

/-- Below a line that was redone, a line is redone if its state or its text changed. -/
theorem redoes_below_redone {state : Option σ} {changed : Bool} {line : Nat}
    (h : changed = true ∨ e.isStale text = true) :
    Above.redoes ⟨state, true, changed⟩ range line e text = true := by
  rw [Above.redoes, if_pos rfl, Bool.or_eq_true]
  exact h

/-- Below a line that was left alone, a line is redone if it is asked for and stale. -/
theorem redoes_below_kept {state : Option σ} {line : Nat} :
    Above.redoes ⟨state, false, false⟩ range line e text = true ↔
      range.contains line = true ∧ e.isStale text = true := by
  rw [Above.redoes, if_neg Bool.false_ne_true, Bool.and_eq_true]

/-- A line that is left alone has its live text, if it is asked for or below a redone one. -/
theorem text_eq_of_not_redoes {line : Nat} (h : ¬ above.redoes range line e text = true)
    (h_asked : above.redone = true ∨ range.contains line = true) : e.text = text := by
  rw [Above.redoes] at h
  -- below a redone line the text is looked at on any line, elsewhere only in the range
  rcases h_asked with h_redone | h_range
  · rw [if_pos h_redone] at h
    simp only [Bool.or_eq_true, not_or] at h
    simpa [LineEntry.isStale] using h.2
  · by_cases h_redone : above.redone = true
    · rw [if_pos h_redone] at h
      simp only [Bool.or_eq_true, not_or] at h
      simpa [LineEntry.isStale] using h.2
    · rw [if_neg h_redone, h_range] at h
      simpa [LineEntry.isStale] using h

variable [DecidableEq σ]

/-! ## One line at a time -/

theorem heal_nil (lx : LineLexer σ) (range : LineRange) (line : Nat) (above : Above σ)
    (texts : List String) : lx.heal range line above [] texts = ⟨[], .zero, none⟩ := by
  cases texts <;> rfl

theorem heal_cons_of_error {line : Nat} {err : TokenizeError}
    (h : above.redoes range line e text = true) (h_entry : lx.entry text above.state = .error err) :
    lx.heal range line above (e :: es) (text :: texts) = ⟨e :: es, .zero, some err⟩ := by
  rw [heal, if_pos h, h_entry]

theorem heal_cons_of_ok {line : Nat} {e' : LineEntry σ}
    (h : above.redoes range line e text = true) (h_entry : lx.entry text above.state = .ok e') :
    lx.heal range line above (e :: es) (text :: texts) =
      let rest := lx.heal range (line + 1) ⟨e'.endState, true, e'.endState != e.endState⟩ es texts
      ⟨e' :: rest.entries, e'.work + rest.work, rest.failure⟩ := by
  rw [heal, if_pos h, h_entry]

theorem heal_cons_of_not_redoes {line : Nat} (h : ¬ above.redoes range line e text = true) :
    lx.heal range line above (e :: es) (text :: texts) =
      let rest := lx.heal range (line + 1) ⟨e.endState, false, false⟩ es texts
      ⟨e :: rest.entries, rest.work, rest.failure⟩ := by
  rw [heal, if_neg h]

/-! ## Chains -/

/-- The entries below a redone line are linked to it. -/
theorem linked_of_redone {s : Option σ} (e e' : LineEntry σ) (h : Chained lx s (e :: es)) :
    Linked lx ⟨e'.endState, true, e'.endState != e.endState⟩ es := by
  by_cases h_state : e'.endState = e.endState
  · rw [linked_iff_of_not_changed (by simp [h_state])]
    show Chained lx e'.endState es
    rw [h_state]
    exact h.2
  · rw [Linked, if_pos (by simp [h_state])]
    exact ⟨rfl, e.endState, h.2⟩

/-- Invariant of `heal`: linked entries become chained ones. -/
theorem chained_heal (line : Nat) (h_length : es.length = texts.length)
    (h_linked : Linked lx above es)
    (h_ok : (lx.heal range line above es texts).failure = none) :
    Chained lx above.state (lx.heal range line above es texts).entries := by
  induction es generalizing line above texts with
  | nil =>
    rw [heal_nil]
    trivial
  | cons e es ih =>
    cases texts with
    | nil => exact absurd h_length nofun
    | cons text texts =>
      have h_rest : es.length = texts.length := by simpa using h_length
      by_cases h : above.redoes range line e text = true
      · cases h_entry : lx.entry text above.state with
        | error err =>
          rw [heal_cons_of_error h h_entry] at h_ok
          exact absurd h_ok nofun
        | ok e' =>
          -- what was above the line before does not matter, as it is computed anew
          obtain ⟨s, h_chain⟩ := h_linked.exists_chained
          rw [heal_cons_of_ok h h_entry] at h_ok ⊢
          refine ⟨?_, ih _ h_rest (linked_of_redone e e' h_chain) h_ok⟩
          rw [text_of_entry h_entry]
          exact h_entry
      · -- a changed state would have had the line computed anew
        have h_changed : ¬ above.changed = true := by
          intro h_changed
          rw [Linked, if_pos h_changed] at h_linked
          rw [Above.redoes, if_pos h_linked.1, h_changed] at h
          exact h rfl
        obtain ⟨h_first, h_below⟩ := (linked_iff_of_not_changed h_changed).1 h_linked
        rw [heal_cons_of_not_redoes h] at h_ok ⊢
        have h_linked' : Linked lx ⟨e.endState, false, false⟩ es :=
          (linked_iff_of_not_changed Bool.false_ne_true).2 h_below
        exact ⟨h_first, ih _ h_rest h_linked' h_ok⟩

/-! ## Texts -/

/-- Fresh lines stay fresh, and the lines of the range become fresh. -/
theorem fresh_heal (line : Nat) (h_length : es.length = texts.length)
    (h_ok : (lx.heal range line above es texts).failure = none) {i : Nat}
    (h : Fresh texts es i ∨ range.contains (line + i) = true) :
    Fresh texts (lx.heal range line above es texts).entries i := by
  induction es generalizing line above texts i with
  | nil =>
    rw [heal_nil, Fresh, List.eq_nil_of_length_eq_zero h_length.symm]
    rfl
  | cons e es ih =>
    cases texts with
    | nil => exact absurd h_length nofun
    | cons text texts =>
      have h_rest : es.length = texts.length := by simpa using h_length
      -- what is asked of the line `i + 1` here is asked of the line `i` below
      have h_below : ∀ i', i = i' + 1 →
          Fresh texts es i' ∨ range.contains (line + 1 + i') = true := by
        rintro i' rfl
        rwa [Nat.add_assoc, Nat.add_comm 1]
      by_cases h_redoes : above.redoes range line e text = true
      · cases h_entry : lx.entry text above.state with
        | error err =>
          rw [heal_cons_of_error h_redoes h_entry] at h_ok
          exact absurd h_ok nofun
        | ok e' =>
          rw [heal_cons_of_ok h_redoes h_entry] at h_ok ⊢
          cases i with
          | zero => exact congrArg some (text_of_entry h_entry)
          | succ i => exact ih _ h_rest h_ok (h_below i rfl)
      · rw [heal_cons_of_not_redoes h_redoes] at h_ok ⊢
        cases i with
        | zero =>
          rcases h with h_fresh | h_range
          · exact h_fresh
          · exact congrArg some (text_eq_of_not_redoes h_redoes (.inr h_range))
        | succ i => exact ih _ h_rest h_ok (h_below i rfl)

/-! ## Several ranges -/

theorem healed_heal (h_length : es.length = texts.length)
    (h_ok : (lx.heal range 0 .top es texts).failure = none) :
    Healed lx texts [range] es (lx.heal range 0 .top es texts).entries where
  length := length_heal lx range 0 .top es texts
  chained h := chained_heal 0 h_length ((linked_iff_of_not_changed Bool.false_ne_true).2 h) h_ok
  fresh line h := by
    refine fresh_heal 0 h_length h_ok (h.imp_right ?_)
    rintro ⟨r, h_r, h_line⟩
    rw [List.mem_singleton.1 h_r] at h_line
    rwa [Nat.zero_add]

theorem healed_healAll (ranges : List LineRange) (h_length : es.length = texts.length)
    (h_ok : (lx.healAll texts ranges es).failure = none) :
    Healed lx texts ranges es (lx.healAll texts ranges es).entries := by
  induction ranges generalizing es with
  | nil =>
    exact ⟨rfl, id, freshens_nil texts es⟩
  | cons range ranges ih =>
    rw [healAll] at h_ok ⊢
    cases h_first : (lx.heal range 0 .top es texts).failure with
    | some err =>
      simp only [h_first] at h_ok
      exact absurd h_ok nofun
    | none =>
      simp only [h_first] at h_ok ⊢
      have h_one := healed_heal h_length h_first
      have h_rest := ih (h_one.length.trans h_length) h_ok
      exact ⟨h_rest.length.trans h_one.length, fun h => h_rest.chained (h_one.chained h),
        h_one.fresh.trans h_rest.fresh⟩

end LineLexer

end ScopeTokens
