/-
  ScopeTokens.Proofs.Cache.InPlace

  Computing lines in place. The lines of a cache can be kept in slots that are
  overwritten one by one, each from what the slot above it holds at that moment;
  a slot is empty while its line is still to be computed. Every access says
  whether it is within the slots, and a computation that makes one outside of
  them comes to nothing (`none`). Refreshing and editing in place never do, and
  leave no slot empty: they hold the very lines that the cache has after the
  same request (`refresh_eq`, `onEdit_eq`).
-/

import ScopeTokens.Proofs.Cache.EditSteps

namespace ScopeTokens

/-- The lines of a cache while they are worked on; an empty slot is a line still to be computed. -/
abbrev Slots (σ : Type) := List (Option (LineEntry σ))

/-- The entries of a run without failure. -/
def LineLexer.Run.result {σ : Type} (r : LineLexer.Run σ) :
    Except TokenizeError (List (LineEntry σ)) :=
  match r.failure with
  | some e => .error e
  | none => .ok r.entries

namespace Slots

variable {σ : Type}

/-! ## Access -/

/-- Slots that are all filled. -/
def full (es : List (LineEntry σ)) : Slots σ :=
  es.map some

/-- The state that a slot hands down. -/
def endState (slot : Option (LineEntry σ)) : Option σ :=
  slot.bind LineEntry.endState

/-- The state above a line, read from the slot there. -/
def stateAbove (slots : Slots σ) : Nat → Option (Option σ)
  | 0 => some none
  | line + 1 => slots[line]?.map endState

/-- Puts an entry into a slot. -/
def fill (slots : Slots σ) (line : Nat) (e : LineEntry σ) : Option (Slots σ) :=
  if line < slots.length then some (slots.set line (some e)) else none

/-- Puts other slots in place of those from `start` to `stop`. -/
def splice (slots : Slots σ) (start stop : Nat) (new : Slots σ) : Option (Slots σ) :=
  if start ≤ stop + 1 ∧ stop < slots.length then
    some (slots.take start ++ new ++ slots.drop (stop + 1))
  else none

/-- Cuts the slots off after `count`, or adds empty ones. -/
def resize (slots : Slots σ) (count : Nat) : Slots σ :=
  slots.take count ++ List.replicate (count - slots.length) none

/-! ## Computing lines -/

/-- Computes one line. -/
def retokenize (lx : LineLexer σ) (src : LineSource) (slots : Slots σ) (line : Nat) :
    Option (Except TokenizeError (Slots σ)) :=
  (slots.stateAbove line).bind fun above =>
    match lx.entry (src.lineText line) above with
    | .error e => some (.error e)
    | .ok e => (slots.fill line e).map .ok

/-- Computes `count` lines from `line` on. -/
def retokenizeFrom (lx : LineLexer σ) (src : LineSource) (slots : Slots σ) (line : Nat) :
    (count : Nat) → Option (Except TokenizeError (Slots σ))
  | 0 => some (.ok slots)
  | count + 1 =>
    match slots.retokenize lx src line with
    | some (.ok slots') => retokenizeFrom lx src slots' (line + 1) count
    | r => r

theorem full_append (es fs : List (LineEntry σ)) : full (es ++ fs) = full es ++ full fs :=
  List.map_append

theorem length_full (es : List (LineEntry σ)) : (full es).length = es.length :=
  List.length_map _

theorem getElem?_full (es : List (LineEntry σ)) (line : Nat) :
    (full es)[line]? = es[line]?.map some :=
  List.getElem?_map

theorem stateAbove_full_append (pre : List (LineEntry σ)) (rest : Slots σ) :
    (full pre ++ rest).stateAbove pre.length = some (LineLexer.stateBelow pre) := by
  rcases List.eq_nil_or_concat pre with rfl | ⟨es, e, rfl⟩
  · rfl
  · rw [List.concat_eq_append, List.length_append, List.length_singleton, stateAbove,
      List.getElem?_append_left (by simp [length_full]), getElem?_full, List.getElem?_concat_length,
      LineLexer.stateBelow_concat]
    rfl

theorem fill_full_append (pre : List (LineEntry σ)) (slot : Option (LineEntry σ)) (rest : Slots σ)
    (e : LineEntry σ) :
    (full pre ++ slot :: rest).fill pre.length e = some (full (pre ++ [e]) ++ rest) := by
  have h_length := length_full pre
  rw [fill, if_pos (by simp [h_length])]
  rw [← h_length, List.set_append_right _ _ (Nat.le_refl _), Nat.sub_self, List.set_cons_zero,
    full_append, List.append_assoc]
  rfl

theorem splice_full {es : List (LineEntry σ)} {start stop : Nat} (h_start : start ≤ stop + 1)
    (h_stop : stop < es.length) (new : Slots σ) :
    (full es).splice start stop new =
      some (full (es.take start) ++ new ++ full (es.drop (stop + 1))) := by
  have h_fits : start ≤ stop + 1 ∧ stop < (full es).length := by
    rw [length_full]
    exact ⟨h_start, h_stop⟩
  rw [splice, if_pos h_fits, full, full, full, List.map_take, List.map_drop]

theorem getElem?_full_middle (pre es : List (LineEntry σ)) (e : LineEntry σ) :
    (full (pre ++ e :: es))[pre.length]? = some (some e) := by
  rw [getElem?_full, List.getElem?_append_right (Nat.le_refl _), Nat.sub_self]
  rfl

theorem retokenize_middle (lx : LineLexer σ) (src : LineSource) (pre es : List (LineEntry σ))
    (e : LineEntry σ) :
    (full (pre ++ e :: es)).retokenize lx src pre.length =
      some ((lx.entry (src.lineText pre.length) (LineLexer.stateBelow pre)).map
        fun e' => full (pre ++ e' :: es)) := by
  have h_slots (e : LineEntry σ) : full (pre ++ e :: es) = full pre ++ some e :: full es :=
    full_append pre (e :: es)
  rw [retokenize, h_slots, stateAbove_full_append, Option.bind_some]
  cases lx.entry (src.lineText pre.length) (LineLexer.stateBelow pre) with
  | error err => rfl
  | ok e' =>
    have h_fill := fill_full_append pre (some e) (full es) e'
    rw [full_append, List.append_assoc] at h_fill
    dsimp only
    rw [h_fill, Except.map, h_slots]
    rfl

theorem drop_lines_eq {src : LineSource} {pre : List (LineEntry σ)}
    (h : pre.length < src.lineCount) :
    src.lines.drop pre.length =
      src.lineText pre.length :: src.lines.drop (pre.length + 1) := by
  have h_line : pre.length < src.lines.length := h
  rw [List.drop_eq_getElem_cons h_line, LineSource.lineText, List.getElem?_eq_getElem h_line]
  rfl

theorem length_resize (slots : Slots σ) (count : Nat) : (slots.resize count).length = count := by
  rw [resize, List.length_append, List.length_take, List.length_replicate]
  omega

theorem resize_append {front : Slots σ} {count : Nat} (h : front.length ≤ count) (back : Slots σ) :
    (front ++ back).resize count = front ++ back.resize (count - front.length) := by
  rw [resize, resize, List.take_append, List.take_of_length_le h, List.length_append,
    List.append_assoc, Nat.sub_add_eq]

theorem getElem?_full_append_last {es : List (LineEntry σ)} {last : Nat}
    (h : es.length = last + 1) (post : Slots σ) :
    ∃ slot, (full es ++ post)[last]? = some slot ∧ endState slot = LineLexer.stateBelow es := by
  obtain ⟨front, e, rfl⟩ : ∃ front e, es = front ++ [e] := by
    rcases List.eq_nil_or_concat es with rfl | ⟨front, e, rfl⟩
    · simp at h
    · exact ⟨front, e, List.concat_eq_append⟩
  have h_front : front.length = last := by simpa using h
  refine ⟨some e, ?_, ?_⟩
  · rw [List.getElem?_append_left (by rw [length_full, h]; omega), getElem?_full, ← h_front,
      List.getElem?_concat_length]
    rfl
  · rw [LineLexer.stateBelow_concat]
    rfl

/-- Lines computed in place, below lines that are all there, are those of a run. -/
theorem retokenizeFrom_eq (lx : LineLexer σ) (src : LineSource) (pre : List (LineEntry σ))
    (mid post : Slots σ) (h : pre.length + mid.length ≤ src.lineCount) :
    retokenizeFrom lx src (full pre ++ mid ++ post) pre.length mid.length =
      some ((lx.run (LineLexer.stateBelow pre)
        ((src.lines.drop pre.length).take mid.length)).result.map
          fun es => full (pre ++ es) ++ post) := by
  induction mid generalizing pre with
  | nil =>
    rw [List.length_nil, List.take_zero, LineLexer.run_nil, List.append_nil, retokenizeFrom]
    show _ = some (Except.ok (full (pre ++ []) ++ post))
    rw [List.append_nil]
  | cons slot mid ih =>
    rw [List.length_cons] at h ⊢
    have h_line : pre.length < src.lineCount := by omega
    rw [retokenizeFrom, retokenize, List.append_assoc, List.cons_append, stateAbove_full_append,
      Option.bind_some, drop_lines_eq h_line, List.take_succ_cons]
    cases h_entry : lx.entry (src.lineText pre.length) (LineLexer.stateBelow pre) with
    | error e =>
      rw [LineLexer.run_cons_of_error h_entry]
      rfl
    | ok e =>
      -- the line is there now, so the rest is computed below one line more
      have h_rest := ih (pre ++ [e]) (by rw [List.length_append, List.length_singleton]; omega)
      rw [List.length_append, List.length_singleton, LineLexer.stateBelow_concat,
        List.append_assoc] at h_rest
      simp only [fill_full_append, Option.map_some]
      rw [h_rest, LineLexer.run_cons_of_ok h_entry]
      cases h_failure : (lx.run e.endState
          ((src.lines.drop (pre.length + 1)).take mid.length)).failure with
      | some err => simp only [LineLexer.Run.result, h_failure, Except.map]
      | none =>
        simp only [LineLexer.Run.result, h_failure, Except.map, List.append_assoc, List.cons_append,
          List.nil_append]

/-! ## All lines -/

/-- Computes all lines, from empty slots. -/
def parse (lx : LineLexer σ) (src : LineSource) : Option (Except TokenizeError (Slots σ)) :=
  retokenizeFrom lx src (List.replicate src.lineCount none) 0 src.lineCount

/-- What is left after a failure: lines without a grammar, or none if that fails too. -/
def settle (lx : LineLexer σ) (src : LineSource) : Option (Slots σ) :=
  (parse { lx with grammar := none } src).map fun
    | .ok slots => slots
    | .error _ => []

/-- Computes all lines, and settles after a failure. -/
def parseAll (lx : LineLexer σ) (src : LineSource) : Option (Slots σ) :=
  (parse lx src).bind fun
    | .ok slots => some slots
    | .error _ => settle lx src

/-- Looks the grammar up and computes all lines. -/
def refresh (c : TokenCache σ) (registry : Registry (Grammar σ)) (src : LineSource) :
    Option (Slots σ) :=
  let c' := { c with
    language := src.language
    languageId := registry.languages.idOf src.language
    grammar := none }
  match registry.languages.scopeNameOf src.language with
  | none => parseAll (c'.lexer registry.languages) src
  | some scope =>
    match registry.loadGrammar scope with
    | (.error _, registry') => settle (c'.lexer registry'.languages) src
    | (.ok grammar, registry') =>
      parseAll (TokenCache.lexer { c' with grammar := grammar } registry'.languages) src

theorem parse_eq (lx : LineLexer σ) (src : LineSource) :
    parse lx src = some ((lx.run none src.lines).result.map full) := by
  have h := retokenizeFrom_eq lx src [] (List.replicate src.lineCount none) []
    (by rw [List.length_nil, List.length_replicate]; omega)
  have h_all : (src.lines.drop 0).take src.lineCount = src.lines := by
    rw [List.drop_zero, LineSource.lineCount, List.take_length]
  rw [List.length_replicate, List.append_nil, List.length_nil, h_all] at h
  rw [parse]
  refine h.trans ?_
  simp only [List.nil_append, List.append_nil]
  rfl

/-- Without a grammar, each line of a run gets its default tokens, and a line that has none fails
    the run. -/
theorem result_run_of_grammar_none {lx : LineLexer σ} (h : lx.grammar = none) (above : Option σ)
    (texts : List String) :
    (lx.run above texts).result =
      texts.mapM fun text => LineEntry.ofDefault text lx.language .plain := by
  induction texts generalizing above with
  | nil => rfl
  | cons t ts ih =>
    -- without a grammar a line does not look at the state above it
    have h_entry := LineLexer.entry_of_grammar_none h t above
    rw [List.mapM_cons]
    cases h_default : (LineEntry.ofDefault t lx.language .plain : Except _ (LineEntry σ)) with
    | error err =>
      rw [LineLexer.run_cons_of_error (h_entry.trans h_default)]
      rfl
    | ok e =>
      rw [LineLexer.run_cons_of_ok (h_entry.trans h_default), ← ih e.endState]
      cases h_failure : (lx.run e.endState ts).failure with
      | none =>
        simp only [LineLexer.Run.result, h_failure]
        rfl
      | some err =>
        simp only [LineLexer.Run.result, h_failure]
        rfl

/-- Settling in place leaves the slots that `degrade` leaves. -/
theorem settle_eq {lx : LineLexer σ} {c : TokenCache σ} (h : lx.language = c.languageId)
    (src : LineSource) : settle lx src = some (full (c.degrade src).lines) := by
  have h_none : ({ lx with grammar := none } : LineLexer σ).grammar = none := rfl
  rw [settle, parse_eq, result_run_of_grammar_none h_none, TokenCache.degrade,
    TokenCache.defaultLines, ← h, Option.map_some]
  dsimp only
  cases src.lines.mapM fun text => LineEntry.ofDefault text lx.language .plain <;> rfl

theorem parseAll_eq (c : TokenCache σ) (registry : Registry (Grammar σ)) (src : LineSource) :
    parseAll (c.lexer registry.languages) src =
      some (full (c.parseAll registry src).cache.lines) := by
  rw [parseAll, parse_eq, LineLexer.Run.result, TokenCache.parseAll]
  cases h_failure : ((c.lexer registry.languages).run none src.lines).failure with
  | none => rfl
  | some e => exact settle_eq rfl src

/-- Refreshing in place makes no access outside of the slots, and fills them all. -/
theorem refresh_eq (c : TokenCache σ) (registry : Registry (Grammar σ)) (src : LineSource) :
    refresh c registry src = some (full (c.refresh registry src).cache.lines) := by
  unfold refresh TokenCache.refresh
  dsimp only
  cases registry.languages.scopeNameOf src.language with
  | none => exact parseAll_eq { c.worked .refresh with
      language := src.language
      languageId := registry.languages.idOf src.language
      grammar := none } registry src
  | some scope =>
    dsimp only
    cases registry.loadGrammar scope with
    | mk answer registry' =>
      cases answer with
      | error e => exact settle_eq rfl src
      | ok grammar => exact parseAll_eq { c.worked .refresh with
          language := src.language
          languageId := registry.languages.idOf src.language
          grammar := grammar } registry' src

theorem refresh_congr {c c' : TokenCache σ} (h : TokenCache.SameSettings c c')
    (registry : Registry (Grammar σ)) (src : LineSource) :
    refresh c registry src = refresh c' registry src := by
  simp only [refresh, TokenCache.lexer, h.config]

/-! ## Edits -/

/-- What following changes in place comes to. -/
inductive Outcome (σ : Type) where
  | absorbed (slots : Slots σ)
  | cascaded (slots : Slots σ)
  | outdated
  | failed (e : TokenizeError)

/-- The same of a cache. -/
def Outcome.of : EditOutcome σ → Outcome σ
  | .absorbed c => .absorbed (full c.lines)
  | .cascaded _ c => .cascaded (full c.lines)
  | .outdated _ => .outdated
  | .failed e _ => .failed e

variable [DecidableEq σ]

/-- Computes the lines below a change, once its own lines are there, if they cannot stay. The state
    that the last of the replaced lines ended in is `recorded`. -/
def cascade (lx : LineLexer σ) (src : LineSource) (t : TouchedLines) (slots : Slots σ)
    (recorded : Option σ) : Option (Outcome σ) :=
  slots[t.last]?.bind fun redone =>
    if lx.grammar.isSome && (t.last != t.stop || endState redone != recorded) then
      (retokenizeFrom lx src (slots.resize src.lineCount) (t.last + 1)
          (src.lineCount - (t.last + 1))).map fun
        | .error e => .failed e
        | .ok slots' => .cascaded slots'
    else some (.absorbed slots)

/-- Follows one change: makes room for its lines, computes them, and those below if need be. -/
def follow (lx : LineLexer σ) (src : LineSource) (t : TouchedLines) (slots : Slots σ) :
    Option (Outcome σ) :=
  if slots.length ≤ t.stop ∨ src.lineCount ≤ t.last then some .outdated
  else
    slots[t.stop]?.bind fun replaced =>
      (slots.splice t.start t.stop (List.replicate (t.last + 1 - t.start) none)).bind fun spliced =>
        (retokenizeFrom lx src spliced t.start (t.last + 1 - t.start)).bind fun
          | .error e => some (.failed e)
          | .ok slots' => cascade lx src t slots' (endState replaced)

/-- Follows the changes of a sorted batch. -/
def followAll (lx : LineLexer σ) (src : LineSource) (shift : Int) (slots : Slots σ) :
    List TextChange → Option (Outcome σ)
  | [] => if slots.length = src.lineCount then some (.absorbed slots) else some .outdated
  | change :: changes =>
    let t := TouchedLines.ofChange change shift
    match follow lx src t slots with
    | some (.absorbed slots') => followAll lx src (shift + t.delta) slots' changes
    | r => r

/-- Follows a batch of changes, and does everything anew or settles if that comes to nothing. -/
def onEdit (c : TokenCache σ) (registry : Registry (Grammar σ)) (src : LineSource)
    (changes : List TextChange) : Option (Slots σ) :=
  (followAll (c.lexer registry.languages) src 0 (full c.lines)
      (TextChange.sortByStart changes)).bind fun
    | .absorbed slots => some slots
    | .cascaded slots => some slots
    | .outdated => refresh c registry src
    | .failed _ => settle (c.lexer registry.languages) src

theorem cascade_eq {lx : LineLexer σ} {src : LineSource} {t : TouchedLines}
    {es : List (LineEntry σ)} (h_length : es.length = t.last + 1) (h_last : t.last < src.lineCount)
    (post : Slots σ) (recorded : Option σ) :
    cascade lx src t (full es ++ post) recorded =
      some (if lx.grammar.isSome && (t.last != t.stop || LineLexer.stateBelow es != recorded) then
          match (lx.run (LineLexer.stateBelow es) (src.lines.drop (t.last + 1))).result with
          | .error e => .failed e
          | .ok below => .cascaded (full (es ++ below))
        else .absorbed (full es ++ post)) := by
  obtain ⟨slot, h_slot, h_state⟩ := getElem?_full_append_last h_length post
  rw [cascade, h_slot, Option.bind_some, h_state]
  split
  -- the slots below are cut off or added to, and all computed anew, whatever they held
  · have h_full : (full es).length = t.last + 1 := by rw [length_full, h_length]
    have h_below := length_resize post (src.lineCount - (t.last + 1))
    have h_run := retokenizeFrom_eq lx src es (post.resize (src.lineCount - (t.last + 1))) []
      (by rw [h_below, h_length]; omega)
    have h_texts : (src.lines.drop (t.last + 1)).take (src.lineCount - (t.last + 1)) =
        src.lines.drop (t.last + 1) :=
      List.take_of_length_le (by rw [List.length_drop]; exact Nat.le_refl _)
    rw [h_below, h_length, List.append_nil, h_texts] at h_run
    rw [resize_append (by omega), h_full, h_run, Option.map_some]
    cases (lx.run (LineLexer.stateBelow es) (src.lines.drop (t.last + 1))).result with
    | error e => rfl
    | ok below =>
      simp only [Except.map, List.append_nil]
  · rfl

/-- Following a change in place makes no access outside of the slots. -/
theorem follow_eq (c : TokenCache σ) (lx : LineLexer σ) (src : LineSource) {t : TouchedLines}
    (h_stop : t.start ≤ t.stop) (h_start : t.start ≤ t.last) :
    follow lx src t (full c.lines) = some (.of (c.follow lx src t)) := by
  unfold follow TokenCache.follow
  cases h_get : c.lines[t.stop]? with
  | none =>
    rw [if_pos (.inl ((length_full c.lines).trans_le (List.getElem?_eq_none_iff.1 h_get)))]
    rfl
  | some replaced =>
    obtain ⟨h_lt, -⟩ := List.getElem?_eq_some_iff.1 h_get
    dsimp only
    by_cases h_last : src.lineCount ≤ t.last
    · rw [if_pos (.inr h_last), if_pos h_last]
      rfl
    · have h_fits : ¬ ((full c.lines).length ≤ t.stop ∨ src.lineCount ≤ t.last) := by
        rw [length_full]
        omega
      have h_splice := splice_full (Nat.le_succ_of_le h_stop) h_lt
        (List.replicate (t.last + 1 - t.start) none)
      -- the empty slots are filled below lines that are all there
      have h_above : (c.lines.take t.start).length = t.start :=
        List.length_take_of_le (by omega)
      have h_run := retokenizeFrom_eq lx src (c.lines.take t.start)
        (List.replicate (t.last + 1 - t.start) none) (full (c.lines.drop (t.stop + 1)))
        (by rw [h_above, List.length_replicate]; omega)
      rw [h_above, List.length_replicate] at h_run
      rw [if_neg h_fits, if_neg h_last, getElem?_full, h_get, Option.map_some, Option.bind_some,
        h_splice, Option.bind_some, h_run, Option.bind_some]
      cases h_redo : lx.run (LineLexer.stateBelow (c.lines.take t.start))
          ((src.lines.drop t.start).take (t.last + 1 - t.start)) with
      | mk redone failure =>
        cases failure with
        | some err => rfl
        | none =>
          have h_redone : TokenCache.Redone c lx src t replaced redone :=
            ⟨h_get, Nat.not_le.1 h_last, h_redo⟩
          have h_state := h_redone.stateAfter h_start
          rw [LineLexer.stateAfter_none] at h_state
          have h_length : (c.lines.take t.start ++ redone).length = t.last + 1 := by
            rw [List.length_append, h_above, h_redone.length_eq]
            omega
          show cascade lx src t _ _ = _
          have h_recorded : endState (some replaced) = replaced.endState := rfl
          rw [cascade_eq h_length h_redone.last, h_state, h_recorded]
          dsimp only
          by_cases h_moves : (lx.grammar.isSome && (t.last != t.stop ||
              LineLexer.stateBelow redone != replaced.endState)) = true
          · rw [if_pos h_moves, if_pos h_moves]
            cases h_below : lx.run (LineLexer.stateBelow redone) (src.lines.drop (t.last + 1)) with
            | mk below failure =>
              cases failure with
              | some err => rfl
              | none => rfl
          · rw [if_neg h_moves, if_neg h_moves, ← full_append]
            rfl

/-- Following the changes of a sorted batch in place. -/
theorem followAll_eq (c : TokenCache σ) (lx : LineLexer σ) (src : LineSource) (shift : Int)
    {changes : List TextChange} (h : ∀ c ∈ changes, c.range.start ≤ c.range.stop) :
    followAll lx src shift (full c.lines) changes =
      some (.of (TokenCache.followAll lx src shift c changes)) := by
  induction changes generalizing shift c with
  | nil =>
    rw [followAll, TokenCache.followAll, length_full, TokenCache.lineCount]
    split <;> rfl
  | cons change changes ih =>
    have h_first := follow_eq c lx src (TouchedLines.start_le_stop_ofChange
      (h change List.mem_cons_self) shift) (TouchedLines.start_le_last_ofChange change shift)
    rw [followAll, TokenCache.followAll, h_first]
    cases c.follow lx src (.ofChange change shift) with
    | absorbed c' => exact ih c' _ fun d h_d => h d (List.mem_cons_of_mem change h_d)
    | cascaded line c' => rfl
    | outdated c' => rfl
    | failed e c' => rfl

/-- Following an edit in place makes no access outside of the slots, and leaves none empty. -/
theorem onEdit_eq (c : TokenCache σ) (registry : Registry (Grammar σ)) (src : LineSource)
    (changes : List TextChange) :
    onEdit c registry src changes = some (full (c.onEdit registry src changes).cache.lines) := by
  have h_settings := TokenCache.settings_followAll (c.lexer registry.languages) src 0 c
    (TextChange.sortByStart changes)
  have h_range : ∀ c ∈ TextChange.sortByStart changes, c.range.start ≤ c.range.stop :=
    fun _ h_c => TextChange.start_le_stop_of_mem_sortByStart h_c
  rw [onEdit, followAll_eq c _ src 0 h_range, Option.bind_some, TokenCache.onEdit]
  cases h_follow : TokenCache.followAll (c.lexer registry.languages) src 0 c
      (TextChange.sortByStart changes) with
  | absorbed c' => rfl
  | cascaded line c' => rfl
  | outdated c' =>
    rw [h_follow] at h_settings
    exact (refresh_congr h_settings registry src).trans (refresh_eq c' registry src)
  -- settling depends on the language alone, which following leaves as it is
  | failed e c' =>
    rw [h_follow] at h_settings
    exact settle_eq h_settings.languageId.symm src

end Slots

end ScopeTokens
