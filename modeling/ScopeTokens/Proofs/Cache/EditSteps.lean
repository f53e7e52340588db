/-
  ScopeTokens.Proofs.Cache.EditSteps

  What `follow` does for one change, `followAll` for a batch, and `onEdit` for an
  edit, one case per outcome. New lines are chained to the entries above them, and
  the entries below stay only if the state handed down to them is the one that
  they were computed from. So the entries stay chained for any changes
  (`Edited.consistent`), and the texts of the cache are those that `replay`
  computes.
-/

import ScopeTokens.Proofs.Cache.InStep
import ScopeTokens.Proofs.Cache.Replay

namespace ScopeTokens

namespace TokenCache

variable {σ : Type}

/-- `c` and `c'` agree on all that entries are computed from, and on being degraded. -/
structure SameSettings (c c' : TokenCache σ) : Prop where
  config : c'.config = c.config
  languageId : c'.languageId = c.languageId
  grammar : c'.grammar = c.grammar
  degraded : c'.degraded = c.degraded

namespace SameSettings

variable {c c' c'' : TokenCache σ}

theorem refl (c : TokenCache σ) : SameSettings c c := ⟨rfl, rfl, rfl, rfl⟩

theorem trans (h : SameSettings c c') (h' : SameSettings c' c'') : SameSettings c c'' :=
  ⟨h'.config.trans h.config, h'.languageId.trans h.languageId, h'.grammar.trans h.grammar,
    h'.degraded.trans h.degraded⟩

theorem lexer_eq (h : SameSettings c c') (languages : LanguageTable) :
    c'.lexer languages = c.lexer languages := by
  rw [lexer, lexer, h.config, h.languageId, h.grammar]

theorem touch (c : TokenCache σ) (r : LineRange) : SameSettings c (c.touch r) :=
  ⟨rfl, rfl, rfl, rfl⟩

theorem splice (c : TokenCache σ) (t : TouchedLines) (redone : LineLexer.Run σ) :
    SameSettings c (c.splice t redone) :=
  ⟨rfl, rfl, rfl, rfl⟩

theorem cascade (c : TokenCache σ) (src : LineSource) (t : TouchedLines)
    (redone below : LineLexer.Run σ) : SameSettings c (c.cascade src t redone below) := by
  constructor <;> simp only [TokenCache.cascade, worked, TokenCache.touch, TokenCache.splice]

end SameSettings

/-- The lines of `t` exist in the cache and in the document, `replaced` is the last cached one, and
    a run over the document's lines succeeds with `redone`. -/
structure Redone (c : TokenCache σ) (lx : LineLexer σ) (src : LineSource) (t : TouchedLines)
    (replaced : LineEntry σ) (redone : List (LineEntry σ)) : Prop where
  stop : c.lines[t.stop]? = some replaced
  last : t.last < src.lineCount
  run : lx.run (LineLexer.stateBelow (c.lines.take t.start))
    ((src.lines.drop t.start).take (t.last + 1 - t.start)) = ⟨redone, none⟩

namespace Redone

variable {c : TokenCache σ} {lx : LineLexer σ} {src : LineSource} {t : TouchedLines}
  {replaced : LineEntry σ} {redone : List (LineEntry σ)}

theorem map_text (h : Redone c lx src t replaced redone) :
    redone.map LineEntry.text = (src.lines.drop t.start).take (t.last + 1 - t.start) := by
  have h_text := LineLexer.map_text_run_of_ok (congrArg LineLexer.Run.failure h.run)
  rwa [h.run] at h_text

theorem length_eq (h : Redone c lx src t replaced redone) :
    redone.length = t.last + 1 - t.start := by
  have h_last : t.last < src.lines.length := h.last
  have h_length := congrArg List.length h.map_text
  rw [List.length_map, List.length_take, List.length_drop] at h_length
  omega

theorem ne_nil (h : Redone c lx src t replaced redone) (h_start : t.start ≤ t.last) :
    redone ≠ [] := by
  intro h_nil
  have h_length := h.length_eq
  rw [h_nil, List.length_nil] at h_length
  omega

theorem chained (h : Redone c lx src t replaced redone) :
    LineLexer.Chained lx (LineLexer.stateBelow (c.lines.take t.start)) redone := by
  have h_chain := LineLexer.chained_run lx (LineLexer.stateBelow (c.lines.take t.start))
    ((src.lines.drop t.start).take (t.last + 1 - t.start))
  rwa [h.run] at h_chain

/-- The new entries continue the chain of those above them. -/
theorem chained_append (h : Redone c lx src t replaced redone)
    (h_chain : LineLexer.Chained lx none c.lines) :
    LineLexer.Chained lx none (c.lines.take t.start ++ redone) := by
  rw [← List.take_append_drop t.start c.lines] at h_chain
  refine LineLexer.chained_append.2 ⟨(LineLexer.chained_append.1 h_chain).1, ?_⟩
  rw [LineLexer.stateAfter_none]
  exact h.chained

theorem stateAfter (h : Redone c lx src t replaced redone) (h_start : t.start ≤ t.last) :
    LineLexer.stateAfter none (c.lines.take t.start ++ redone) = LineLexer.stateBelow redone := by
  rw [LineLexer.stateAfter_append, LineLexer.stateAfter_of_ne_nil _ (h.ne_nil h_start)]

/-- The entries below are chained from the end state of `replaced`. -/
theorem chained_drop (h : Redone c lx src t replaced redone)
    (h_chain : LineLexer.Chained lx none c.lines) :
    LineLexer.Chained lx replaced.endState (c.lines.drop (t.stop + 1)) := by
  obtain ⟨h_lt, h_get⟩ := List.getElem?_eq_some_iff.1 h.stop
  -- cut behind the last of the replaced lines, whose state is what is handed down
  rw [← List.take_append_drop (t.stop + 1) c.lines] at h_chain
  have h_below := (LineLexer.chained_append.1 h_chain).2
  rwa [List.take_succ_eq_append_getElem h_lt, h_get, LineLexer.stateAfter_concat] at h_below

/-- `splice` patches the texts of the cache. -/
theorem texts_splice (h : Redone c lx src t replaced redone) :
    (c.splice t ⟨redone, none⟩).texts = t.patch src.lines c.texts := by
  simp only [texts, splice, TouchedLines.patch, List.map_append, List.map_take, List.map_drop,
    h.map_text]

theorem lineCount_splice (h : Redone c lx src t replaced redone) (h_stop : t.start ≤ t.stop)
    (h_last : t.start ≤ t.last) :
    ((c.splice t ⟨redone, none⟩).lineCount : Int) = c.lineCount + t.delta := by
  obtain ⟨h_lt, -⟩ := List.getElem?_eq_some_iff.1 h.stop
  simp only [lineCount, splice, List.length_append, List.length_take, List.length_drop,
    TouchedLines.delta, h.length_eq]
  omega

/-- `splice` keeps the chain if the entries below can stay: same number of lines, and same state
    handed down. Without a grammar they always can. -/
theorem chained_splice (h : Redone c lx src t replaced redone) (h_last : t.start ≤ t.last)
    (h_chain : LineLexer.Chained lx none c.lines)
    (h_stays : lx.grammar.isSome → t.last = t.stop ∧
      LineLexer.stateBelow redone = replaced.endState) :
    LineLexer.Chained lx none (c.splice t ⟨redone, none⟩).lines := by
  refine LineLexer.chained_append.2 ⟨h.chained_append h_chain, ?_⟩
  rw [h.stateAfter h_last]
  cases h_grammar : lx.grammar with
  -- without a grammar the states do not matter, so the lines below stay unasked
  | none => exact (h.chained_drop h_chain).of_grammar_none h_grammar _
  | some g =>
    rw [(h_stays (by rw [h_grammar]; rfl)).2]
    exact h.chained_drop h_chain

/-! ## With the lines below -/

variable {below : List (LineEntry σ)}

theorem lines_cascade (c : TokenCache σ) (src : LineSource) (t : TouchedLines)
    (redone below : LineLexer.Run σ) :
    (c.cascade src t redone below).lines =
      c.lines.take t.start ++ redone.entries ++ below.entries := rfl

theorem texts_cascade (h : Redone c lx src t replaced redone) (h_last : t.start ≤ t.last)
    (h_below : lx.run (LineLexer.stateBelow redone) (src.lines.drop (t.last + 1)) = ⟨below, none⟩) :
    (c.cascade src t ⟨redone, none⟩ ⟨below, none⟩).texts =
      c.texts.take t.start ++ src.lines.drop t.start := by
  have h_text := LineLexer.map_text_run_of_ok (congrArg LineLexer.Run.failure h_below)
  rw [h_below] at h_text
  have h_split : t.start + (t.last + 1 - t.start) = t.last + 1 := by omega
  -- the lines of the change and those below it are all the live lines from its start on
  have h_live := List.take_append_drop (t.last + 1 - t.start) (src.lines.drop t.start)
  rw [List.drop_drop, h_split, ← h.map_text, ← h_text] at h_live
  rw [texts, lines_cascade, List.map_append, List.map_append, List.map_take, List.append_assoc,
    h_live]
  rfl

theorem chained_cascade (h : Redone c lx src t replaced redone) (h_last : t.start ≤ t.last)
    (h_chain : LineLexer.Chained lx none c.lines)
    (h_below : lx.run (LineLexer.stateBelow redone) (src.lines.drop (t.last + 1)) = ⟨below, none⟩) :
    LineLexer.Chained lx none (c.cascade src t ⟨redone, none⟩ ⟨below, none⟩).lines := by
  rw [lines_cascade]
  refine LineLexer.chained_append.2 ⟨h.chained_append h_chain, ?_⟩
  rw [h.stateAfter h_last]
  have h_run := LineLexer.chained_run lx (LineLexer.stateBelow redone) (src.lines.drop (t.last + 1))
  rwa [h_below] at h_run

end Redone

/-! ## What changes come to -/

/-- What absorbing `changes` does to a cache with chained entries. The texts are those of
    `replay`. -/
structure Absorbed (c : TokenCache σ) (lx : LineLexer σ) (src : LineSource) (shift : Int)
    (changes : List TextChange) (shift' : Int) (c' : TokenCache σ) : Prop where
  settings : SameSettings c c'
  chained : LineLexer.Chained lx none c'.lines
  texts : (shift', c'.texts) = TouchedLines.replay src.lines (shift, c.texts) changes
  lineCount : (∀ change ∈ changes, change.range.start ≤ change.range.stop) →
    (c'.lineCount : Int) - shift' = c.lineCount - shift

variable {lx : LineLexer σ} {src : LineSource} {shift shift' : Int} {c c' : TokenCache σ}
  {change : TextChange} {changes before after : List TextChange}

theorem Absorbed.trans {shift₁ shift₂ : Int} {c₁ c₂ : TokenCache σ}
    (h : Absorbed c lx src shift before shift₁ c₁)
    (h' : Absorbed c₁ lx src shift₁ after shift₂ c₂) :
    Absorbed c lx src shift (before ++ after) shift₂ c₂ where
  settings := h.settings.trans h'.settings
  chained := h'.chained
  texts := by
    rw [h'.texts, h.texts, TouchedLines.replay, TouchedLines.replay, TouchedLines.replay,
      List.foldl_append]
  lineCount h_range := by
    have h_before := h.lineCount fun change h_mem => h_range change (List.mem_append_left _ h_mem)
    have h_after := h'.lineCount fun change h_mem => h_range change (List.mem_append_right _ h_mem)
    omega

variable [DecidableEq σ]

/-! ## One change -/

/-- What `follow` can come to. -/
inductive Followed (c : TokenCache σ) (lx : LineLexer σ) (src : LineSource) (t : TouchedLines) :
    EditOutcome σ → Prop
  /-- The lines of `t` are not all there, in the cache or in the document. -/
  | outdated (h : c.lineCount ≤ t.stop ∨ src.lineCount ≤ t.last) : Followed c lx src t (.outdated c)
  /-- A line of the document, from `t.start` on, could not be computed. -/
  | failed (err : TokenizeError) {c' : TokenCache σ} (h : SameSettings c c')
    (h_run : t.start ≤ t.last →
      (lx.run (LineLexer.stateBelow (c.lines.take t.start))
        (src.lines.drop t.start)).failure = some err) :
    Followed c lx src t (.failed err c')
  /-- The number of lines and the state below them stay as they were, or there is no grammar. -/
  | absorbed {replaced : LineEntry σ} {redone : List (LineEntry σ)}
    (h : Redone c lx src t replaced redone)
    (h_stays : lx.grammar.isSome → t.last = t.stop ∧
      LineLexer.stateBelow redone = replaced.endState) :
    Followed c lx src t (.absorbed ((c.splice t ⟨redone, none⟩).touch ⟨t.start, t.last + 1⟩))
  /-- Otherwise the lines below `t` are computed anew as well. -/
  | cascaded {replaced : LineEntry σ} {redone below : List (LineEntry σ)}
    (h : Redone c lx src t replaced redone) (h_grammar : lx.grammar.isSome)
    (h_moves : t.last ≠ t.stop ∨ LineLexer.stateBelow redone ≠ replaced.endState)
    (h_below : lx.run (LineLexer.stateBelow redone) (src.lines.drop (t.last + 1)) = ⟨below, none⟩) :
    Followed c lx src t (.cascaded t.start (c.cascade src t ⟨redone, none⟩ ⟨below, none⟩))

theorem followed_follow (c : TokenCache σ) (lx : LineLexer σ) (src : LineSource)
    (t : TouchedLines) : Followed c lx src t (c.follow lx src t) := by
  unfold follow
  cases h_stop : c.lines[t.stop]? with
  | none => exact .outdated (.inl (List.getElem?_eq_none_iff.1 h_stop))
  | some replaced =>
    dsimp only
    by_cases h_last : src.lineCount ≤ t.last
    · rw [if_pos h_last]
      exact .outdated (.inr h_last)
    · rw [if_neg h_last]
      cases h_run : lx.run (LineLexer.stateBelow (c.lines.take t.start))
          ((src.lines.drop t.start).take (t.last + 1 - t.start)) with
      | mk redone failure =>
        cases failure with
        | some err =>
          refine .failed err (.splice c t _) fun _ => ?_
          have h_failure := LineLexer.failure_run_append_of_some
            (congrArg LineLexer.Run.failure h_run)
            ((src.lines.drop t.start).drop (t.last + 1 - t.start))
          rwa [List.take_append_drop] at h_failure
        | none =>
          have h_redone : Redone c lx src t replaced redone := ⟨h_stop, Nat.not_le.1 h_last, h_run⟩
          dsimp only
          -- the test on the state below the change
          split
          · rename_i h_moves
            simp only [Bool.and_eq_true, Bool.or_eq_true, bne_iff_ne] at h_moves
            cases h_below : lx.run (LineLexer.stateBelow redone) (src.lines.drop (t.last + 1)) with
            | mk below failure =>
              cases failure with
              | some err =>
                refine .failed err (.cascade c src t _ _) fun h_start => ?_
                -- the lines of the change are computed, so the failure is the one below them
                have h_failure := LineLexer.failure_run_append_of_ok h_run
                  ((src.lines.drop t.start).drop (t.last + 1 - t.start))
                have h_split : t.start + (t.last + 1 - t.start) = t.last + 1 := by omega
                rw [List.take_append_drop, List.drop_drop, h_split,
                  LineLexer.stateAfter_of_ne_nil _ (h_redone.ne_nil h_start), h_below] at h_failure
                exact h_failure
              | none => exact .cascaded h_redone h_moves.1 h_moves.2 h_below
          · rename_i h_stays
            refine .absorbed h_redone ?_
            intro h_grammar
            simpa [h_grammar] using h_stays

theorem settings_follow (c : TokenCache σ) (lx : LineLexer σ) (src : LineSource)
    (t : TouchedLines) : SameSettings c (c.follow lx src t).cache := by
  have h_followed := followed_follow c lx src t
  generalize c.follow lx src t = outcome at h_followed
  cases h_followed with
  | outdated h => exact .refl c
  | failed err h h_run => exact h
  | absorbed h h_stays => exact (SameSettings.splice c t _).trans (.touch _ _)
  | cascaded h h_grammar h_moves h_below => exact .cascade c src t _ _

theorem absorbed_of_follow (h_chain : LineLexer.Chained lx none c.lines)
    (h : c.follow lx src (.ofChange change shift) = .absorbed c') :
    Absorbed c lx src shift [change] (shift + (TouchedLines.ofChange change shift).delta) c' := by
  have h_followed := followed_follow c lx src (.ofChange change shift)
  rw [h] at h_followed
  cases h_followed with
  | absorbed h_redone h_stays =>
    have h_last := TouchedLines.start_le_last_ofChange change shift
    refine ⟨(SameSettings.splice c _ _).trans (.touch _ _),
      h_redone.chained_splice h_last h_chain h_stays, ?_, ?_⟩
    · exact congrArg (Prod.mk _) h_redone.texts_splice
    -- marking the lines as touched leaves their number alone
    · intro h_range
      have h_stop := TouchedLines.start_le_stop_ofChange
        (h_range change List.mem_cons_self) shift
      have h_count := h_redone.lineCount_splice h_stop h_last
      show ((c.splice _ _).lineCount : Int) - _ = _
      omega

/-- A change that cascades keeps the cached lines above it, and has the document's below. -/
theorem cascaded_of_follow {line : Nat} (h_chain : LineLexer.Chained lx none c.lines)
    (h : c.follow lx src (.ofChange change shift) = .cascaded line c') :
    SameSettings c c' ∧ LineLexer.Chained lx none c'.lines ∧
      c'.texts = c.texts.take (TouchedLines.ofChange change shift).start ++
        src.lines.drop (TouchedLines.ofChange change shift).start := by
  have h_followed := followed_follow c lx src (.ofChange change shift)
  rw [h] at h_followed
  cases h_followed with
  | cascaded h_redone h_grammar h_moves h_below =>
    have h_last := TouchedLines.start_le_last_ofChange change shift
    exact ⟨.cascade c src _ _ _, h_redone.chained_cascade h_last h_chain h_below,
      h_redone.texts_cascade h_last h_below⟩

/-- A change that cascades leaves as many entries as the document has lines. -/
theorem lineCount_of_cascaded {line : Nat} (h_range : change.range.start ≤ change.range.stop)
    (h : c.follow lx src (.ofChange change shift) = .cascaded line c') :
    c'.lineCount = src.lineCount := by
  have h_followed := followed_follow c lx src (.ofChange change shift)
  rw [h] at h_followed
  cases h_followed with
  | cascaded h_redone h_grammar h_moves h_below =>
    have h_last := TouchedLines.start_le_last_ofChange change shift
    have h_stop := TouchedLines.start_le_stop_ofChange h_range shift
    obtain ⟨h_lt, -⟩ := List.getElem?_eq_some_iff.1 h_redone.stop
    have h_live : _ < src.lines.length := h_redone.last
    rw [← length_texts, h_redone.texts_cascade h_last h_below, List.length_append, List.length_take,
      List.length_drop, length_texts, lineCount, LineSource.lineCount]
    omega

/-! ## Several changes -/

/-- The shift and the cache after `changes`, if each of them is absorbed. -/
def absorbAll (lx : LineLexer σ) (src : LineSource) (shift : Int) (c : TokenCache σ) :
    List TextChange → Option (Int × TokenCache σ)
  | [] => some (shift, c)
  | change :: changes =>
    match c.follow lx src (.ofChange change shift) with
    | .absorbed c' =>
      absorbAll lx src (shift + (TouchedLines.ofChange change shift).delta) c' changes
    | _ => none

/-- The changes `before` are absorbed, and then `change` cascades. -/
def CascadesAt (lx : LineLexer σ) (src : LineSource) (c : TokenCache σ)
    (before : List TextChange) (change : TextChange) : Prop :=
  ∃ shift c' line c'', absorbAll lx src 0 c before = some (shift, c') ∧
    c'.follow lx src (.ofChange change shift) = .cascaded line c''

theorem absorbAll_cons_of_absorbed (changes : List TextChange)
    (h : c.follow lx src (.ofChange change shift) = .absorbed c') :
    absorbAll lx src shift c (change :: changes) =
      absorbAll lx src (shift + (TouchedLines.ofChange change shift).delta) c' changes := by
  rw [absorbAll, h]

theorem follow_of_absorbAll_cons {r : Int × TokenCache σ}
    (h : absorbAll lx src shift c (change :: changes) = some r) :
    ∃ c', c.follow lx src (.ofChange change shift) = .absorbed c' ∧
      absorbAll lx src (shift + (TouchedLines.ofChange change shift).delta) c' changes =
        some r := by
  rw [absorbAll] at h
  cases h_follow : c.follow lx src (.ofChange change shift) with
  | absorbed c' =>
    rw [h_follow] at h
    exact ⟨c', rfl, h⟩
  | cascaded line c' => simp [h_follow] at h
  | outdated c' => simp [h_follow] at h
  | failed err c' => simp [h_follow] at h

theorem absorbed_of_absorbAll (h_chain : LineLexer.Chained lx none c.lines)
    (h : absorbAll lx src shift c changes = some (shift', c')) :
    Absorbed c lx src shift changes shift' c' := by
  induction changes generalizing shift c with
  | nil =>
    obtain ⟨rfl, rfl⟩ := Prod.mk.inj (Option.some.inj h)
    exact ⟨.refl c, h_chain, rfl, fun _ => rfl⟩
  | cons change changes ih =>
    obtain ⟨c₁, h_follow, h_rest⟩ := follow_of_absorbAll_cons h
    have h_first := absorbed_of_follow h_chain h_follow
    exact h_first.trans (ih h_first.chained h_rest)

theorem followAll_nil (lx : LineLexer σ) (src : LineSource) (shift : Int) (c : TokenCache σ) :
    followAll lx src shift c [] =
      if c.lineCount = src.lineCount then .absorbed c else .outdated c := rfl

theorem followAll_cons_of_absorbed (changes : List TextChange)
    (h : c.follow lx src (.ofChange change shift) = .absorbed c') :
    followAll lx src shift c (change :: changes) =
      followAll lx src (shift + (TouchedLines.ofChange change shift).delta) c' changes := by
  rw [followAll, h]

/-- The first change that is not absorbed decides the outcome. -/
theorem followAll_cons_of_not_absorbed (changes : List TextChange)
    (h : ∀ c', c.follow lx src (.ofChange change shift) ≠ .absorbed c') :
    followAll lx src shift c (change :: changes) = c.follow lx src (.ofChange change shift) := by
  rw [followAll]
  split
  · rename_i c' h_follow
    exact absurd h_follow (h c')
  · rfl

/-- Absorbed changes leave the rest of the batch to be followed. -/
theorem followAll_append (h : absorbAll lx src shift c before = some (shift', c')) :
    followAll lx src shift c (before ++ changes) = followAll lx src shift' c' changes := by
  induction before generalizing shift c with
  | nil =>
    obtain ⟨rfl, rfl⟩ := Prod.mk.inj (Option.some.inj h)
    rfl
  | cons change before ih =>
    obtain ⟨c₁, h_follow, h_rest⟩ := follow_of_absorbAll_cons h
    rw [List.cons_append, followAll_cons_of_absorbed _ h_follow]
    exact ih h_rest

/-- What `follow` keeps of a cache, `followAll` keeps. -/
theorem followAll_preserves {P : TokenCache σ → Prop}
    (h_step : ∀ (c : TokenCache σ) (t : TouchedLines), P c → P (c.follow lx src t).cache)
    (shift : Int) (changes : List TextChange) (h : P c) :
    P (followAll lx src shift c changes).cache := by
  induction changes generalizing shift c with
  | nil =>
    rw [followAll_nil]
    split <;> exact h
  | cons change changes ih =>
    have h_first := h_step c (.ofChange change shift) h
    by_cases h_absorbed : ∃ c', c.follow lx src (.ofChange change shift) = .absorbed c'
    · obtain ⟨c', h_follow⟩ := h_absorbed
      rw [followAll_cons_of_absorbed changes h_follow]
      rw [h_follow] at h_first
      exact ih _ h_first
    · rw [followAll_cons_of_not_absorbed changes (not_exists.1 h_absorbed)]
      exact h_first

theorem settings_followAll (lx : LineLexer σ) (src : LineSource) (shift : Int) (c : TokenCache σ)
    (changes : List TextChange) : SameSettings c (followAll lx src shift c changes).cache :=
  followAll_preserves (fun c' t h => h.trans (settings_follow c' lx src t)) shift changes (.refl c)

/-- What `followAll` can come to: all changes are absorbed, or the `first` that is not decides. -/
inductive FollowedAll (lx : LineLexer σ) (src : LineSource) (shift : Int) (c : TokenCache σ)
    (changes : List TextChange) : EditOutcome σ → Prop
  | all {shift' : Int} {c' : TokenCache σ}
    (h_absorb : absorbAll lx src shift c changes = some (shift', c')) :
    FollowedAll lx src shift c changes (followAll lx src shift' c' [])
  | first {before after : List TextChange} {change : TextChange} {shift' : Int} {c' : TokenCache σ}
    (h_changes : changes = before ++ change :: after)
    (h_before : absorbAll lx src shift c before = some (shift', c'))
    (h_not : ∀ c'', c'.follow lx src (.ofChange change shift') ≠ .absorbed c'') :
    FollowedAll lx src shift c changes (c'.follow lx src (.ofChange change shift'))

theorem followedAll_followAll (lx : LineLexer σ) (src : LineSource) (shift : Int)
    (c : TokenCache σ) (changes : List TextChange) :
    FollowedAll lx src shift c changes (followAll lx src shift c changes) := by
  induction changes generalizing shift c with
  | nil => exact .all rfl
  | cons change changes ih =>
    by_cases h : ∃ c', c.follow lx src (.ofChange change shift) = .absorbed c'
    · obtain ⟨c', h_follow⟩ := h
      have h_rest := ih (shift + (TouchedLines.ofChange change shift).delta) c'
      rw [followAll_cons_of_absorbed changes h_follow]
      generalize followAll lx src _ c' changes = outcome at h_rest
      cases h_rest with
      | all h_absorb => exact .all ((absorbAll_cons_of_absorbed changes h_follow).trans h_absorb)
      | first h_changes h_before h_not =>
        exact .first (congrArg (change :: ·) h_changes)
          ((absorbAll_cons_of_absorbed _ h_follow).trans h_before) h_not
    · rw [followAll_cons_of_not_absorbed changes (not_exists.1 h)]
      exact .first (List.nil_append _).symm rfl (not_exists.1 h)

/-- If `followAll` fails, it does so at a `change`, after absorbing those before it. -/
theorem exists_failed_of_followAll {err : TokenizeError} {c'' : TokenCache σ}
    (h : followAll lx src shift c changes = .failed err c'') :
    ∃ before change after shift' c', changes = before ++ change :: after ∧
      absorbAll lx src shift c before = some (shift', c') ∧
      c'.follow lx src (.ofChange change shift') = .failed err c'' := by
  have h_followed := followedAll_followAll lx src shift c changes
  generalize followAll lx src shift c changes = outcome at h h_followed
  cases h_followed with
  | all h_absorb =>
    rw [followAll_nil] at h
    split at h <;> cases h
  | first h_changes h_before h_not => exact ⟨_, _, _, _, _, h_changes, h_before, h⟩

/-! ## Edits -/

/-- What `onEdit` can come to. -/
inductive Edited (c : TokenCache σ) (registry : Registry (Grammar σ)) (src : LineSource)
    (changes : List TextChange) : Reply σ Unit → Prop
  /-- All changes are absorbed, and leave as many entries as the document has lines. -/
  | absorbed {shift : Int} {c' : TokenCache σ}
    (h : absorbAll (c.lexer registry.languages) src 0 c (TextChange.sortByStart changes) =
      some (shift, c'))
    (h_count : c'.lineCount = src.lineCount) : Edited c registry src changes ⟨.ok (), c', registry⟩
  /-- The edit cascades at `change`, and the changes `after` it are not followed. -/
  | cascaded {before after : List TextChange} {change : TextChange} {shift : Int} {line : Nat}
    {c' c'' : TokenCache σ} (h_changes : TextChange.sortByStart changes = before ++ change :: after)
    (h_before : absorbAll (c.lexer registry.languages) src 0 c before = some (shift, c'))
    (h : c'.follow (c.lexer registry.languages) src (.ofChange change shift) = .cascaded line c'') :
    Edited c registry src changes ⟨.ok (), c'', registry⟩
  | refreshed (c' : TokenCache σ) : Edited c registry src changes (c'.refresh registry src)
  | failed (e : TokenizeError) (c' : TokenCache σ) :
    Edited c registry src changes ⟨.error e, c'.degrade src, registry⟩

theorem edited_onEdit (c : TokenCache σ) (registry : Registry (Grammar σ)) (src : LineSource)
    (changes : List TextChange) :
    Edited c registry src changes (c.onEdit registry src changes) := by
  have h_followed := followedAll_followAll (c.lexer registry.languages) src 0 c
    (TextChange.sortByStart changes)
  unfold onEdit
  generalize followAll (c.lexer registry.languages) src 0 c (TextChange.sortByStart changes) =
    outcome at h_followed
  cases h_followed with
  | @all shift c' h_absorb =>
    rw [followAll_nil]
    by_cases h_count : c'.lineCount = src.lineCount
    · rw [if_pos h_count]
      exact .absorbed h_absorb h_count
    · rw [if_neg h_count]
      exact .refreshed c'
  | @first before after change shift c' h_changes h_before h_not =>
    -- the first change that is not absorbed ends the batch, and its outcome is that of the batch
    cases h_follow : c'.follow (c.lexer registry.languages) src (.ofChange change shift) with
    | absorbed c'' => exact absurd h_follow (h_not c'')
    | cascaded line c'' => exact .cascaded h_changes h_before h_follow
    | outdated c'' => exact .refreshed c''
    | failed e c'' => exact .failed e c''

/-- An edit keeps the entries chained, whatever its changes are. -/
theorem Edited.consistent {registry : Registry (Grammar σ)} {reply : Reply σ Unit}
    (h : Edited c registry src changes reply) (h_chain : Consistent registry.languages c) :
    Consistent registry.languages reply.cache := by
  cases h with
  | absorbed h_absorb h_count =>
    have h_absorbed := absorbed_of_absorbAll h_chain h_absorb
    rw [Consistent, h_absorbed.settings.lexer_eq]
    exact h_absorbed.chained
  | cascaded h_changes h_before h_follow =>
    have h_absorbed := absorbed_of_absorbAll h_chain h_before
    obtain ⟨h_settings, h_chained, -⟩ := cascaded_of_follow h_absorbed.chained h_follow
    rw [Consistent, (h_absorbed.settings.trans h_settings).lexer_eq]
    exact h_chained
  | refreshed c' => exact consistent_refresh c' registry src
  | failed e c' => exact consistent_degrade registry.languages c' src

end TokenCache

end ScopeTokens
