/-
  ScopeTokens.Proofs.Cache.EditFailure

  When an edit fails. `onEdit` may compute a line more than once, but each time in
  the state that the live lines above it end in. So if it fails, a full parse
  fails at the same line (`failure_of_follow`), and if a full parse fails, so does
  the edit, since the cache would be the full parse otherwise. An edit that adds
  as many lines as its changes say fails exactly if the full parse of the edited
  document does, with the error of its first line that fails (`onEdit_error_iff`).
-/

import ScopeTokens.Proofs.Cache.EditSound

namespace ScopeTokens

open TouchedLines

namespace LineLexer

variable {σ : Type} {lx : LineLexer σ} {above : Option σ} {texts : List String}
  {err : TokenizeError}

/-- Line `line` is the first that cannot be computed, and `err` is its error. -/
def FailsFirstAt (lx : LineLexer σ) (texts : List String) (line : Nat) (err : TokenizeError) :
    Prop :=
  ∃ es text, lx.parse (texts.take line) = .ok es ∧ texts[line]? = some text ∧
    lx.entry text (stateBelow es) = .error err

theorem parse_eq_error_iff :
    lx.parse texts = .error err ↔ (lx.run none texts).failure = some err := by
  unfold parse
  cases h : (lx.run none texts).failure <;> simp [h]

theorem run_eq_of_parse {es : List (LineEntry σ)} (h : lx.parse texts = .ok es) :
    lx.run none texts = ⟨es, none⟩ := by
  obtain ⟨h_chain, h_texts⟩ := parse_eq_ok_iff.1 h
  rw [← h_texts]
  exact h_chain.run_eq

/-- A run that fails does so on a line below lines that it computed. -/
theorem exists_line_of_failure (h : (lx.run above texts).failure = some err) :
    ∃ line es text, lx.run above (texts.take line) = ⟨es, none⟩ ∧ texts[line]? = some text ∧
      lx.entry text (stateAfter above es) = .error err := by
  induction texts generalizing above with
  | nil => exact absurd h nofun
  | cons t ts ih =>
    cases h_entry : lx.entry t above with
    | error err' =>
      rw [run_cons_of_error h_entry] at h
      obtain rfl := Option.some.inj h
      exact ⟨0, [], t, rfl, rfl, h_entry⟩
    | ok e =>
      rw [run_cons_of_ok h_entry] at h
      obtain ⟨line, es, text, h_run, h_text, h_error⟩ := ih h
      refine ⟨line + 1, e :: es, text, ?_, h_text, h_error⟩
      rw [List.take_succ_cons, run_cons_of_ok h_entry, h_run]

theorem parse_eq_error_iff_failsFirstAt :
    lx.parse texts = .error err ↔ ∃ line, FailsFirstAt lx texts line err := by
  rw [parse_eq_error_iff]
  constructor
  · intro h
    obtain ⟨line, es, text, h_run, h_text, h_error⟩ := exists_line_of_failure h
    rw [stateAfter_none] at h_error
    refine ⟨line, es, text, ?_, h_text, h_error⟩
    rw [parse, h_run]
  · rintro ⟨line, es, text, h_above, h_text, h_error⟩
    obtain ⟨h_lt, rfl⟩ := List.getElem?_eq_some_iff.1 h_text
    have h_run := failure_run_append_of_ok (run_eq_of_parse h_above) (texts.drop line)
    rw [List.take_append_drop, List.drop_eq_getElem_cons h_lt, stateAfter_none,
      run_cons_of_error h_error] at h_run
    exact h_run

end LineLexer

namespace TokenCache

variable {σ : Type} [DecidableEq σ] {c c' c'' : TokenCache σ} {lx : LineLexer σ}
  {src : LineSource} {change : TextChange} {shift : Int} {err : TokenizeError}

/-- If `follow` fails below live lines, a run over all live lines fails with the same error. -/
theorem failure_of_follow (h_chain : LineLexer.Chained lx none c.lines)
    (h_above : c.texts.take (ofChange change shift).start =
      src.lines.take (ofChange change shift).start)
    (h : c.follow lx src (ofChange change shift) = .failed err c') :
    (lx.run none src.lines).failure = some err := by
  have h_followed := followed_follow c lx src (ofChange change shift)
  rw [h] at h_followed
  cases h_followed with
  | failed err h_settings h_run =>
    -- the entries above the change are what computing the live lines there gives
    rw [← List.take_append_drop (ofChange change shift).start c.lines] at h_chain
    have h_take := (LineLexer.chained_append.1 h_chain).1.run_eq
    rw [List.map_take] at h_take
    have h_texts : (c.lines.map LineEntry.text).take (ofChange change shift).start =
        src.lines.take (ofChange change shift).start := h_above
    rw [h_texts] at h_take
    have h_failure := LineLexer.failure_run_append_of_ok h_take
      (src.lines.drop (ofChange change shift).start)
    rw [List.take_append_drop, LineLexer.stateAfter_none] at h_failure
    rw [h_failure]
    exact h_run (start_le_last_ofChange change shift)

/-- A change whose lines exist is not `outdated`. -/
theorem not_outdated_of_fits (h_stop : (ofChange change shift).stop < c.lineCount)
    (h_last : (ofChange change shift).last < src.lineCount) :
    c.follow lx src (ofChange change shift) ≠ .outdated c' := by
  intro h
  have h_followed := followed_follow c lx src (ofChange change shift)
  rw [h] at h_followed
  cases h_followed with
  | outdated h_fits => omega

variable {languages : LanguageTable} {d : Document} {registry : Registry (Grammar σ)}
  {changes : List TextChange}

/-- An edit that adds as many lines as its changes say is not `outdated`. -/
theorem not_outdated_followAll (h_sync : InStep languages c d.source)
    (h_placed : WellPlaced d.text.toList changes)
    (h_count : ((d.applyChanges changes).lineCount : Int) =
      d.lineCount + TextChange.totalDelta changes) (c' : TokenCache σ) :
    followAll (c.lexer languages) (d.applyChanges changes).source 0 c
      (TextChange.sortByStart changes) ≠ .outdated c' := by
  have h_followed := followedAll_followAll (c.lexer languages) (d.applyChanges changes).source 0 c
    (TextChange.sortByStart changes)
  generalize followAll (c.lexer languages) (d.applyChanges changes).source 0 c
    (TextChange.sortByStart changes) = outcome at h_followed
  cases h_followed with
  | @all shift' c₁ h_absorb =>
    -- with no change left, the lines held are the live ones, and so is their number
    obtain ⟨done, h_following, -⟩ := following_of_absorbAll h_sync h_placed h_count
      (List.append_nil _).symm h_absorb
    have h_lines : c₁.lineCount = (d.applyChanges changes).source.lineCount := by
      rw [← length_texts, h_following.eq_live]
      rfl
    rw [followAll_nil, if_pos h_lines]
    exact nofun
  | @first before after change shift' c₁ h_changes h_before h_not =>
    obtain ⟨done, h_following, h_breaks⟩ := following_of_absorbAll h_sync h_placed h_count
      h_changes h_before
    obtain ⟨h_stop, h_last⟩ := h_following.fits (Splice.seamless_of_le h_breaks).1
    rw [length_texts] at h_stop
    exact not_outdated_of_fits h_stop h_last

/-- If such an edit fails, so does a run over the edited document. -/
theorem failure_of_followAll (h_sync : InStep languages c d.source)
    (h_placed : WellPlaced d.text.toList changes)
    (h_count : ((d.applyChanges changes).lineCount : Int) =
      d.lineCount + TextChange.totalDelta changes)
    (h : followAll (c.lexer languages) (d.applyChanges changes).source 0 c
      (TextChange.sortByStart changes) = .failed err c') :
    ((c.lexer languages).run none (d.applyChanges changes).source.lines).failure = some err := by
  obtain ⟨before, change, after, shift', c₁, h_changes, h_before, h_follow⟩ :=
    exists_failed_of_followAll h
  obtain ⟨done, h_following, -⟩ := following_of_absorbAll h_sync h_placed h_count h_changes h_before
  have h_chained := (absorbed_of_absorbAll (inStep_iff.1 h_sync).1 h_before).chained
  exact failure_of_follow h_chained h_following.above h_follow

/-- Such an edit is followed to its end or fails; either way the grammar is not looked up again. -/
theorem followed_or_failed (h_sync : InStep registry.languages c d.source)
    (h_placed : WellPlaced d.text.toList changes)
    (h_count : ((d.applyChanges changes).lineCount : Int) =
      d.lineCount + TextChange.totalDelta changes) :
    (∃ c', SameSettings c c' ∧
      c.onEdit registry (d.applyChanges changes).source changes = ⟨.ok (), c', registry⟩) ∨
    ∃ (err : TokenizeError) (c' : TokenCache σ), ((c.lexer registry.languages).run none
        (d.applyChanges changes).source.lines).failure = some err ∧
      c.onEdit registry (d.applyChanges changes).source changes =
        ⟨.error err, c'.degrade (d.applyChanges changes).source, registry⟩ := by
  have h_settings := settings_followAll (c.lexer registry.languages)
    (d.applyChanges changes).source 0 c (TextChange.sortByStart changes)
  unfold onEdit
  cases h_outcome : followAll (c.lexer registry.languages) (d.applyChanges changes).source 0 c
      (TextChange.sortByStart changes) with
  | absorbed c' =>
    rw [h_outcome] at h_settings
    exact .inl ⟨c', h_settings, rfl⟩
  | cascaded line c' =>
    rw [h_outcome] at h_settings
    exact .inl ⟨c', h_settings, rfl⟩
  | outdated c' => exact absurd h_outcome (not_outdated_followAll h_sync h_placed h_count c')
  | failed err c' =>
    exact .inr ⟨err, c', failure_of_followAll h_sync h_placed h_count h_outcome, rfl⟩

/-! ## Edits and full parses -/

/-- For a well placed batch that adds as many lines as its changes say, on a cache in step with `d`,
    `onEdit` fails with `err` exactly if the full parse of the edited document has a first line that
    fails, with `err`. -/
theorem onEdit_error_iff (d : Document) (c : TokenCache σ) (registry : Registry (Grammar σ))
    (changes : List TextChange) (h_sync : InStep registry.languages c d.source)
    (h_placed : WellPlaced d.text.toList changes)
    (h_count : ((d.applyChanges changes).lineCount : Int) =
      d.lineCount + TextChange.totalDelta changes) (err : TokenizeError) :
    (c.onEdit registry (d.applyChanges changes).source changes).answer = .error err ↔
      ∃ line, LineLexer.FailsFirstAt (c.lexer registry.languages)
        (d.applyChanges changes).source.lines line err := by
  rw [← LineLexer.parse_eq_error_iff_failsFirstAt]
  rcases followed_or_failed h_sync h_placed h_count with
    ⟨c', h_settings, h_reply⟩ | ⟨err', c', h_failure, h_reply⟩
  -- an edit that is followed leaves the full parse behind, so there is one
  · have h_edited := edited_onEdit c registry (d.applyChanges changes).source changes
    rw [h_reply] at h_edited ⊢
    have h_parse : (c'.lexer registry.languages).parse (d.applyChanges changes).source.lines =
        .ok c'.lines :=
      inStep_of_edited h_sync h_placed
        (fun _ _ _ h_changes _ => Document.liveAbove h_placed h_count h_changes) h_edited rfl
    rw [h_settings.lexer_eq] at h_parse
    rw [h_parse]
    exact ⟨nofun, nofun⟩
  · rw [h_reply, LineLexer.parse_eq_error_iff, h_failure, Except.error.injEq, Option.some.injEq]

/-- A grammar of parentheses that fails on a `)` without its `(`. -/
def balancedGrammar : Grammar Nat where
  scopeName := ⟨"source.balanced"⟩
  tokenizeLine text above :=
    let opened := above.getD 0 + text.toList.count '('
    let closed := text.toList.count ')'
    if opened < closed then .error (.tokenizeFailed ⟨"source.balanced"⟩ "nothing to close")
    else .ok ⟨[], opened - closed⟩

def balancedRegistry : Registry (Grammar Nat) :=
  (Registry.ofLanguages ⟨[⟨"plaintext", none, []⟩, ⟨"balanced", some ⟨"source.balanced"⟩, []⟩]⟩)
    |>.registerGrammar balancedGrammar

def balancedDocument : Document :=
  .new ⟨0⟩ "balanced" "((\na\n)\n)"

def balancedCache : TokenCache Nat :=
  ((initial .initial).refresh balancedRegistry balancedDocument.source).cache

/-- A letter goes between the parentheses of line 0, and one of them is closed on a new line below
    it, so that the last line has one `)` too many. -/
def closingChanges : List TextChange :=
  [⟨⟨⟨1, 0⟩, ⟨1, 1⟩⟩, "b\n)"⟩, ⟨⟨⟨0, 1⟩, ⟨0, 1⟩⟩, "x"⟩]

theorem inStep_balancedCache :
    InStep balancedRegistry.languages balancedCache balancedDocument.source := by
  have h := settled_refresh (initial .initial) balancedRegistry balancedDocument.source
  rw [← h.languages_eq]
  exact h.inStep_of_ok (by cbv)

theorem onEdit_error_iff_closingChanges :
    WellPlaced balancedDocument.text.toList closingChanges ∧
    (balancedCache.onEdit balancedRegistry (balancedDocument.applyChanges closingChanges).source
      closingChanges).answer =
        .error (.grammar (.tokenizeFailed ⟨"source.balanced"⟩ "nothing to close")) ∧
    ∃ line, LineLexer.FailsFirstAt (balancedCache.lexer balancedRegistry.languages)
      (balancedDocument.applyChanges closingChanges).source.lines line
      (.grammar (.tokenizeFailed ⟨"source.balanced"⟩ "nothing to close")) := by
  have h_placed : WellPlaced balancedDocument.text.toList closingChanges :=
    ⟨by decide, by decide⟩
  have h_before : balancedDocument.lineCount = 4 := by cbv
  have h_after : (balancedDocument.applyChanges closingChanges).lineCount = 5 := by cbv
  have h_count : ((balancedDocument.applyChanges closingChanges).lineCount : Int) =
      balancedDocument.lineCount + TextChange.totalDelta closingChanges := by
    rw [h_before, h_after]
    decide
  have h_error : (balancedCache.onEdit balancedRegistry
      (balancedDocument.applyChanges closingChanges).source closingChanges).answer =
        .error (.grammar (.tokenizeFailed ⟨"source.balanced"⟩ "nothing to close")) := by cbv
  exact ⟨h_placed, h_error, (onEdit_error_iff balancedDocument balancedCache balancedRegistry
    closingChanges inStep_balancedCache h_placed h_count _).1 h_error⟩

end TokenCache

end ScopeTokens
