/-
  ScopeTokens.Proofs.Cache.EditSound

  Edits keep a cache in step with its document. If a batch is absorbed into the
  right number of lines, no break was lost at a seam of the new text, and the
  cached texts are the live ones (`texts_of_absorbAll`). A cascade brings the
  lines from its change on up to date, and leaves those above as the cache had
  them; these are live if no break was lost among the changes before it. So a
  single change, and a batch that adds as many lines as its changes say, leave the
  cache in step (`inStep_onEdit`); any other batch does exactly if the lines above
  its cascade are live (`inStep_onEdit_iff`).
-/

import ScopeTokens.Proofs.Cache.EditSteps

namespace ScopeTokens

open TouchedLines

/-- The cached lines above `change` are those of `live`. -/
def TouchedLines.LiveAbove (live : List String) (shifted : Int × List String)
    (change : TextChange) : Prop :=
  shifted.2.take (ofChange change shifted.1).start = live.take (ofChange change shifted.1).start

namespace Document

theorem lines_source (d : Document) : d.source.lines = Line.texts d.text.toList := rfl

/-- If the edited text has as many lines as its changes say, no break was lost at any seam. -/
theorem pieceBreaks_le {d : Document} {changes : List TextChange}
    (h : WellPlaced d.text.toList changes)
    (h_count : ((d.applyChanges changes).lineCount : Int) =
      d.lineCount + TextChange.totalDelta changes) :
    Splice.pieceBreaks d.text.toList 0
        ((TextChange.sortByStart changes).map (Splice.ofChange d.text.toList)) ≤
      countBreaks (Splice.substitute d.text.toList 0
        ((TextChange.sortByStart changes).map (Splice.ofChange d.text.toList))) := by
  have h_pieces := (PlacedFrom.sortByStart h).pieceBreaks_eq
  rw [List.drop_zero, TextChange.totalDelta_sortByStart] at h_pieces
  rw [lineCount_eq, lineCount_eq, toList_applyChanges h] at h_count
  omega

/-- `Following` holds for a well placed batch before its first change. -/
theorem following {d : Document} {changes : List TextChange}
    (h : WellPlaced d.text.toList changes) :
    Following d.text.toList (d.applyChanges changes).source.lines d.source.lines 0 0
      (TextChange.sortByStart changes) := by
  rw [lines_source, lines_source, toList_applyChanges h]
  exact .initial h

/-- If no break is lost, the changes `before` leave live lines above `change`. -/
theorem liveAbove {d : Document} {changes before after : List TextChange} {change : TextChange}
    (h : WellPlaced d.text.toList changes)
    (h_count : ((d.applyChanges changes).lineCount : Int) =
      d.lineCount + TextChange.totalDelta changes)
    (h_changes : TextChange.sortByStart changes = before ++ change :: after) :
    LiveAbove (d.applyChanges changes).source.lines
      (replay (d.applyChanges changes).source.lines (0, d.source.lines) before) change := by
  have h_following := following h
  have h_pieces := pieceBreaks_le h h_count
  rw [h_changes] at h_following h_pieces
  obtain ⟨done, h_done⟩ := h_following.replay h_pieces
  exact h_done.above

end Document

namespace TokenCache

variable {σ : Type} [DecidableEq σ] {languages : LanguageTable} {d : Document} {c c' : TokenCache σ}
  {registry : Registry (Grammar σ)} {changes before after : List TextChange} {change : TextChange}
  {shift : Int}

/-! ## Absorbed -/

theorem texts_of_absorbAll (h_sync : InStep languages c d.source)
    (h_placed : WellPlaced d.text.toList changes)
    (h : absorbAll (c.lexer languages) (d.applyChanges changes).source 0 c
      (TextChange.sortByStart changes) = some (shift, c'))
    (h_count : c'.lineCount = (d.applyChanges changes).source.lineCount) :
    c'.texts = (d.applyChanges changes).source.lines := by
  obtain ⟨h_chain, h_texts⟩ := inStep_iff.1 h_sync
  have h_absorbed := absorbed_of_absorbAll h_chain h
  have h_replay := h_absorbed.texts
  rw [h_texts] at h_replay
  -- so far the cache has as many lines more than before as the changes tell
  have h_shift : shift = TextChange.totalDelta changes := by
    have h : (replay (d.applyChanges changes).source.lines (0, d.source.lines)
          (TextChange.sortByStart changes)).1 =
        0 + TextChange.totalDelta (TextChange.sortByStart changes) :=
      shift_replay _ _ (.sortByStart h_placed) (Int.le_refl 0)
    rwa [← h_replay, Int.zero_add, TextChange.totalDelta_sortByStart] at h
  have h_lines := h_absorbed.lineCount fun _ h_mem => (h_placed.mem_sortByStart h_mem).1
  have h_before := h_sync.lineCount_eq
  rw [Document.lineCount_source] at h_count h_before
  -- the right number of lines in the end means that no break was lost
  have h_pieces := Document.pieceBreaks_le h_placed (by omega)
  have h_following := Document.following h_placed
  rw [← List.append_nil (TextChange.sortByStart changes)] at h_following h_pieces
  obtain ⟨done, h_done⟩ := h_following.replay h_pieces
  rw [← h_done.eq_live, ← h_replay]

/-! ## Cascaded -/

/-- After a cascade the cache has the document's lines exactly if those above it are live. -/
theorem texts_of_cascaded {src : LineSource} {line : Nat} {c'' : TokenCache σ}
    (h_sync : InStep languages c d.source)
    (h_before : absorbAll (c.lexer languages) src 0 c before = some (shift, c'))
    (h : c'.follow (c.lexer languages) src (ofChange change shift) = .cascaded line c'') :
    c''.texts = src.lines ↔
      LiveAbove src.lines (replay src.lines (0, d.source.lines) before) change := by
  obtain ⟨h_chain, h_texts⟩ := inStep_iff.1 h_sync
  have h_absorbed := absorbed_of_absorbAll h_chain h_before
  obtain ⟨-, -, h_cascaded⟩ := cascaded_of_follow h_absorbed.chained h
  have h_replay := h_absorbed.texts
  rw [h_texts] at h_replay
  -- from the change on, both sides have the live lines
  have h_split := List.take_append_drop (ofChange change shift).start src.lines
  rw [LiveAbove, ← h_replay, h_cascaded]
  conv_lhs => rhs; rw [← h_split]
  exact List.append_left_inj _

/-! ## Edits -/

/-- An edit leaves the cache in step if the lines above its cascade, if any, are live. -/
theorem inStep_of_edited (h_sync : InStep registry.languages c d.source)
    (h_placed : WellPlaced d.text.toList changes)
    (h_above : ∀ before change after,
      TextChange.sortByStart changes = before ++ change :: after →
      CascadesAt (c.lexer registry.languages) (d.applyChanges changes).source c before change →
      LiveAbove (d.applyChanges changes).source.lines
        (replay (d.applyChanges changes).source.lines (0, d.source.lines) before) change)
    {reply : Reply σ Unit} (h : Edited c registry (d.applyChanges changes).source changes reply)
    (h_ok : reply.answer = .ok ()) :
    InStep reply.registry.languages reply.cache (d.applyChanges changes).source := by
  have h_consistent := h.consistent (inStep_iff.1 h_sync).1
  cases h with
  | absorbed h_absorb h_count =>
    exact inStep_iff.2 ⟨h_consistent, texts_of_absorbAll h_sync h_placed h_absorb h_count⟩
  | cascaded h_changes h_before h_follow =>
    refine inStep_iff.2 ⟨h_consistent, (texts_of_cascaded h_sync h_before h_follow).2 ?_⟩
    exact h_above _ _ _ h_changes ⟨_, _, _, _, h_before, h_follow⟩
  | refreshed c' =>
    exact (settled_refresh c' registry (d.applyChanges changes).source).inStep_of_ok h_ok
  | failed e c' => exact absurd h_ok nofun

/-- If no break is lost, `Following` holds after the changes that were absorbed. -/
theorem following_of_absorbAll (h_sync : InStep languages c d.source)
    (h_placed : WellPlaced d.text.toList changes)
    (h_count : ((d.applyChanges changes).lineCount : Int) =
      d.lineCount + TextChange.totalDelta changes)
    (h_changes : TextChange.sortByStart changes = before ++ after)
    (h_before : absorbAll (c.lexer languages) (d.applyChanges changes).source 0 c before =
      some (shift, c')) :
    ∃ done,
      Following d.text.toList (d.applyChanges changes).source.lines c'.texts done shift after ∧
      Splice.pieceBreaks d.text.toList done (after.map (Splice.ofChange d.text.toList)) ≤
        countBreaks (Splice.substitute d.text.toList done
          (after.map (Splice.ofChange d.text.toList))) := by
  obtain ⟨h_chain, h_texts⟩ := inStep_iff.1 h_sync
  have h_replay := (absorbed_of_absorbAll h_chain h_before).texts
  rw [h_texts] at h_replay
  have h_following := Document.following h_placed
  have h_pieces := Document.pieceBreaks_le h_placed h_count
  rw [h_changes] at h_following h_pieces
  have h_done := h_following.replay_breaks h_pieces
  rwa [← h_replay] at h_done

theorem sortByStart_singleton (change : TextChange) :
    TextChange.sortByStart [change] = [change.normalize] := by
  rw [TextChange.sortByStart, List.map_singleton, List.mergeSort_singleton]

/-- A single change with lines past the end of the document makes `onEdit` refresh the cache. -/
theorem onEdit_singleton_of_not_onLines {src : LineSource} (h_count : c.lineCount = d.lineCount)
    (h : ¬ change.OnLines d.text.toList) :
    c.onEdit registry src [change] = c.refresh registry src := by
  have h_stop : c.lines.length ≤ change.normalize.range.stop.line := by
    have h_ends := change.range.line_le_stop_normalize
    have h_length : c.lines.length = (Line.split d.text.toList).length := h_count
    rw [TextChange.OnLines, not_and_or, Nat.not_lt, Nat.not_lt] at h
    simp only [TextChange.normalize]
    omega
  have h_touched : (ofChange change.normalize 0).stop = change.normalize.range.stop.line := by
    simp [ofChange]
  rw [onEdit, sortByStart_singleton, followAll, follow, h_touched, List.getElem?_eq_none h_stop]

theorem wellPlaced_singleton (h : change.OnLines d.text.toList) :
    WellPlaced d.text.toList [change] where
  onLines := fun c h_c => by rwa [List.mem_singleton.1 h_c]
  apart := List.pairwise_singleton _ _

/-! ## Edits keep caches in step -/

/-- If the cache is in step with `d` and `onEdit` does not fail, it is in step with the edited
    document, that is, equal to its full parse. The edit is a single change of any kind, or a well
    placed batch that adds as many lines as its changes say (`totalDelta`). -/
theorem inStep_onEdit (d : Document) (c : TokenCache σ) (registry : Registry (Grammar σ))
    (changes : List TextChange) (h_sync : InStep registry.languages c d.source)
    (h_batch : (∃ change, changes = [change]) ∨
      (WellPlaced d.text.toList changes ∧
        ((d.applyChanges changes).lineCount : Int) = d.lineCount + TextChange.totalDelta changes))
    (h_ok : (c.onEdit registry (d.applyChanges changes).source changes).answer = .ok ()) :
    InStep (c.onEdit registry (d.applyChanges changes).source changes).registry.languages
      (c.onEdit registry (d.applyChanges changes).source changes).cache
      (d.applyChanges changes).source := by
  have h_edited := edited_onEdit c registry (d.applyChanges changes).source changes
  rcases h_batch with ⟨change, rfl⟩ | ⟨h_placed, h_count⟩
  · by_cases h_lines : change.OnLines d.text.toList
    · have h_placed := wellPlaced_singleton h_lines
      refine inStep_of_edited h_sync h_placed ?_ h_edited h_ok
      intro before change' after h_changes _
      have h_following := Document.following h_placed
      -- the change itself is the only one that can cascade
      obtain rfl : before = [] := by
        have h_length := congrArg List.length h_changes
        rw [sortByStart_singleton, List.length_append, List.length_singleton,
          List.length_cons] at h_length
        exact List.length_eq_zero_iff.1 (by omega)
      rw [h_changes] at h_following
      exact h_following.above
    -- a change that names other lines does not fit the cache
    · have h_count : c.lineCount = d.lineCount := by
        rw [h_sync.lineCount_eq, Document.lineCount_source]
      rw [onEdit_singleton_of_not_onLines h_count h_lines] at h_ok ⊢
      exact (settled_refresh c registry _).inStep_of_ok h_ok
  -- no break is lost, so the changes before a cascade leave live lines above it
  · refine inStep_of_edited h_sync h_placed ?_ h_edited h_ok
    intro before change after h_changes _
    exact Document.liveAbove h_placed h_count h_changes

/-- A change on line 0, and a line put in front of line 4. The later change comes first. -/
def spreadChanges : List TextChange :=
  [⟨⟨⟨4, 0⟩, ⟨4, 0⟩⟩, "(\n"⟩, ⟨⟨⟨0, 0⟩, ⟨0, 1⟩⟩, "x"⟩]

theorem inStep_onEdit_spreadChanges :
    WellPlaced parenDocument.text.toList spreadChanges ∧
    InStep (parenCache.onEdit parenRegistry (parenDocument.applyChanges spreadChanges).source
        spreadChanges).registry.languages
      (parenCache.onEdit parenRegistry (parenDocument.applyChanges spreadChanges).source
        spreadChanges).cache
      (parenDocument.applyChanges spreadChanges).source := by
  have h_placed : WellPlaced parenDocument.text.toList spreadChanges := ⟨by decide, by decide⟩
  have h_before : parenDocument.lineCount = 6 := by cbv
  have h_after : (parenDocument.applyChanges spreadChanges).lineCount = 7 := by cbv
  refine ⟨h_placed, inStep_onEdit parenDocument parenCache parenRegistry spreadChanges
    inStep_parenCache (.inr ⟨h_placed, ?_⟩) (by cbv)⟩
  rw [h_before, h_after]
  decide

/-- For a well placed batch that does not fail, `onEdit` leaves the cache in step exactly if the
    lines above the change at which it cascades, if it does, are `LiveAbove`. -/
theorem inStep_onEdit_iff (d : Document) (c : TokenCache σ) (registry : Registry (Grammar σ))
    (changes : List TextChange) (h_sync : InStep registry.languages c d.source)
    (h_placed : WellPlaced d.text.toList changes)
    (h_ok : (c.onEdit registry (d.applyChanges changes).source changes).answer = .ok ()) :
    InStep (c.onEdit registry (d.applyChanges changes).source changes).registry.languages
        (c.onEdit registry (d.applyChanges changes).source changes).cache
        (d.applyChanges changes).source ↔
      ∀ before change after, TextChange.sortByStart changes = before ++ change :: after →
        CascadesAt (c.lexer registry.languages) (d.applyChanges changes).source c before change →
        LiveAbove (d.applyChanges changes).source.lines
          (replay (d.applyChanges changes).source.lines (0, d.source.lines) before) change := by
  constructor
  · rintro h_sync' before change after h_changes ⟨shift, c', line, c'', h_before, h_follow⟩
    -- the cascade ends the edit, so its lines are those that the reply has
    have h_reply : c.onEdit registry (d.applyChanges changes).source changes =
        ⟨.ok (), c'', registry⟩ := by
      rw [onEdit, h_changes, followAll_append h_before, followAll, h_follow]
    rw [h_reply] at h_sync'
    exact (texts_of_cascaded h_sync h_before h_follow).1 (inStep_iff.1 h_sync').2
  · intro h_above
    exact inStep_of_edited h_sync h_placed h_above
      (edited_onEdit c registry (d.applyChanges changes).source changes) h_ok

/-- The first change leaves `\n` behind a `\r`, so that two lines become one; the second adds a line
    below. -/
def joiningChanges : List TextChange :=
  [⟨⟨⟨1, 0⟩, ⟨2, 0⟩⟩, "\n"⟩, ⟨⟨⟨4, 0⟩, ⟨4, 0⟩⟩, "(\n"⟩]

theorem inStep_onEdit_iff_joiningChanges :
    WellPlaced parenDocument.text.toList joiningChanges ∧
    (InStep (parenCache.onEdit parenRegistry (parenDocument.applyChanges joiningChanges).source
        joiningChanges).registry.languages
      (parenCache.onEdit parenRegistry (parenDocument.applyChanges joiningChanges).source
        joiningChanges).cache
      (parenDocument.applyChanges joiningChanges).source ↔
      ∀ before change after, TextChange.sortByStart joiningChanges = before ++ change :: after →
        CascadesAt (parenCache.lexer parenRegistry.languages)
          (parenDocument.applyChanges joiningChanges).source parenCache before change →
        LiveAbove (parenDocument.applyChanges joiningChanges).source.lines
          (replay (parenDocument.applyChanges joiningChanges).source.lines
            (0, parenDocument.source.lines) before) change) := by
  have h_placed : WellPlaced parenDocument.text.toList joiningChanges := ⟨by decide, by decide⟩
  exact ⟨h_placed, inStep_onEdit_iff parenDocument parenCache parenRegistry joiningChanges
    inStep_parenCache h_placed (by cbv)⟩

/-- The edit cascades at the second change, and leaves the line above as it was. The cache is not in
    step, although the two changes are well placed and nothing failed. -/
theorem not_inStep_onEdit_joiningChanges :
    InStep parenRegistry.languages parenCache parenDocument.source ∧
    2 ≤ joiningChanges.length ∧
    WellPlaced parenDocument.text.toList joiningChanges ∧
    ((parenDocument.applyChanges joiningChanges).lineCount : Int) <
      parenDocument.lineCount + TextChange.totalDelta joiningChanges ∧
    (parenCache.onEdit parenRegistry (parenDocument.applyChanges joiningChanges).source
      joiningChanges).answer = .ok () ∧
    ¬ InStep (parenCache.onEdit parenRegistry (parenDocument.applyChanges joiningChanges).source
        joiningChanges).registry.languages
      (parenCache.onEdit parenRegistry (parenDocument.applyChanges joiningChanges).source
        joiningChanges).cache
      (parenDocument.applyChanges joiningChanges).source := by
  have h_before : parenDocument.lineCount = 6 := by cbv
  have h_after : (parenDocument.applyChanges joiningChanges).lineCount = 6 := by cbv
  refine ⟨inStep_parenCache, by decide, ⟨by decide, by decide⟩, ?_, by cbv, ?_⟩
  · rw [h_before, h_after]
    decide
  -- line 3 has its old text
  · intro h
    have h_held : (parenCache.onEdit parenRegistry
        (parenDocument.applyChanges joiningChanges).source joiningChanges).cache.texts =
        ["a", "c", "d", "d", "e", "f"] := by cbv
    have h_live : (parenDocument.applyChanges joiningChanges).source.lines =
        ["a", "c", "d", "(", "e", "f"] := by cbv
    have h_texts := (inStep_iff.1 h).2
    rw [h_held, h_live] at h_texts
    exact absurd h_texts (by decide)

end TokenCache

end ScopeTokens
