/-
  ScopeTokens.Proofs.Cache.Unsettled

  The lines that edits touched and no query has settled since. Beside a cache that
  follows edits runs a list that says where the entry of each line comes from
  (`Origin`). It goes through the same replacements as the entries
  (`TouchedLines.replace`). A change keeps the log tidy and keeps every line with
  a computed entry in it, also where it moves that line (`Logged.follow`). So this
  holds after any edits that do not re-parse the cache
  (`tidy_and_covers_of_editedSince`).
-/

import ScopeTokens.Proofs.Cache.PendingRanges
import ScopeTokens.Proofs.Cache.Refreshes
import ScopeTokens.Proofs.Cache.Represented

namespace ScopeTokens

/-! ## Where entries come from -/

/-- Where the entry of a line comes from. -/
inductive Origin where
  /-- It is the entry that line `line` had at the beginning. -/
  | held (line : Nat)
  /-- An edit computed it. -/
  | computed
  /-- It is the default entry that a failure left. -/
  | plain
  deriving DecidableEq, Repr

namespace TouchedLines

variable {α : Type} {t : TouchedLines} {xs new : List α} {line : Nat}

/-- `xs` with `new` in place of what is at `start` to `stop`. -/
def replace (t : TouchedLines) (xs new : List α) : List α :=
  xs.take t.start ++ new ++ xs.drop (t.stop + 1)

theorem length_replace (h_stop : t.start ≤ t.stop) (h_fits : t.stop < xs.length) :
    (t.replace xs new).length = t.start + new.length + (xs.length - (t.stop + 1)) := by
  simp only [replace, List.length_append, List.length_take, List.length_drop]
  omega

theorem getElem?_replace_of_lt (h : line < t.start) (h_fits : t.start ≤ xs.length) :
    (t.replace xs new)[line]? = xs[line]? := by
  have h_take : (xs.take t.start).length = t.start := List.length_take_of_le h_fits
  rw [replace, List.append_assoc, List.getElem?_append_left (by omega), List.getElem?_take_of_lt h]

/-- What is below the replaced elements keeps its distance to them. -/
theorem getElem?_replace_of_gt (h : t.last < line) (h_fits : t.start ≤ xs.length)
    (h_new : t.start + new.length = t.last + 1) :
    (t.replace xs new)[line]? = xs[line - t.last + t.stop]? := by
  have h_take : (xs.take t.start).length = t.start := List.length_take_of_le h_fits
  rw [replace, List.getElem?_append_right (by rw [List.length_append]; omega), List.getElem?_drop,
    List.length_append]
  congr 1
  omega

/-- The lines of `t` become `computed`. -/
def recompute (t : TouchedLines) (o : List Origin) : List Origin :=
  t.replace o (List.replicate (t.last + 1 - t.start) .computed)

/-- All lines from `t.start` on become `computed`. -/
def recomputeBelow (t : TouchedLines) (lineCount : Nat) (o : List Origin) : List Origin :=
  o.take t.start ++ List.replicate (lineCount - t.start) .computed

variable {o : List Origin} {x : Origin}

/-- A line is above the change, one of its lines, or below it. -/
theorem recompute_cases (h_last : t.start ≤ t.last) (h_fits : t.start ≤ o.length)
    (h : (t.recompute o)[line]? = some x) :
    (line < t.start ∧ o[line]? = some x) ∨
      (t.start ≤ line ∧ line ≤ t.last ∧ x = .computed) ∨
      (t.last < line ∧ o[line - t.last + t.stop]? = some x) := by
  rcases Nat.lt_or_ge line t.start with h_above | h_start
  · rw [recompute, getElem?_replace_of_lt h_above h_fits] at h
    exact .inl ⟨h_above, h⟩
  · rcases Nat.lt_or_ge t.last line with h_below | h_within
    · rw [recompute, getElem?_replace_of_gt h_below h_fits (by simp; omega)] at h
      exact .inr (.inr ⟨h_below, h⟩)
    · have h_take : (o.take t.start).length = t.start := List.length_take_of_le h_fits
      rw [recompute, replace, List.append_assoc, List.getElem?_append_right (by omega),
        List.getElem?_append_left (by simp; omega)] at h
      exact .inr (.inl ⟨h_start, h_within, List.eq_of_mem_replicate (List.mem_of_getElem? h)⟩)

theorem recomputeBelow_cases {lineCount : Nat} (h_fits : t.start ≤ o.length)
    (h : (t.recomputeBelow lineCount o)[line]? = some x) :
    (line < t.start ∧ o[line]? = some x) ∨
      (t.start ≤ line ∧ line < lineCount ∧ x = .computed) := by
  have h_take : (o.take t.start).length = t.start := List.length_take_of_le h_fits
  rw [recomputeBelow] at h
  rcases Nat.lt_or_ge line t.start with h_above | h_start
  · rw [List.getElem?_append_left (by omega), List.getElem?_take_of_lt h_above] at h
    exact .inl ⟨h_above, h⟩
  · rw [List.getElem?_append_right (by omega)] at h
    obtain ⟨h_lt, -⟩ := List.getElem?_eq_some_iff.1 h
    rw [List.length_replicate] at h_lt
    exact .inr ⟨h_start, by omega, List.eq_of_mem_replicate (List.mem_of_getElem? h)⟩

end TouchedLines

/-- Origins of the entries after `follow`. -/
def EditOutcome.origins {σ : Type} (src : LineSource) (t : TouchedLines) (o : List Origin) :
    EditOutcome σ → List Origin
  | absorbed _ => t.recompute o
  | cascaded _ _ => t.recomputeBelow src.lineCount o
  | outdated _ => o
  | failed _ c => List.replicate (c.degrade src).lineCount .plain

/-! ## What the log keeps -/

namespace TokenCache

variable {σ : Type} {c₀ c c' : TokenCache σ} {o o' : List Origin} {src : LineSource}
  {lx : LineLexer σ} {t : TouchedLines} {replaced : LineEntry σ}
  {redone below : List (LineEntry σ)}

/-- The log of `c` accounts for the entries that edits computed since the cache was `c₀`. -/
structure Logged (c₀ c : TokenCache σ) (o : List Origin) : Prop where
  tidy : c.pending.Tidy
  length_le : c.pending.length ≤ PendingLog.limit
  lineCount : o.length = c.lineCount
  held : ∀ line line₀ : Nat, o[line]? = some (Origin.held line₀) →
    c.lines[line]? = c₀.lines[line₀]?
  plain : ∀ line : Nat, o[line]? = some Origin.plain →
    ∃ text language, c.lines[line]? = some (LineEntry.plain text language)
  covers : ∀ line : Nat, o[line]? = some Origin.computed → c.pending.Covers line

theorem logged_of_pending_nil (h : c.pending = []) :
    Logged c c ((List.range c.lineCount).map .held) := by
  have h_held {line : Nat} {x : Origin}
      (h : ((List.range c.lineCount).map Origin.held)[line]? = some x) : x = .held line := by
    rw [List.getElem?_map, Option.map_eq_some_iff] at h
    obtain ⟨i, h_i, rfl⟩ := h
    obtain ⟨h_lt, h_i⟩ := List.getElem?_eq_some_iff.1 h_i
    rw [← h_i, List.getElem_range]
  refine ⟨by rw [h]; exact PendingLog.tidy_nil, by simp [h], by simp, ?_, ?_, ?_⟩
  · intro line line₀ h_line
    obtain rfl := Origin.held.inj (h_held h_line)
    rfl
  · intro line h_line
    cases h_held h_line
  · intro line h_line
    cases h_held h_line

theorem logged_degrade (c₀ c : TokenCache σ) (src : LineSource) :
    Logged c₀ (c.degrade src) (List.replicate (c.degrade src).lineCount .plain) := by
  refine ⟨PendingLog.tidy_nil, Nat.zero_le _, List.length_replicate, ?_, ?_, ?_⟩
  · intro line line₀ h_line
    cases List.eq_of_mem_replicate (List.mem_of_getElem? h_line)
  · intro line h_line
    obtain ⟨h_lt, -⟩ := List.getElem?_eq_some_iff.1 h_line
    rw [List.length_replicate] at h_lt
    obtain ⟨text, h_plain⟩ := exists_plain_of_mem_degrade (List.getElem_mem h_lt)
    refine ⟨text, c.languageId, ?_⟩
    rw [← h_plain]
    exact List.getElem?_eq_getElem h_lt
  · intro line h_line
    cases List.eq_of_mem_replicate (List.mem_of_getElem? h_line)

namespace Logged

/-- `Logged` is kept if each line has its entry from some line, and stays in the log if that was in
    it, or else is computed and in the log. -/
theorem of_moves (h : Logged c₀ c o) (h_tidy : c'.pending.Tidy)
    (h_length : c'.pending.length ≤ PendingLog.limit) (h_count : o'.length = c'.lineCount)
    (h_moves : ∀ (line : Nat) x, o'[line]? = some x →
      (∃ line₁, o[line₁]? = some x ∧ c'.lines[line]? = c.lines[line₁]? ∧
        (c.pending.Covers line₁ → c'.pending.Covers line)) ∨
      x = .computed ∧ c'.pending.Covers line) :
    Logged c₀ c' o' where
  tidy := h_tidy
  length_le := h_length
  lineCount := h_count
  held line line₀ h_line := by
    obtain ⟨line₁, h_line₁, h_entry, -⟩ | ⟨h_computed, -⟩ := h_moves line _ h_line
    · exact h_entry.trans (h.held line₁ line₀ h_line₁)
    · cases h_computed
  plain line h_line := by
    obtain ⟨line₁, h_line₁, h_entry, -⟩ | ⟨h_computed, -⟩ := h_moves line _ h_line
    · rw [h_entry]
      exact h.plain line₁ h_line₁
    · cases h_computed
  covers line h_line := by
    obtain ⟨line₁, h_line₁, -, h_covers⟩ | ⟨-, h_covers⟩ := h_moves line _ h_line
    · exact h_covers (h.covers line₁ h_line₁)
    · exact h_covers

/-- `Logged` is kept by a change that marks its lines, from its start up to `bound`, if the other
    lines have their entries from above it or below. -/
theorem of_change {bound : Nat} (h : Logged c₀ c o) (h_stop : t.start ≤ t.stop)
    (h_last : t.start ≤ t.last) (h_bound : t.start < bound)
    (h_pending : c'.pending = (c.pending.shift t.start t.stop t.last).mark ⟨t.start, bound⟩)
    (h_count : o'.length = c'.lineCount)
    (h_lines : ∀ (line : Nat) x, o'[line]? = some x →
      (line < t.start ∧ o[line]? = some x ∧ c'.lines[line]? = c.lines[line]?) ∨
      (t.start ≤ line ∧ line < bound ∧ x = .computed) ∨
      (t.last < line ∧ o[line - t.last + t.stop]? = some x ∧
        c'.lines[line]? = c.lines[line - t.last + t.stop]?)) :
    Logged c₀ c' o' := by
  have h_shift : (c.pending.shift t.start t.stop t.last).Tidy :=
    PendingLog.tidy_shift h.tidy.nonempty h_last
  have h_mark (line : Nat)
      (h_line : LineRange.contains ⟨t.start, bound⟩ line = true ∨
        (c.pending.shift t.start t.stop t.last).Covers line) : c'.pending.Covers line := by
    rw [h_pending]
    exact PendingLog.covers_mark h_shift h_bound h_line
  refine h.of_moves ?_ ?_ h_count ?_
  · rw [h_pending]
    exact PendingLog.tidy_mark h_shift h_bound
  · rw [h_pending]
    exact PendingLog.length_mark_le _ _
  · intro line x h_line
    rcases h_lines line x h_line with
      ⟨h_above, h_x, h_entry⟩ | ⟨h_start, h_within, h_x⟩ | ⟨h_below, h_x, h_entry⟩
    · refine .inl ⟨line, h_x, h_entry, fun h_covers => h_mark line (.inr ?_)⟩
      exact h_covers.shift_above h.tidy h_last h_above
    · exact .inr ⟨h_x, h_mark line (.inl (LineRange.contains_iff.2 ⟨h_start, h_within⟩))⟩
    · refine .inl ⟨_, h_x, h_entry, fun h_covers => h_mark line (.inr ?_)⟩
      -- the log moves the old number of the line to the one that it has now
      have h_shifted := h_covers.shift_below h.tidy h_stop h_last (by omega)
      have h_back : line - t.last + t.stop - t.stop + t.last = line := by omega
      rwa [h_back] at h_shifted

theorem absorbed (h : Logged c₀ c o) (h_redone : Redone c lx src t replaced redone)
    (h_stop : t.start ≤ t.stop) (h_last : t.start ≤ t.last) :
    Logged c₀ ((c.splice t ⟨redone, none⟩).touch ⟨t.start, t.last + 1⟩) (t.recompute o) := by
  have h_fits : t.stop < c.lines.length := (List.getElem?_eq_some_iff.1 h_redone.stop).1
  have h_count : o.length = c.lines.length := h.lineCount
  have h_new : redone.length = t.last + 1 - t.start := h_redone.length_eq
  have h_end : t.start + redone.length = t.last + 1 := by omega
  refine h.of_change h_stop h_last (Nat.lt_succ_of_le h_last) rfl ?_ ?_
  · show (t.replace o _).length = (t.replace c.lines redone).length
    rw [TouchedLines.length_replace h_stop (by omega), TouchedLines.length_replace h_stop h_fits,
      h_new, List.length_replicate, h_count]
  · intro line x h_line
    rcases TouchedLines.recompute_cases h_last (by omega) h_line with
      ⟨h_above, h_x⟩ | ⟨h_start, h_within, h_x⟩ | ⟨h_below, h_x⟩
    · exact .inl ⟨h_above, h_x, TouchedLines.getElem?_replace_of_lt h_above (by omega)⟩
    · exact .inr (.inl ⟨h_start, Nat.lt_succ_of_le h_within, h_x⟩)
    · exact .inr (.inr ⟨h_below, h_x,
        TouchedLines.getElem?_replace_of_gt h_below (by omega) h_end⟩)

theorem cascaded (h : Logged c₀ c o) (h_redone : Redone c lx src t replaced redone)
    (h_stop : t.start ≤ t.stop) (h_last : t.start ≤ t.last)
    (h_below : below.length = src.lineCount - (t.last + 1)) :
    Logged c₀ (c.cascade src t ⟨redone, none⟩ ⟨below, none⟩)
      (t.recomputeBelow src.lineCount o) := by
  have h_live : t.last < src.lineCount := h_redone.last
  have h_fits : t.stop < c.lines.length := (List.getElem?_eq_some_iff.1 h_redone.stop).1
  have h_count : o.length = c.lines.length := h.lineCount
  have h_new := h_redone.length_eq
  have h_take : (c.lines.take t.start).length = t.start := List.length_take_of_le (by omega)
  -- lines above the change are the old ones, and all others were computed
  refine h.of_change h_stop h_last (Nat.lt_of_le_of_lt h_last h_live) rfl ?_ ?_
  · show _ = (c.lines.take t.start ++ redone ++ below).length
    simp only [TouchedLines.recomputeBelow, List.length_append, List.length_take,
      List.length_replicate]
    omega
  · intro line x h_line
    rcases TouchedLines.recomputeBelow_cases (by omega) h_line with
      ⟨h_above, h_x⟩ | h_computed
    · refine .inl ⟨h_above, h_x, ?_⟩
      rw [Redone.lines_cascade, List.append_assoc, List.getElem?_append_left (by omega),
        List.getElem?_take_of_lt h_above]
    · exact .inr (.inl h_computed)

end Logged

/-- `Logged` for the cache of an outcome; an outdated one is re-parsed. -/
def LoggedOutcome (c₀ : TokenCache σ) (src : LineSource) (o : List Origin) :
    EditOutcome σ → Prop
  | .absorbed c => Logged c₀ c o
  | .cascaded _ c => Logged c₀ c o
  | .outdated _ => True
  | .failed _ c => Logged c₀ (c.degrade src) o

variable [DecidableEq σ]

theorem Logged.follow (h : Logged c₀ c o) (lx : LineLexer σ) (src : LineSource)
    (h_stop : t.start ≤ t.stop) (h_last : t.start ≤ t.last) :
    LoggedOutcome c₀ src ((c.follow lx src t).origins src t o) (c.follow lx src t) := by
  have h_followed := followed_follow c lx src t
  generalize c.follow lx src t = outcome at h_followed
  cases h_followed with
  | outdated h_fits => trivial
  | failed err h_settings h_run => exact logged_degrade c₀ _ src
  | absorbed h_redone h_stays => exact h.absorbed h_redone h_stop h_last
  | cascaded h_redone h_grammar h_moves h_below =>
    -- every live line below the change was computed, so there are as many entries
    have h_text := LineLexer.map_text_run_of_ok (congrArg LineLexer.Run.failure h_below)
    have h_length := congrArg List.length h_text
    rw [h_below, List.length_map, List.length_drop] at h_length
    exact h.cascaded h_redone h_stop h_last h_length

/-! ## Edits that do not re-parse -/

/-- Origins of the entries after `followAll`. -/
def originsAfter (lx : LineLexer σ) (src : LineSource) (shift : Int) (c : TokenCache σ)
    (o : List Origin) : List TextChange → List Origin
  | [] => o
  | change :: changes =>
    let t := TouchedLines.ofChange change shift
    match c.follow lx src t with
    | .absorbed c' => originsAfter lx src (shift + t.delta) c' (t.recompute o) changes
    | outcome => outcome.origins src t o

theorem Logged.followAll {changes : List TextChange} (h : Logged c₀ c o) (lx : LineLexer σ)
    (src : LineSource) (shift : Int)
    (h_ranges : ∀ change ∈ changes, change.range.start ≤ change.range.stop) :
    LoggedOutcome c₀ src (originsAfter lx src shift c o changes)
      (followAll lx src shift c changes) := by
  induction changes generalizing shift c o with
  | nil =>
    rw [followAll_nil]
    split
    · exact h
    · trivial
  | cons change changes ih =>
    obtain ⟨h_range, h_ranges⟩ := List.forall_mem_cons.1 h_ranges
    have h_first := h.follow lx src (TouchedLines.start_le_stop_ofChange h_range shift)
      (TouchedLines.start_le_last_ofChange change shift)
    rw [TokenCache.followAll, originsAfter]
    -- an absorbed change hands its origins on to the next, and any other one is the last
    cases h_follow : c.follow lx src (.ofChange change shift) with
    | absorbed c' =>
      rw [h_follow] at h_first
      exact ih h_first _ h_ranges
    | cascaded line c' =>
      rw [h_follow] at h_first
      exact h_first
    | outdated c' => trivial
    | failed err c' =>
      rw [h_follow] at h_first
      exact h_first

variable {registry : Registry (Grammar σ)}

theorem Logged.onEdit {changes : List TextChange} (h : Logged c₀ c o)
    (registry : Registry (Grammar σ)) (src : LineSource)
    (h_quiet : (CacheRequest.onEdit changes).Quiet c registry src) :
    Logged c₀ (c.onEdit registry src changes).cache
      (originsAfter (c.lexer registry.languages) src 0 c o (TextChange.sortByStart changes)) := by
  have h_ranges : ∀ change ∈ TextChange.sortByStart changes,
      change.range.start ≤ change.range.stop :=
    fun _ h_change => TextChange.start_le_stop_of_mem_sortByStart h_change
  have h_batch := h.followAll (c.lexer registry.languages) src 0 h_ranges
  rw [quiet_onEdit_iff] at h_quiet
  rw [TokenCache.onEdit]
  cases h_followed : TokenCache.followAll (c.lexer registry.languages) src 0 c
      (TextChange.sortByStart changes) with
  | absorbed c' =>
    rw [h_followed] at h_batch
    exact h_batch
  | cascaded line c' =>
    rw [h_followed] at h_batch
    exact h_batch
  | outdated c' => exact absurd h_followed (h_quiet c')
  | failed err c' =>
    rw [h_followed] at h_batch
    exact h_batch

/-- The cache is new, or its last request was no edit, or was one that re-parsed it. -/
inductive JustSettled : TokenCache σ → Prop
  | initial (config : CacheConfig) : JustSettled (.initial config)
  | perform (c : TokenCache σ) (request : CacheRequest) (registry : Registry (Grammar σ))
    (src : LineSource)
    (h : ∀ changes, request = .onEdit changes → ¬ request.Quiet c registry src) :
    JustSettled (request.perform c registry src).cache

/-- `c` comes from `c₀` by edits that do not re-parse it, and `o` are the origins of its entries.
    Each edit has its own document and registry. -/
inductive EditedSince (c₀ : TokenCache σ) : TokenCache σ → List Origin → Prop
  | start : EditedSince c₀ c₀ ((List.range c₀.lineCount).map .held)
  | edit {c : TokenCache σ} {o : List Origin} (h : EditedSince c₀ c o)
    (registry : Registry (Grammar σ)) (src : LineSource) (changes : List TextChange)
    (h_quiet : (CacheRequest.onEdit changes).Quiet c registry src) :
    EditedSince c₀ (c.onEdit registry src changes).cache
      (originsAfter (c.lexer registry.languages) src 0 c o (TextChange.sortByStart changes))

theorem pending_validateRange (c : TokenCache σ) (registry : Registry (Grammar σ))
    (src : LineSource) (range : LineRange) :
    (c.validateRange registry src range).cache.pending = [] := by
  have h_validated := validated_validateRange c registry src range
  generalize c.validateRange registry src range = r at h_validated
  cases h_validated with
  | refreshed h_count => exact (served_refresh c registry src).2
  | healed h_count h_settings h_pending h_healed => exact h_pending
  | failed e c' => rfl

/-- An edit that is not quiet ends in a `refresh`. -/
theorem exists_refresh_of_not_quiet {changes : List TextChange}
    (h : ¬ (CacheRequest.onEdit changes).Quiet c registry src) :
    ∃ c' : TokenCache σ, c.onEdit registry src changes = c'.refresh registry src := by
  rw [quiet_onEdit_iff, not_forall] at h
  obtain ⟨c', h_outdated⟩ := h
  exact ⟨c', by rw [TokenCache.onEdit, not_not.1 h_outdated]⟩

theorem JustSettled.pending (h : JustSettled c) : c.pending = [] := by
  cases h with
  | initial config => rfl
  | perform c request registry src h =>
    rcases request.range?_cases src with ⟨range, h_range⟩ | rfl | ⟨changes, rfl⟩
    · rw [perform_of_range? h_range]
      exact pending_validateRange c registry src range
    · exact (served_refresh c registry src).2
    · obtain ⟨c', h_refresh⟩ := exists_refresh_of_not_quiet (h changes rfl)
      rw [CacheRequest.perform, h_refresh]
      exact (served_refresh c' registry src).2

/-- Every reachable cache was `JustSettled` at some point and only edited since. -/
theorem Reachable.exists_editedSince {languages : LanguageTable} (h : Reachable languages c) :
    ∃ c₀ o, JustSettled c₀ ∧ EditedSince c₀ c o := by
  induction h with
  | initial config => exact ⟨_, _, .initial config, .start⟩
  | @perform c h request registry h_languages src ih =>
    by_cases h_edit : ∃ changes, request = .onEdit changes ∧ request.Quiet c registry src
    · obtain ⟨changes, rfl, h_quiet⟩ := h_edit
      obtain ⟨c₀, o, h_settled, h_edited⟩ := ih
      exact ⟨c₀, _, h_settled, h_edited.edit registry src changes h_quiet⟩
    · -- any other request settles the cache, and the edits are counted anew from here
      refine ⟨_, _, .perform c request registry src ?_, .start⟩
      intro changes h_request h_quiet
      exact h_edit ⟨changes, h_request, h_quiet⟩

/-- After edits that do not re-parse the cache, its log is tidy, within its limit, and covers every
    line whose entry an edit computed. All other lines have the entries that they had in `c₀`, or
    those that a failure left. A further change can move and mark the log in place. -/
theorem tidy_and_covers_of_editedSince (h_settled : JustSettled c₀) (h : EditedSince c₀ c o) :
    c.pending.Tidy ∧
    c.pending.length ≤ PendingLog.limit ∧
    o.length = c.lineCount ∧
    (∀ line : Nat, o[line]? = some .computed → c.pending.Covers line) ∧
    (∀ line line₀ : Nat, o[line]? = some (.held line₀) → c.lines[line]? = c₀.lines[line₀]?) ∧
    (∀ line : Nat, o[line]? = some .plain →
      ∃ text language, c.lines[line]? = some (.plain text language)) ∧
    ∀ start stop last r, start ≤ last →
      (c.pending.shiftInPlace start stop last).markInPlace r =
        (c.pending.shift start stop last).mark r := by
  have h_logged : Logged c₀ c o := by
    induction h with
    | start => exact logged_of_pending_nil h_settled.pending
    | edit h registry src changes h_quiet ih => exact ih.onEdit registry src h_quiet
  exact ⟨h_logged.tidy, h_logged.length_le, h_logged.lineCount, h_logged.covers, h_logged.held,
    h_logged.plain, fun start stop last r h_start =>
      PendingLog.markInPlace_shiftInPlace_eq h_logged.tidy h_start stop r⟩

/-- A cache of six lines without a grammar. -/
def lettersCache : TokenCache Nat :=
  ((initial .initial).refresh parenRegistry ⟨"plaintext", ["a", "b", "c", "d", "e", "f"]⟩).cache

/-- `lettersCache` after a change of line 4. -/
def changedLetters : TokenCache Nat :=
  (lettersCache.onEdit parenRegistry ⟨"plaintext", ["a", "b", "c", "d", "xe", "f"]⟩
    [⟨.point ⟨4, 0⟩, "x"⟩]).cache

/-- `changedLetters` after a line is put in above line 1, and text in front of that line. -/
def movedLetters : TokenCache Nat :=
  (changedLetters.onEdit parenRegistry ⟨"plaintext", ["a", "y", "zb", "c", "d", "xe", "f"]⟩
    [⟨.point ⟨1, 0⟩, "y\nz"⟩]).cache

theorem tidy_and_covers_of_editedSince_movedLetters :
    JustSettled lettersCache ∧
    EditedSince lettersCache movedLetters
      [.held 0, .computed, .computed, .held 2, .held 3, .computed, .held 5] ∧
    movedLetters.pending = [⟨1, 3⟩, ⟨5, 6⟩] ∧
    movedLetters.pending.Tidy ∧
    movedLetters.pending.Covers 5 ∧
    movedLetters.lines[6]? = lettersCache.lines[5]? := by
  have h_settled : JustSettled lettersCache := .perform (.initial .initial) .refresh _ _ nofun
  have h_changed : EditedSince lettersCache changedLetters _ :=
    EditedSince.start.edit parenRegistry _ _ (by cbv)
  have h_moved : EditedSince lettersCache movedLetters _ :=
    h_changed.edit parenRegistry _ _ (by cbv)
  -- the origins, run through both edits
  conv at h_moved => arg 3; cbv
  obtain ⟨h_tidy, -, -, h_covers, h_held, -, -⟩ := tidy_and_covers_of_editedSince h_settled h_moved
  exact ⟨h_settled, h_moved, by cbv, h_tidy, h_covers 5 rfl, h_held 6 5 rfl⟩

end TokenCache

end ScopeTokens
