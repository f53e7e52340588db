/-
  ScopeTokens.Proofs.Cache.Represented

  The representation invariant of caches, however they are used. There is an entry
  for each line of the document of the last request; entries come from a grammar
  exactly if the cache has one, which a degraded cache has not; and the tokens of
  an entry describe its text, with a scope stack for each (`Represented`). Inside
  a request some of this is broken, but no access is out of range then, and it is
  back when the request is done, whether it failed or not (`represented_perform`).
-/

import ScopeTokens.Proofs.Cache.InPlaceHeal
import ScopeTokens.Proofs.Cache.Kept
import ScopeTokens.Proofs.Cache.Reachable
import ScopeTokens.Proofs.Token.Boundary

namespace ScopeTokens

/-! ## Entries -/

/-- The line of `tokens` describes `text`, and there is a scope stack for each token. -/
structure ScopedTokens.Describes (tokens : ScopedTokens) (text : String) : Prop where
  line : tokens.line.Describes text
  scopes : tokens.scopes.length = tokens.line.count

theorem ScopedTokens.describes_whole (text : String) (language : LanguageId) :
    (ScopedTokens.whole text language).Describes text :=
  ⟨TokenLine.describes_whole text _, rfl⟩

namespace LineLexer

variable {σ : Type} {lx : LineLexer σ}

theorem describes_build {own : ScopeName} {text : String} {raw : List RawToken}
    {tokens : ScopedTokens} (h : lx.build own text raw = .ok tokens) : tokens.Describes text := by
  obtain ⟨-, rfl⟩ := eq_keptTokens_of_build h
  refine ⟨(partitions_keptTokens lx own text raw).describes, ?_⟩
  rw [count_keptTokens]
  exact List.length_map _

/-- `e` is of a kind that goes with `grammar`: `plain` exactly if there is none. -/
def Suits (grammar : Option (Grammar σ)) (e : LineEntry σ) : Prop :=
  match e.outcome with
  | .parsed _ => grammar.isSome = true
  | .skipped _ => grammar.isSome = true
  | .plain => grammar = none

theorem suits_of_entry {text : String} {above : Option σ} {e : LineEntry σ}
    (h : lx.entry text above = .ok e) : Suits lx.grammar e := by
  rcases entry_cases h with
    ⟨h_none, rfl⟩ | ⟨g, h_some, -, rfl⟩ | ⟨g, answer, tokens, h_some, -, -, -, rfl⟩
  · exact h_none
  · exact congrArg Option.isSome h_some
  · exact congrArg Option.isSome h_some

theorem describes_of_entry {text : String} {above : Option σ} {e : LineEntry σ}
    (h : lx.entry text above = .ok e) : e.tokens.Describes text := by
  rcases entry_cases h with
    ⟨-, rfl⟩ | ⟨g, -, -, rfl⟩ | ⟨g, answer, tokens, -, -, -, h_build, rfl⟩
  · exact ScopedTokens.describes_whole text _
  · exact ScopedTokens.describes_whole text _
  · exact describes_build h_build

end LineLexer

/-! ## Caches -/

namespace TokenCache

variable {σ : Type}

/-- A degraded cache has no grammar. -/
def Sound (c : TokenCache σ) : Prop :=
  c.degraded = true → c.hasGrammar = false

theorem SameSettings.sound {c c' : TokenCache σ} (h : SameSettings c c') (h_sound : c.Sound) :
    c'.Sound := by
  rw [Sound, hasGrammar, h.degraded, h.grammar]
  exact h_sound

theorem sound_degrade (c : TokenCache σ) (src : LineSource) : (c.degrade src).Sound :=
  fun _ => hasGrammar_degrade c src

/-- The representation invariant, for a document with `lineCount` lines. -/
structure Represented (c : TokenCache σ) (lineCount : Nat) : Prop where
  lineCount_eq : c.lineCount = lineCount
  suits : ∀ e ∈ c.lines, LineLexer.Suits c.grammar e
  sound : c.Sound
  describes : ∀ e ∈ c.lines, e.tokens.Describes e.text
  /-- Every byte offset at which the text of a line is cut is a character boundary of it. -/
  cuts : ∀ e ∈ c.lines, ∀ i, String.Pos.Raw.IsValid e.tokens.line.text ⟨e.tokens.line.byteOffset i⟩

theorem represented_of_consistent {languages : LanguageTable} {c : TokenCache σ} {lineCount : Nat}
    (h : Consistent languages c) (h_sound : c.Sound) (h_count : c.lineCount = lineCount) :
    Represented c lineCount := by
  have h_describes : ∀ e ∈ c.lines, e.tokens.Describes e.text := by
    intro e h_e
    obtain ⟨above, h_entry⟩ := LineLexer.Chained.exists_entry h h_e
    exact LineLexer.describes_of_entry h_entry
  refine ⟨h_count, ?_, h_sound, h_describes, ?_⟩
  · intro e h_e
    obtain ⟨above, h_entry⟩ := LineLexer.Chained.exists_entry h h_e
    exact LineLexer.suits_of_entry h_entry
  · intro e h_e i
    obtain ⟨h_text, h_length, -⟩ := (h_describes e h_e).line
    exact TokenLine.isValid_byteOffset (by rw [h_text, h_length]) i

/-! ## After a request -/

/-- What all kinds of request leave of the invariant. -/
structure Served (src : LineSource) (c : TokenCache σ) : Prop where
  lineCount : FitsOffsets src.lines → c.lineCount = src.lineCount
  sound : c.Sound

theorem served_degrade (c : TokenCache σ) (src : LineSource) : Served src (c.degrade src) :=
  ⟨length_lines_degrade c, sound_degrade c src⟩

theorem served_refresh (c : TokenCache σ) (registry : Registry (Grammar σ)) (src : LineSource) :
    Served src (c.refresh registry src).cache ∧ (c.refresh registry src).cache.pending = [] := by
  have h_settled := settled_refresh c registry src
  generalize c.refresh registry src = r at h_settled
  cases h_settled with
  | inStep h_languages h h_degraded h_pending =>
    refine ⟨⟨fun _ => h.lineCount_eq, ?_⟩, h_pending⟩
    intro h
    rw [h_degraded] at h
    exact absurd h Bool.false_ne_true
  | degraded e c' h_languages => exact ⟨served_degrade c' src, rfl⟩

variable [DecidableEq σ] {c : TokenCache σ} {registry : Registry (Grammar σ)}

theorem served_onEdit (h : Consistent registry.languages c) (h_sound : c.Sound) (src : LineSource)
    (changes : List TextChange) : Served src (c.onEdit registry src changes).cache := by
  have h_edited := edited_onEdit c registry src changes
  generalize c.onEdit registry src changes = r at h_edited
  cases h_edited with
  | absorbed h_absorb h_count =>
    exact ⟨fun _ => h_count, (absorbed_of_absorbAll h h_absorb).settings.sound h_sound⟩
  -- a cascade computes all lines to the last, so it need not count them
  | @cascaded before after change _ _ _ _ h_changes h_before h_follow =>
    have h_absorbed := absorbed_of_absorbAll h h_before
    obtain ⟨h_settings, -, -⟩ := cascaded_of_follow h_absorbed.chained h_follow
    have h_mem : change ∈ TextChange.sortByStart changes := by
      rw [h_changes]
      exact List.mem_append_right before List.mem_cons_self
    have h_count :=
      lineCount_of_cascaded (TextChange.start_le_stop_of_mem_sortByStart h_mem) h_follow
    exact ⟨fun _ => h_count, (h_absorbed.settings.trans h_settings).sound h_sound⟩
  | refreshed c' => exact (served_refresh c' registry src).1
  | failed e c' => exact served_degrade c' src

theorem served_validateRange (h_sound : c.Sound) (registry : Registry (Grammar σ))
    (src : LineSource) (range : LineRange) :
    Served src (c.validateRange registry src range).cache ∧
      (c.validateRange registry src range).cache.pending = [] := by
  have h_validated := validated_validateRange c registry src range
  generalize c.validateRange registry src range = r at h_validated
  cases h_validated with
  | refreshed h_count => exact served_refresh c registry src
  | healed h_count h_settings h_pending h_healed =>
    exact ⟨⟨fun _ => h_healed.length.trans h_count, h_settings.sound h_sound⟩, h_pending⟩
  | failed e c' => exact ⟨served_degrade c' src, rfl⟩

theorem served_perform (h : Consistent registry.languages c) (h_sound : c.Sound)
    (request : CacheRequest) (src : LineSource) :
    Served src (request.perform c registry src).cache ∧
      ((request.range? src).isSome = true →
        (request.perform c registry src).cache.pending = []) := by
  rcases request.range?_cases src with ⟨range, h_range⟩ | rfl | ⟨changes, rfl⟩
  · rw [perform_of_range? h_range]
    have h_served := served_validateRange h_sound registry src range
    exact ⟨h_served.1, fun _ => h_served.2⟩
  · exact ⟨(served_refresh c registry src).1, fun h => absurd h Bool.false_ne_true⟩
  · exact ⟨served_onEdit h h_sound src changes, fun h => absurd h Bool.false_ne_true⟩

theorem Reachable.sound {languages : LanguageTable} (h : Reachable languages c) : c.Sound := by
  induction h with
  | initial config => exact fun h => absurd h Bool.false_ne_true
  | perform h request registry h_languages src ih =>
    subst h_languages
    exact (served_perform h.consistent ih request src).1.sound

end TokenCache

/-! ## In place -/

/-- Carries out a request on the slots of the cache's lines; `none` if an access is out of range. -/
def CacheRequest.performInPlace {σ : Type} [DecidableEq σ] (request : CacheRequest)
    (c : TokenCache σ) (registry : Registry (Grammar σ)) (src : LineSource) : Option (Slots σ) :=
  match request.range? src with
  | some range => Slots.validateRange c registry src range
  | none =>
    match request with
    | onEdit changes => Slots.onEdit c registry src changes
    | _ => Slots.refresh c registry src

namespace TokenCache

variable {σ : Type} [DecidableEq σ]

theorem performInPlace_eq (request : CacheRequest) (c : TokenCache σ)
    (registry : Registry (Grammar σ)) (src : LineSource) :
    request.performInPlace c registry src =
      some (Slots.full (request.perform c registry src).cache.lines) := by
  unfold CacheRequest.performInPlace
  rcases request.range?_cases src with ⟨range, h_range⟩ | rfl | ⟨changes, rfl⟩
  · rw [perform_of_range? h_range, h_range]
    exact Slots.validateRange_eq c registry src range
  · exact Slots.refresh_eq c registry src
  · exact Slots.onEdit_eq c registry src changes

/-- For a `Reachable` cache and any request: carried out on slots, the request makes no access out
    of range, and leaves every slot filled with the entry that `perform` leaves (`performInPlace`).
    If the lines of `src` are within the offset range, the cache is `Represented` for them. After a
    request that validates lines, the log is empty. -/
theorem represented_perform {languages : LanguageTable} {c : TokenCache σ}
    (h : Reachable languages c) (request : CacheRequest) (registry : Registry (Grammar σ))
    (h_languages : registry.languages = languages) (src : LineSource) :
    request.performInPlace c registry src =
        some (Slots.full (request.perform c registry src).cache.lines) ∧
      (FitsOffsets src.lines → Represented (request.perform c registry src).cache src.lineCount) ∧
      ((request.range? src).isSome = true →
        (request.perform c registry src).cache.pending = []) := by
  subst h_languages
  obtain ⟨h_served, h_pending⟩ := served_perform h.consistent h.sound request src
  refine ⟨performInPlace_eq request c registry src, ?_, h_pending⟩
  intro h_fits
  exact represented_of_consistent (consistent_perform h.consistent src request) h_served.sound
    (h_served.lineCount h_fits)

theorem represented_tokenAt_movedSource :
    Reachable parenRegistry.languages parenCache ∧
    FitsOffsets movedSource.lines ∧
    (CacheRequest.tokenAt ⟨4, 0⟩).performInPlace parenCache parenRegistry movedSource =
      some (Slots.full
        ((CacheRequest.tokenAt ⟨4, 0⟩).perform parenCache parenRegistry movedSource).cache.lines) ∧
    Represented ((CacheRequest.tokenAt ⟨4, 0⟩).perform parenCache parenRegistry movedSource).cache
      6 ∧
    ((CacheRequest.tokenAt ⟨4, 0⟩).perform parenCache parenRegistry movedSource).cache.pending =
      [] := by
  obtain ⟨h_slots, h_represented, h_pending⟩ := represented_perform reachable_parenCache
    (.tokenAt ⟨4, 0⟩) parenRegistry rfl movedSource
  have h_fits : FitsOffsets movedSource.lines := by decide
  exact ⟨reachable_parenCache, h_fits, h_slots, h_represented h_fits, h_pending rfl⟩

end TokenCache

end ScopeTokens
