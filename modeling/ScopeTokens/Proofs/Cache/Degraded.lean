/-
  ScopeTokens.Proofs.Cache.Degraded

  Caches after a failure. Wherever a request fails, the cache is that of `degrade`
  (`exists_degrade_of_error`): no grammar, an empty log, and one default token for
  each line, or no entry at all if a line is past the offset range (`Degraded`).
  A request without a refresh keeps the settings or fails on a line
  (`quietReply_perform`), and without a grammar no line within the offset range
  fails and no edit cascades; so up to the next refresh every request about such
  lines is answered with default tokens for the live texts (`Defaulted.answer_ask`),
  and edits are followed (`Defaulted.lines_onEdit`).
-/

import ScopeTokens.Proofs.Cache.DefaultTokens
import ScopeTokens.Proofs.Cache.FailingLine
import ScopeTokens.Proofs.Cache.Refreshes

namespace ScopeTokens

/-! ## Without a grammar -/

namespace LineLexer

variable {σ : Type} {lx : LineLexer σ}

theorem chained_iff_of_grammar_none (h : lx.grammar = none) {above : Option σ}
    {es : List (LineEntry σ)} :
    Chained lx above es ↔
      ∀ e ∈ es, e.text.length < UInt32.size ∧ e = .plain e.text lx.language := by
  induction es generalizing above with
  | nil => exact iff_of_true trivial nofun
  | cons e es ih =>
    rw [Chained, ih, List.forall_mem_cons, entry_of_grammar_none h, LineEntry.ofDefault_eq_ok_iff]
    rfl

end LineLexer

/-! ## Degraded caches -/

namespace TokenCache

variable {σ : Type} {c : TokenCache σ} {registry : Registry (Grammar σ)} {src : LineSource}
  {language : LanguageId} {err : TokenizeError}

/-- What a failure leaves: no grammar, an empty log, and one default token for each line of `src`,
    or no entry if a line of `src` is past the offset range. -/
structure Degraded (c : TokenCache σ) (src : LineSource) : Prop where
  degraded : c.degraded = true
  grammar : c.hasGrammar = false
  pending : c.pending = []
  lines : c.lines =
    if FitsOffsets src.lines then src.lines.map fun text => .plain text c.languageId else []

theorem degraded_degrade (c : TokenCache σ) (src : LineSource) :
    Degraded (c.degrade src) src where
  degraded := rfl
  grammar := rfl
  pending := rfl
  lines := by
    split
    · rename_i h_fits
      exact lines_degrade c h_fits
    · rename_i h_long
      exact lines_degrade_of_not_fits c h_long

theorem exists_degrade_of_refresh (h : (c.refresh registry src).answer = .error err) :
    ∃ c' : TokenCache σ, (c.refresh registry src).cache = c'.degrade src := by
  have h_settled := settled_refresh c registry src
  generalize c.refresh registry src = r at h h_settled
  cases h_settled with
  | inStep => exact absurd h nofun
  | degraded e c' => exact ⟨c', rfl⟩

/-- `c` failed, and was not refreshed since: all its entries are default tokens of `language`. -/
structure Defaulted (language : LanguageId) (c : TokenCache σ) : Prop where
  degraded : c.degraded = true
  grammar : c.hasGrammar = false
  languageId : c.languageId = language
  entries : ∀ e ∈ c.lines, e.text.length < UInt32.size ∧ e = .plain e.text language

theorem Degraded.defaulted (h : Degraded c src) : Defaulted c.languageId c where
  degraded := h.degraded
  grammar := h.grammar
  languageId := rfl
  entries e h_e := by
    rw [h.lines] at h_e
    split at h_e
    · rename_i h_fits
      obtain ⟨text, h_text, rfl⟩ := List.mem_map.1 h_e
      exact ⟨h_fits text h_text, rfl⟩
    · exact absurd h_e List.not_mem_nil

namespace Defaulted

theorem grammar_none (h : Defaulted language c) : c.grammar = none :=
  Option.not_isSome_iff_eq_none.1 (Bool.eq_false_iff.1 h.grammar)

theorem consistent (h : Defaulted language c) (languages : LanguageTable) :
    Consistent languages c := by
  refine (LineLexer.chained_iff_of_grammar_none h.grammar_none).2 ?_
  intro e h_e
  rw [lexer, h.languageId]
  exact h.entries e h_e

/-- A line with its live text has the default token of it. -/
theorem holdsDefault (h : Defaulted language c) {line : Nat}
    (h_fresh : LineLexer.Fresh src.lines c.lines line) : HoldsDefault c src line := by
  rw [LineLexer.Fresh] at h_fresh
  rw [HoldsDefault, ← h_fresh]
  cases h_e : c.lines[line]? with
  | none => rfl
  | some e =>
    rw [h.languageId]
    exact congrArg some (h.entries e (List.mem_of_getElem? h_e)).2

end Defaulted

variable [DecidableEq σ] {c' : TokenCache σ} {lx : LineLexer σ} {request : CacheRequest}
  {changes : List TextChange}

/-- Without a grammar no change cascades. -/
theorem not_cascadesAt_of_grammar_none (h : lx.grammar = none) {before : List TextChange}
    {change : TextChange} : ¬ CascadesAt lx src c before change := by
  rintro ⟨shift, c', line, c'', -, h_follow⟩
  have h_followed := followed_follow c' lx src (.ofChange change shift)
  rw [h_follow] at h_followed
  cases h_followed with
  | cascaded h_redone h_grammar h_moves h_below =>
    rw [h] at h_grammar
    exact absurd h_grammar Bool.false_ne_true

/-! ## Failed requests -/

/-- Wherever a request fails, it ends in `degrade`. -/
theorem exists_degrade_of_error (h : (request.perform c registry src).answer = .error err) :
    ∃ c' : TokenCache σ, (request.perform c registry src).cache = c'.degrade src := by
  -- queries validate a range; only these, a refresh and an edit can fail
  rcases request.range?_cases src with ⟨range, h_range⟩ | rfl | ⟨changes, rfl⟩
  · rw [perform_of_range? h_range] at h ⊢
    have h_validated := validated_validateRange c registry src range
    generalize c.validateRange registry src range = r at h h_validated
    cases h_validated with
    | refreshed h_count => exact exists_degrade_of_refresh h
    | healed => exact absurd h nofun
    | failed e c' => exact ⟨c', rfl⟩
  · exact exists_degrade_of_refresh h
  · have h_edited := edited_onEdit c registry src changes
    rw [CacheRequest.perform] at h ⊢
    generalize c.onEdit registry src changes = r at h h_edited
    cases h_edited with
    | absorbed => exact absurd h nofun
    | cascaded => exact absurd h nofun
    | refreshed c' => exact exists_degrade_of_refresh h
    | failed e c' => exact ⟨c', rfl⟩

/-! ## Until the next refresh -/

/-- What a request without a refresh can come to: it keeps the settings of `c`, or it degrades the
    cache because `lexer` fails on a line of `src`. -/
inductive QuietReply (c : TokenCache σ) (registry : Registry (Grammar σ)) (src : LineSource) :
    Reply σ Unit → Prop
  | kept {c' : TokenCache σ} (h_settings : SameSettings c c') :
    QuietReply c registry src ⟨.ok (), c', registry⟩
  | failed {c' : TokenCache σ} {err : TokenizeError} (h_settings : SameSettings c c')
    (h_fails : (c.lexer registry.languages).FailsOn src.lines err) :
    QuietReply c registry src ⟨.error err, c'.degrade src, registry⟩

theorem quietReply_perform (h_quiet : request.Quiet c registry src) :
    QuietReply c registry src (request.perform c registry src) := by
  rcases request.range?_cases src with ⟨range, h_range⟩ | rfl | ⟨changes, rfl⟩
  · have h_count := (quiet_iff_of_range? h_range).1 h_quiet
    rw [perform_of_range? h_range, validateRange, if_neg (not_not_intro h_count)]
    cases h_failure : ((c.lexer registry.languages).healAll src.lines (c.pending ++ [range])
        c.lines).failure with
    | none =>
      simp only [h_failure]
      exact .kept ⟨rfl, rfl, rfl, rfl⟩
    | some err =>
      simp only [h_failure]
      exact .failed ⟨rfl, rfl, rfl, rfl⟩ (LineLexer.failsOn_of_healAll h_failure)
  · exact absurd h_quiet not_quiet_refresh
  · have h_settings := settings_followAll (c.lexer registry.languages) src 0 c
      (TextChange.sortByStart changes)
    have h_followed := quiet_onEdit_iff.1 h_quiet
    rw [CacheRequest.perform, onEdit]
    cases h_outcome : followAll (c.lexer registry.languages) src 0 c
        (TextChange.sortByStart changes) with
    | absorbed c' =>
      rw [h_outcome] at h_settings
      exact .kept h_settings
    | cascaded line c' =>
      rw [h_outcome] at h_settings
      exact .kept h_settings
    | outdated c' => exact absurd h_outcome (h_followed c')
    | failed err c' =>
      rw [h_outcome] at h_settings
      exact .failed h_settings (failsOn_of_followAll h_outcome)

namespace Defaulted

/-- On lines within the offset range, a request without a refresh does not fail. -/
theorem answer_perform (h : Defaulted language c) (h_fits : FitsOffsets src.lines)
    (h_quiet : request.Quiet c registry src) :
    (request.perform c registry src).answer = .ok () := by
  have h_reply := quietReply_perform h_quiet
  generalize request.perform c registry src = reply at h_reply
  cases h_reply with
  | kept => rfl
  | failed h_settings h_fails =>
    -- without a grammar a line fails only by its length, which `h_fits` excludes
    exact absurd h_fails (LineLexer.not_failsOn_of_grammar_none h.grammar_none h_fits)

/-- A request without a refresh keeps the language, and brings back no grammar, also if it fails. -/
theorem settings_perform (h : Defaulted language c) (h_quiet : request.Quiet c registry src) :
    (request.perform c registry src).cache.degraded = true ∧
      (request.perform c registry src).cache.grammar = none ∧
      (request.perform c registry src).cache.languageId = language := by
  have h_reply := quietReply_perform h_quiet
  generalize request.perform c registry src = reply at h_reply
  cases h_reply with
  | kept h_settings =>
    exact ⟨h_settings.degraded.trans h.degraded, h_settings.grammar.trans h.grammar_none,
      h_settings.languageId.trans h.languageId⟩
  | failed h_settings => exact ⟨rfl, rfl, h_settings.languageId.trans h.languageId⟩

theorem perform (h : Defaulted language c) (h_quiet : request.Quiet c registry src) :
    Defaulted language (request.perform c registry src).cache := by
  obtain ⟨h_degraded, h_grammar, h_languageId⟩ := h.settings_perform h_quiet
  have h_chain : LineLexer.Chained _ none (request.perform c registry src).cache.lines :=
    consistent_perform (h.consistent registry.languages) src request
  refine ⟨h_degraded, ?_, h_languageId, ?_⟩
  · rw [hasGrammar, h_grammar]
    rfl
  · have h_entries := (LineLexer.chained_iff_of_grammar_none h_grammar).1 h_chain
    rwa [lexer, h_languageId] at h_entries

/-- On lines within the offset range, a request without a refresh answers with default tokens of the
    live texts. -/
theorem answer_ask (h : Defaulted language c) (h_fits : FitsOffsets src.lines)
    (h_quiet : request.Quiet c registry src) :
    (request.ask c registry src).answer = .ok (request.defaultAnswer language src) := by
  have h_ok := h.answer_perform h_fits h_quiet
  have h_after := h.perform h_quiet
  rw [CacheRequest.ask_eq, Reply.answer_andRead_eq_ok_iff]
  refine ⟨h_ok, ?_⟩
  rcases request.range?_cases src with ⟨range, h_range⟩ | rfl | ⟨changes, rfl⟩
  · rw [perform_of_range? h_range] at h_ok h_after ⊢
    have h_refreshed := refreshed_validateRange h_ok
    rw [← h_after.languageId]
    refine read_eq_defaultAnswer h_range h_refreshed.lineCount fun line h_line => ?_
    -- a line that is asked about was validated, so it has the text that it has now
    have h_fresh := h_refreshed.fresh line (.inr ⟨range, List.mem_singleton_self _, h_line⟩)
    exact h_after.holdsDefault h_fresh
  · rfl
  · rfl

/-- After an edit of the cached lines, without a refresh, the cache has default tokens for the
    edited lines. -/
theorem lines_onEdit (h : Defaulted language c) {d : Document} (h_texts : c.texts = d.source.lines)
    (h_placed : WellPlaced d.text.toList changes)
    (h_fits : FitsOffsets (d.applyChanges changes).source.lines)
    (h_quiet : (CacheRequest.onEdit changes).Quiet c registry (d.applyChanges changes).source) :
    (c.onEdit registry (d.applyChanges changes).source changes).cache.lines =
      (d.applyChanges changes).source.lines.map fun text => .plain text language := by
  have h_sync : InStep registry.languages c d.source :=
    inStep_iff.2 ⟨h.consistent registry.languages, h_texts⟩
  have h_ok := h.answer_perform h_fits h_quiet
  have h_after := inStep_of_edited h_sync h_placed
    (fun _ _ _ _ h_cascades => absurd h_cascades (not_cascadesAt_of_grammar_none h.grammar_none))
    (edited_onEdit c registry (d.applyChanges changes).source changes) h_ok
  have h_entries := (h.perform h_quiet).entries
  rw [← (inStep_iff.1 h_after).2, texts, List.map_map]
  exact (List.map_id _).symm.trans (List.map_congr_left fun e h_e => (h_entries e h_e).2)

end Defaulted

/-- `c'` is `c` after a request that does not refresh it. -/
def QuietStep (c c' : TokenCache σ) : Prop :=
  ∃ (request : CacheRequest) (registry : Registry (Grammar σ)) (src : LineSource),
    request.Quiet c registry src ∧ (request.perform c registry src).cache = c'

theorem Defaulted.of_quietSteps (h : Defaulted language c)
    (h_steps : Relation.ReflTransGen QuietStep c c') : Defaulted language c' := by
  induction h_steps with
  | refl => exact h
  | tail h_steps h_step ih =>
    obtain ⟨request, registry, src, h_quiet, rfl⟩ := h_step
    exact ih.perform h_quiet

/-! ## Failures degrade completely -/

/-- `c` has default tokens only. Until it is refreshed, it answers with them for every `src` within
    the offset range, and an edit of its lines leaves it with those for the edited lines. -/
structure GivesDefaults (language : LanguageId) (c : TokenCache σ) : Prop where
  holds : Defaulted language c
  answers : ∀ (request : CacheRequest) (registry : Registry (Grammar σ)) (src : LineSource),
    FitsOffsets src.lines → request.Quiet c registry src →
      (request.ask c registry src).answer = .ok (request.defaultAnswer language src)
  edits : ∀ (d : Document) (registry : Registry (Grammar σ)) (changes : List TextChange),
    c.texts = d.source.lines → WellPlaced d.text.toList changes →
    FitsOffsets (d.applyChanges changes).source.lines →
    (CacheRequest.onEdit changes).Quiet c registry (d.applyChanges changes).source →
      (c.onEdit registry (d.applyChanges changes).source changes).cache.lines =
        (d.applyChanges changes).source.lines.map fun text => .plain text language

/-- A `request` that fails, whatever it is and wherever it does, leaves the cache `Degraded`:
    without a grammar, and with one default token for each line of `src` if all of these are within
    the offset range, otherwise with no entry. Along all `QuietStep`s from there, that is up to the
    next refresh, no request about lines within the offset range fails, and default tokens are all
    that the cache gives (`GivesDefaults`). -/
theorem degraded_and_givesDefaults_of_error (c : TokenCache σ) (registry : Registry (Grammar σ))
    (src : LineSource) (request : CacheRequest) (err : TokenizeError)
    (h_error : (request.ask c registry src).answer = .error err) :
    Degraded (request.ask c registry src).cache src ∧
    ∀ c' : TokenCache σ, Relation.ReflTransGen QuietStep (request.ask c registry src).cache c' →
      GivesDefaults (request.ask c registry src).cache.languageId c' := by
  rw [CacheRequest.ask_eq, Reply.answer_andRead_eq_error_iff] at h_error
  obtain ⟨c₁, h_cache⟩ := exists_degrade_of_error h_error
  rw [CacheRequest.cache_ask, h_cache]
  have h_degraded := degraded_degrade c₁ src
  refine ⟨h_degraded, fun c' h_steps => ?_⟩
  have h_defaulted := h_degraded.defaulted.of_quietSteps h_steps
  exact ⟨h_defaulted, fun _ _ _ => h_defaulted.answer_ask, fun _ _ _ => h_defaulted.lines_onEdit⟩

/-- The document after the edit that fails. -/
def closedDocument : Document :=
  balancedDocument.applyChanges closingChanges

/-- The cache that the failure leaves. -/
def closedCache : TokenCache Nat :=
  ((CacheRequest.onEdit closingChanges).ask balancedCache balancedRegistry
    closedDocument.source).cache

/-- Makes one line of the first two. -/
def mendingChanges : List TextChange :=
  [⟨⟨⟨0, 3⟩, ⟨1, 0⟩⟩, ""⟩]

/-- The degraded cache after that edit. -/
def mendedCache : TokenCache Nat :=
  ((CacheRequest.onEdit mendingChanges).perform closedCache balancedRegistry
    (closedDocument.applyChanges mendingChanges).source).cache

/-- The document after another change, which the cache is not told of. -/
def untoldSource : LineSource :=
  ⟨"balanced", ["(x(b", "?)", ")", ")"]⟩

theorem degraded_and_givesDefaults_of_error_closingChanges :
    ((CacheRequest.onEdit closingChanges).ask balancedCache balancedRegistry
      closedDocument.source).answer =
        .error (.grammar (.tokenizeFailed ⟨"source.balanced"⟩ "nothing to close")) ∧
    Degraded closedCache closedDocument.source ∧
    QuietStep closedCache mendedCache ∧
    GivesDefaults ⟨2⟩ mendedCache ∧
    ((CacheRequest.lineTokens 1).ask mendedCache balancedRegistry untoldSource).answer =
      .ok (.tokens [.wholeLine 1 "?)" ⟨2⟩]) := by
  have h_error : ((CacheRequest.onEdit closingChanges).ask balancedCache balancedRegistry
      closedDocument.source).answer =
        .error (.grammar (.tokenizeFailed ⟨"source.balanced"⟩ "nothing to close")) := by cbv
  obtain ⟨h_degraded, h_defaults⟩ := degraded_and_givesDefaults_of_error balancedCache
    balancedRegistry closedDocument.source (.onEdit closingChanges) _ h_error
  have h_edit : (CacheRequest.onEdit mendingChanges).Quiet closedCache balancedRegistry
      (closedDocument.applyChanges mendingChanges).source := by
    rw [CacheRequest.Quiet]
    cbv
  have h_step : QuietStep closedCache mendedCache := ⟨_, _, _, h_edit, rfl⟩
  have h_language : closedCache.languageId = ⟨2⟩ := by cbv
  have h_gives : GivesDefaults ⟨2⟩ mendedCache := by
    rw [← h_language]
    exact h_defaults mendedCache (.single h_step)
  have h_query : (CacheRequest.lineTokens 1).Quiet mendedCache balancedRegistry untoldSource := by
    rw [CacheRequest.Quiet]
    cbv
  have h_fits : FitsOffsets untoldSource.lines := by decide
  exact ⟨h_error, h_degraded, h_step, h_gives, h_gives.answers _ _ _ h_fits h_query⟩

/-- `longSource` fails to open in a new cache although no grammar is in use, and leaves no entry, so
    that the one line of the document has no default token. -/
theorem lines_refresh_longSource :
    (CacheRequest.refresh.ask (initial .initial) balancedRegistry (longSource "plain")).answer =
      .error (.partition (.textTooLong UInt32.size)) ∧
    (CacheRequest.refresh.ask (initial .initial) balancedRegistry
      (longSource "plain")).cache.lines = [] ∧
    (longSource "plain").lineCount = 1 := by
  have h_error : (CacheRequest.refresh.perform (initial .initial) balancedRegistry
      (longSource "plain")).answer = .error (.partition (.textTooLong UInt32.size)) := by
    have h_scope : balancedRegistry.languages.scopeNameOf (longSource "plain").language = none := by
      show balancedRegistry.languages.scopeNameOf "plain" = none
      cbv
    rw [CacheRequest.perform, refresh, h_scope]
    dsimp only
    rw [answer_parseAll, LineLexer.failure_run_longSource (.inl rfl)]
  obtain ⟨c, h_cache⟩ := exists_degrade_of_error h_error
  have h_lines := (degraded_degrade c (longSource "plain")).lines
  rw [if_neg (not_fitsOffsets_longSource "plain")] at h_lines
  rw [CacheRequest.ask_eq, Reply.answer_andRead_eq_error_iff, ← CacheRequest.ask_eq,
    CacheRequest.cache_ask, h_cache, h_lines]
  exact ⟨h_error, rfl, rfl⟩

end TokenCache

end ScopeTokens
