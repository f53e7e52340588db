/-
  ScopeTokens.Proofs.Cache.Settling

  What a validating request leaves settled. The log is empty afterwards, and all
  lines that were asked for or logged have their live texts (`UpToDate`), by
  healing or by a refresh. Healing lines with live texts does nothing
  (`heal_of_fresh`), so the same request, or another one about these lines, leaves
  the cache as it is (`validateRange_of_upToDate`), and all of them are answered
  from the same entries (`settled_of_ask`).
-/

import ScopeTokens.Proofs.Cache.Answers

namespace ScopeTokens

namespace LineLexer

variable {σ : Type} {lx : LineLexer σ} {range : LineRange} {es : List (LineEntry σ)}
  {texts : List String}

/-! ## Nothing to heal -/

theorem not_isStale_of_fresh {e : LineEntry σ} {text : String}
    (h : Fresh (text :: texts) (e :: es) 0) : ¬ e.isStale text = true := by
  have h_text : e.text = text := Option.some.inj h
  simp [LineEntry.isStale, h_text]

variable [DecidableEq σ]

/-- If the lines of `range` are fresh, `heal` does nothing, and counts no work. -/
theorem heal_of_fresh {line : Nat} {state : Option σ}
    (h : ∀ i, range.contains (line + i) = true → Fresh texts es i) :
    lx.heal range line ⟨state, false, false⟩ es texts = ⟨es, .zero, none⟩ := by
  induction es generalizing line state texts with
  | nil => exact heal_nil lx range line _ texts
  | cons e es ih =>
    cases texts with
    | nil => rfl
    | cons text texts =>
      have h_kept : ¬ Above.redoes ⟨state, false, false⟩ range line e text = true := by
        rw [redoes_below_kept]
        rintro ⟨h_range, h_stale⟩
        exact not_isStale_of_fresh (h 0 h_range) h_stale
      have h_below : ∀ i, range.contains (line + 1 + i) = true → Fresh texts es i := by
        intro i h_i
        refine h (i + 1) ?_
        rwa [Nat.add_assoc, Nat.add_comm 1] at h_i
      rw [heal_cons_of_not_redoes h_kept, ih h_below]

theorem healAll_singleton : lx.healAll texts [range] es = lx.heal range 0 .top es texts := by
  rw [healAll]
  cases h_failure : (lx.heal range 0 .top es texts).failure with
  | some err => simp only [← h_failure]
  | none => simp only [healAll, CacheStats.add_zero, ← h_failure]

theorem healAll_singleton_of_fresh
    (h : ∀ line, range.contains line = true → Fresh texts es line) :
    lx.healAll texts [range] es = ⟨es, .zero, none⟩ := by
  rw [healAll_singleton]
  refine heal_of_fresh fun i h_i => ?_
  rw [Nat.zero_add] at h_i
  exact h i h_i

end LineLexer

namespace TokenCache

variable {σ : Type}

theorem worked_zero (c : TokenCache σ) : c.worked .zero = c := by
  rw [worked, CacheStats.add_zero]

/-- Nothing is logged, and the lines of `ranges` are fresh. -/
structure UpToDate (c : TokenCache σ) (src : LineSource) (ranges : List LineRange) : Prop where
  lineCount : c.lineCount = src.lineCount
  pending : c.pending = []
  fresh : ∀ line, (∃ range ∈ ranges, range.contains line = true) →
    LineLexer.Fresh src.lines c.lines line

namespace UpToDate

variable {c : TokenCache σ} {src : LineSource} {ranges : List LineRange}

theorem mono {ranges' : List LineRange} (h : c.UpToDate src ranges)
    (h_sub : ∀ line < src.lineCount, (∃ range ∈ ranges', range.contains line = true) →
      ∃ range ∈ ranges, range.contains line = true) : c.UpToDate src ranges' where
  lineCount := h.lineCount
  pending := h.pending
  fresh := by
    intro line h_line
    by_cases h_lt : line < src.lineCount
    · exact h.fresh line (h_sub line h_lt h_line)
    -- past the last line there is nothing on either side
    · have h_live : src.lines.length ≤ line := Nat.not_lt.1 h_lt
      have h_held : c.lines.length ≤ line := by
        have := h.lineCount
        rw [TokenCache.lineCount, LineSource.lineCount] at this
        omega
      rw [LineLexer.Fresh, List.getElem?_eq_none h_live, List.getElem?_eq_none h_held]
      rfl

theorem of_inStep {languages : LanguageTable} (h : InStep languages c src)
    (h_pending : c.pending = []) (ranges : List LineRange) : c.UpToDate src ranges :=
  ⟨h.lineCount_eq, h_pending, fun line _ => h.fresh line⟩

/-- An entry of these lines was computed from the live text. -/
theorem text_eq (h : c.UpToDate src ranges) {line : Nat} {e : LineEntry σ}
    (h_line : ∃ range ∈ ranges, range.contains line = true) (h_e : c.lines[line]? = some e) :
    e.text = src.lineText line := by
  have h_fresh := h.fresh line h_line
  rw [LineLexer.Fresh, h_e, Option.map_some] at h_fresh
  rw [LineSource.lineText, ← h_fresh, Option.getD_some]

end UpToDate

variable [DecidableEq σ] {c : TokenCache σ} {registry : Registry (Grammar σ)} {src : LineSource}
  {range : LineRange}

/-! ## After validating lines -/

/-- A validation without a failure leaves its lines up to date, and those that were logged. -/
theorem upToDate_validateRange (h_ok : (c.validateRange registry src range).answer = .ok ()) :
    (c.validateRange registry src range).cache.UpToDate src (c.pending ++ [range]) := by
  have h_validated := validated_validateRange c registry src range
  generalize c.validateRange registry src range = r at *
  cases h_validated with
  | refreshed h_count =>
    have h_settled := settled_refresh c registry src
    generalize c.refresh registry src = r' at *
    cases h_settled with
    | inStep h_languages h_sync h_degraded h_pending => exact .of_inStep h_sync h_pending _
    | degraded e c' h_languages => exact absurd h_ok nofun
  | healed h_count h_settings h_pending h_healed =>
    exact ⟨h_healed.length.trans h_count, h_pending, fun line h => h_healed.fresh line (.inr h)⟩
  | failed e c' => exact absurd h_ok nofun

/-- A validation of lines that are up to date does nothing. -/
theorem validateRange_of_upToDate (h : c.UpToDate src [range]) :
    c.validateRange registry src range = ⟨.ok (), c, registry⟩ := by
  have h_fresh : ∀ line, range.contains line = true → LineLexer.Fresh src.lines c.lines line :=
    fun line h_line => h.fresh line ⟨range, List.mem_singleton_self _, h_line⟩
  have h_same : ({ c.worked .zero with lines := c.lines, pending := [] } : TokenCache σ) = c := by
    rw [worked_zero, ← h.pending]
  rw [validateRange, if_neg (not_not_intro h.lineCount), h.pending, List.nil_append,
    LineLexer.healAll_singleton_of_fresh h_fresh]
  exact congrArg (Reply.mk (.ok ()) · registry) h_same

/-- An answered request that validates lines is answered from a cache in which these are up to
    date. -/
theorem upToDate_ask {request : CacheRequest} {answer : CacheAnswer}
    (h_range : request.range? src = some range)
    (h_ok : (request.ask c registry src).answer = .ok answer) :
    ∃ c' registry', request.ask c registry src = ⟨.ok (request.read src c'), c', registry'⟩ ∧
      c'.UpToDate src (c.pending ++ [range]) := by
  rw [CacheRequest.ask_eq, perform_of_range? h_range] at h_ok ⊢
  obtain ⟨h_valid, -⟩ := Reply.answer_andRead_eq_ok_iff.1 h_ok
  refine ⟨(c.validateRange registry src range).cache, (c.validateRange registry src range).registry,
    ?_, upToDate_validateRange h_valid⟩
  rw [Reply.andRead, h_valid]
  rfl

/-- A request about lines that are up to date is answered from the cache as it is. -/
theorem ask_of_upToDate {request : CacheRequest} (h_range : request.range? src = some range)
    (h : c.UpToDate src [range]) :
    request.ask c registry src = ⟨.ok (request.read src c), c, registry⟩ := by
  rw [CacheRequest.ask_eq, perform_of_range? h_range, validateRange_of_upToDate h]
  rfl

end TokenCache

/-! ## Answers for a line -/

/-- The tokens of `line` in an `answer` to the request, if it gives the tokens of that line. -/
def CacheRequest.tokensFor (answer : CacheAnswer) (line : Nat) :
    CacheRequest → Option (List TokenInfo)
  | lineTokens line' =>
    match answer with
    | .tokens ts => if line' = line then some ts else none
    | _ => none
  | tokensForLines range =>
    match answer with
    | .lines ls => if range.start ≤ line then ls[line - range.start]? else none
    | _ => none
  | allTokens =>
    match answer with
    | .lines ls => ls[line]?
    | _ => none
  | _ => none

namespace TokenCache

variable {σ : Type} {c : TokenCache σ} {src : LineSource} {range : LineRange}

theorem eq_tokensIn_of_tokensOver {i : Nat} {ts : List TokenInfo}
    (h : (c.tokensOver range)[i]? = some ts) : ts = c.tokensIn (range.start + i) := by
  rw [tokensOver, List.getElem?_map] at h
  obtain ⟨line, h_line, rfl⟩ := Option.map_eq_some_iff.1 h
  obtain ⟨h_lt, h_get⟩ := List.getElem?_eq_some_iff.1 h_line
  rw [List.getElem_range', Nat.one_mul] at h_get
  rw [h_get]

/-- An answer read off `c` gives for `line` what `c` has there. -/
theorem eq_tokensIn_of_tokensFor {request : CacheRequest} {line : Nat} {ts : List TokenInfo}
    (h : request.tokensFor (request.read src c) line = some ts) : ts = c.tokensIn line := by
  cases request with
  | lineTokens line' =>
    simp only [CacheRequest.tokensFor, CacheRequest.read] at h
    split at h
    · rename_i h_line
      rw [← h_line, Option.some.inj h]
    · exact absurd h nofun
  | tokensForLines range =>
    simp only [CacheRequest.tokensFor, CacheRequest.read] at h
    split at h
    · rename_i h_line
      rw [eq_tokensIn_of_tokensOver h, Nat.add_sub_cancel' h_line]
    · exact absurd h nofun
  | allTokens =>
    have h_line := eq_tokensIn_of_tokensOver h
    rwa [Nat.zero_add] at h_line
  -- all other requests answer with something else than tokens of lines
  | _ => exact absurd h nofun

variable [DecidableEq σ]

/-- After a validating request is answered, none of its lines is stale, and none of those that were
    logged. The same request then has the very same reply. Any request about some of these lines
    leaves the cache as it is, and gives for a line the tokens that the first request gave. -/
theorem settled_of_ask (c : TokenCache σ) (registry : Registry (Grammar σ)) (src : LineSource)
    (request : CacheRequest) (range : LineRange) (h_range : request.range? src = some range)
    (answer : CacheAnswer) (h_ok : (request.ask c registry src).answer = .ok answer) :
    (∀ line < src.lineCount, (∃ r ∈ c.pending ++ [range], r.contains line = true) →
      ∃ e, (request.ask c registry src).cache.lines[line]? = some e ∧
        e.isStale (src.lineText line) = false) ∧
    request.ask (request.ask c registry src).cache (request.ask c registry src).registry src =
      request.ask c registry src ∧
    ∀ (request' : CacheRequest) (range' : LineRange), request'.range? src = some range' →
      (∀ line < src.lineCount, range'.contains line = true →
        ∃ r ∈ c.pending ++ [range], r.contains line = true) →
      request'.ask (request.ask c registry src).cache (request.ask c registry src).registry src =
        ⟨.ok (request'.read src (request.ask c registry src).cache),
          (request.ask c registry src).cache, (request.ask c registry src).registry⟩ ∧
      ∀ line ts ts', request.tokensFor answer line = some ts →
        request'.tokensFor (request'.read src (request.ask c registry src).cache) line = some ts' →
        ts = ts' := by
  obtain ⟨c', registry', h_reply, h_settled⟩ := upToDate_ask h_range h_ok
  rw [h_reply] at h_ok ⊢
  obtain rfl := Except.ok.inj h_ok
  dsimp only
  -- what a request about settled lines comes to
  have h_again {request' : CacheRequest} {range' : LineRange}
      (h_range' : request'.range? src = some range')
      (h_sub : ∀ line < src.lineCount, range'.contains line = true →
        ∃ r ∈ c.pending ++ [range], r.contains line = true) :
      request'.ask c' registry' src = ⟨.ok (request'.read src c'), c', registry'⟩ := by
    refine ask_of_upToDate h_range' (h_settled.mono ?_)
    rintro line h_line ⟨r, h_r, h_contains⟩
    rw [List.mem_singleton.1 h_r] at h_contains
    exact h_sub line h_line h_contains
  refine ⟨?_, ?_, ?_⟩
  · intro line h_line h_asked
    have h_lt : line < c'.lines.length := by
      have := h_settled.lineCount
      rw [lineCount] at this
      omega
    refine ⟨c'.lines[line], List.getElem?_eq_getElem h_lt, ?_⟩
    have h_text := h_settled.text_eq h_asked (List.getElem?_eq_getElem h_lt)
    simp [LineEntry.isStale, h_text]
  · refine h_again h_range fun line _ h_contains => ?_
    exact ⟨range, List.mem_append_right _ (List.mem_singleton_self _), h_contains⟩
  · intro request' range' h_range' h_sub
    refine ⟨h_again h_range' h_sub, ?_⟩
    intro line ts ts' h_ts h_ts'
    rw [eq_tokensIn_of_tokensFor h_ts, eq_tokensIn_of_tokensFor h_ts']

/-- A cache that followed a `(` put at the start of line 4, and was not queried since. -/
def toldCache : TokenCache Nat :=
  (parenCache.onEdit parenRegistry ⟨"parens", ["a", "b", "c", "d", "(e", "f"]⟩
    [⟨⟨⟨4, 0⟩, ⟨4, 0⟩⟩, "("⟩]).cache

/-- The only token of a line under `parenGrammar`. -/
def parenToken (line : Nat) (text : String) : TokenInfo :=
  ⟨.onLine line 0 text.length, text, [⟨"source.parens"⟩], .other, .defaultFor ⟨2⟩⟩

/-- Lines 1 to 3 are queried when two of them have changed unnoticed, and so has line 4. -/
theorem settled_of_ask_toldCache :
    toldCache.pending = [⟨4, 6⟩] ∧
    ((CacheRequest.tokensForLines ⟨1, 4⟩).ask toldCache parenRegistry movedSource).answer =
      .ok (.lines [[parenToken 1 "("], [parenToken 2 "c"], [parenToken 3 "x"]]) ∧
    (∃ e, ((CacheRequest.tokensForLines ⟨1, 4⟩).ask toldCache parenRegistry
        movedSource).cache.lines[4]? = some e ∧ e.isStale "e" = false) ∧
    ((CacheRequest.lineTokens 3).ask
        ((CacheRequest.tokensForLines ⟨1, 4⟩).ask toldCache parenRegistry movedSource).cache
        ((CacheRequest.tokensForLines ⟨1, 4⟩).ask toldCache parenRegistry movedSource).registry
        movedSource).cache =
      ((CacheRequest.tokensForLines ⟨1, 4⟩).ask toldCache parenRegistry movedSource).cache := by
  have h_pending : toldCache.pending = [⟨4, 6⟩] := by cbv
  have h_ok : ((CacheRequest.tokensForLines ⟨1, 4⟩).ask toldCache parenRegistry
      movedSource).answer =
        .ok (.lines [[parenToken 1 "("], [parenToken 2 "c"], [parenToken 3 "x"]]) := by
    cbv
  obtain ⟨h_fresh, -, h_again⟩ := settled_of_ask toldCache parenRegistry movedSource
    (.tokensForLines ⟨1, 4⟩) ⟨1, 4⟩ rfl _ h_ok
  refine ⟨h_pending, h_ok, h_fresh 4 (by decide) ⟨⟨4, 6⟩, by simp [h_pending], rfl⟩, ?_⟩
  have h_sub : ∀ line < movedSource.lineCount, LineRange.contains ⟨3, 4⟩ line = true →
      ∃ r ∈ toldCache.pending ++ [⟨1, 4⟩], r.contains line = true := by
    rw [h_pending]
    decide
  rw [(h_again (.lineTokens 3) ⟨3, 4⟩ rfl h_sub).1]

end TokenCache

end ScopeTokens
