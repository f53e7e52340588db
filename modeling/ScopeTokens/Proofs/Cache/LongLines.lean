/-
  ScopeTokens.Proofs.Cache.LongLines

  Lines longer than `maxLineLength`. Such a line is one default token and hands
  the state above it on, so the other lines are computed as they are without it
  (`run_filter_withinLimit`), and what the grammar would answer for it does not
  matter (`run_of_agreesUpTo`). Hence a document is opened with its long lines as
  without them (`opensAlike_withoutLong`). All of this is about lines within the
  offset range (`FitsOffsets`); a line past it has no default token, and opening
  the document fails (`not_opensAlike_longSource`).
-/

import ScopeTokens.Proofs.Cache.InStep
import ScopeTokens.Proofs.Cache.Kept
import ScopeTokens.Proofs.Cache.Refreshes

namespace ScopeTokens

/-- `text` has at most `limit` characters. -/
def withinLimit (limit : Nat) (text : String) : Bool :=
  text.length ≤ limit

theorem withinLimit_iff {limit : Nat} {text : String} :
    withinLimit limit text = true ↔ text.length ≤ limit :=
  decide_eq_true_iff

/-- `src` without its lines of more than `limit` characters. -/
def LineSource.withoutLong (src : LineSource) (limit : Nat) : LineSource :=
  { src with lines := src.lines.filter (withinLimit limit) }

theorem LineSource.lines_withoutLong (src : LineSource) (limit : Nat) :
    (src.withoutLong limit).lines = src.lines.filter (withinLimit limit) := rfl

namespace Grammar

variable {σ : Type}

/-- `g` fails on none of the lines, given one after the other with the states between them. -/
def Accepts (g : Grammar σ) : Option σ → List String → Prop
  | _, [] => True
  | above, text :: texts =>
    ∃ answer, g.tokenizeLine text above = .ok answer ∧ g.Accepts (some answer.endState) texts

/-- `g'` answers as `g` for every line of at most `limit` characters. -/
structure AgreesUpTo (limit : Nat) (g g' : Grammar σ) : Prop where
  scopeName : g'.scopeName = g.scopeName
  tokenizeLine : ∀ text above, text.length ≤ limit →
    g'.tokenizeLine text above = g.tokenizeLine text above

end Grammar

namespace LineLexer

variable {σ : Type} {lx : LineLexer σ} {g : Grammar σ} {above : Option σ} {text : String}

/-! ## One line -/

/-- A line longer than the limit is skipped, and hands on the state above it. -/
theorem entry_of_long (h_grammar : lx.grammar = some g)
    (h : withinLimit lx.maxLineLength text = false) (h_text : text.length < UInt32.size)
    (above : Option σ) :
    lx.entry text above = .ok ⟨text, .whole text lx.language, .skipped above⟩ := by
  have h_long : lx.maxLineLength < text.length := by
    rw [← Nat.not_le, ← withinLimit_iff, h]
    exact Bool.false_ne_true
  simp only [entry, h_grammar, if_pos h_long, LineEntry.ofDefault_of_lt h_text]

theorem entry_of_answer (h_grammar : lx.grammar = some g)
    (h : withinLimit lx.maxLineLength text = true) (h_text : text.length < UInt32.size)
    {answer : LineTokenization σ} (h_answer : g.tokenizeLine text above = .ok answer) :
    lx.entry text above =
      .ok ⟨text, lx.keptTokens g.scopeName text answer.tokens, .parsed answer.endState⟩ := by
  have h_short := Nat.not_lt.2 (withinLimit_iff.1 h)
  simp only [entry, h_grammar, if_neg h_short, h_answer, build_eq _ _ _ h_text]

/-- What the grammar answers for lines longer than the limit does not matter. -/
theorem entry_of_agreesUpTo (h_grammar : lx.grammar = some g) {g' : Grammar σ}
    (h : g.AgreesUpTo lx.maxLineLength g') (text : String) (above : Option σ) :
    ({ lx with grammar := some g' } : LineLexer σ).entry text above = lx.entry text above := by
  simp only [entry, h_grammar]
  by_cases h_long : lx.maxLineLength < text.length
  · rw [if_pos h_long, if_pos h_long]
  · rw [if_neg h_long, if_neg h_long, h.tokenizeLine text above (Nat.not_lt.1 h_long), h.scopeName]
    rfl

/-- The lines within the limit are those that count as given to the grammar. -/
theorem work_of_entry (h_grammar : lx.grammar = some g) {e : LineEntry σ}
    (h : lx.entry text above = .ok e) :
    e.work = if withinLimit lx.maxLineLength e.text then .tokenized else .skipped := by
  rcases entry_cases h with ⟨h_none, -⟩ | ⟨g', -, h_long, rfl⟩ | ⟨g', answer, tokens, -, h_short, -,
    -, rfl⟩
  · rw [h_none] at h_grammar
    exact absurd h_grammar nofun
  · rw [if_neg fun h_fits => Nat.not_le.2 h_long (withinLimit_iff.1 h_fits)]
    rfl
  · rw [if_pos (withinLimit_iff.2 h_short)]
    rfl

/-! ## Lines from top to bottom -/

/-- Filtering a run by `withinLimit` is running over the filtered lines, with the same failure. -/
theorem run_filter_withinLimit (h_grammar : lx.grammar = some g) (above : Option σ)
    {texts : List String} (h_texts : FitsOffsets texts) :
    lx.run above (texts.filter (withinLimit lx.maxLineLength)) =
      ⟨(lx.run above texts).entries.filter fun e => withinLimit lx.maxLineLength e.text,
        (lx.run above texts).failure⟩ := by
  induction texts generalizing above with
  | nil => rfl
  | cons t ts ih =>
    obtain ⟨h_t, h_ts⟩ := List.forall_mem_cons.1 h_texts
    cases h_fits : withinLimit lx.maxLineLength t with
    | false =>
      -- the state above the long line is the one below it
      rw [List.filter_cons_of_neg (by simp [h_fits]), ih above h_ts,
        run_cons_of_ok (entry_of_long h_grammar h_fits h_t above),
        List.filter_cons_of_neg (by simp [h_fits])]
      rfl
    | true =>
      rw [List.filter_cons_of_pos h_fits]
      cases h_entry : lx.entry t above with
      | error e =>
        rw [run_cons_of_error h_entry, run_cons_of_error h_entry]
        rfl
      | ok e =>
        have h_e : withinLimit lx.maxLineLength e.text = true := by
          rw [text_of_entry h_entry]
          exact h_fits
        rw [run_cons_of_ok h_entry, run_cons_of_ok h_entry, ih _ h_ts]
        simp [h_e]

theorem run_of_agreesUpTo (h_grammar : lx.grammar = some g) {g' : Grammar σ}
    (h : g.AgreesUpTo lx.maxLineLength g') (above : Option σ) (texts : List String) :
    ({ lx with grammar := some g' } : LineLexer σ).run above texts = lx.run above texts := by
  induction texts generalizing above with
  | nil => rfl
  | cons t ts ih => simp only [run, entry_of_agreesUpTo h_grammar h, ih]

/-- A run over lines that `g` accepts does not fail. -/
theorem failure_run_of_accepts (h_grammar : lx.grammar = some g) {texts : List String}
    (h_texts : FitsOffsets texts) (h_fits : ∀ t ∈ texts, withinLimit lx.maxLineLength t = true)
    (h : g.Accepts above texts) :
    (lx.run above texts).failure = none := by
  induction texts generalizing above with
  | nil => rfl
  | cons t ts ih =>
    obtain ⟨h_first, h_rest⟩ := List.forall_mem_cons.1 h_fits
    obtain ⟨h_t, h_ts⟩ := List.forall_mem_cons.1 h_texts
    obtain ⟨answer, h_answer, h_accepts⟩ := h
    rw [run_cons_of_ok (entry_of_answer h_grammar h_first h_t h_answer)]
    exact ih h_ts h_rest h_accepts

theorem foldl_work {limit : Nat} {es : List (LineEntry σ)}
    (h : ∀ e ∈ es, e.work = if withinLimit limit e.text then .tokenized else .skipped)
    (work : CacheStats) :
    es.foldl (fun w e => w + e.work) work =
      work + ⟨(es.map LineEntry.text).countP (withinLimit limit),
        (es.map LineEntry.text).countP fun text => !withinLimit limit text, 0, 0⟩ := by
  induction es generalizing work with
  | nil => rfl
  | cons e es ih =>
    obtain ⟨h_first, h_rest⟩ := List.forall_mem_cons.1 h
    rw [List.foldl_cons, ih h_rest, h_first, List.map_cons, List.countP_cons, List.countP_cons,
      CacheStats.add_assoc]
    congr 1
    cases withinLimit limit e.text <;>
      simp [CacheStats.add_def, CacheStats.tokenized, CacheStats.skipped, Nat.add_comm]

/-- Each line within the limit is given to the grammar once, each other line is skipped. -/
theorem work_run (h_grammar : lx.grammar = some g) {texts : List String}
    (h : (lx.run above texts).failure = none) :
    (lx.run above texts).work =
      ⟨texts.countP (withinLimit lx.maxLineLength),
        texts.countP fun text => !withinLimit lx.maxLineLength text, 0, 0⟩ := by
  have h_entries : ∀ e ∈ (lx.run above texts).entries,
      e.work = if withinLimit lx.maxLineLength e.text then .tokenized else .skipped := by
    intro e h_e
    obtain ⟨above', h_entry⟩ := (chained_run lx above texts).exists_entry h_e
    exact work_of_entry h_grammar h_entry
  rw [Run.work, foldl_work h_entries, map_text_run_of_ok h, CacheStats.zero_add]

end LineLexer

namespace TokenCache

variable {σ : Type}

/-! ## Opening a document -/

/-- The lexer of `c` after it is opened in `language` with grammar `g`. -/
def openingLexer (c : TokenCache σ) (languages : LanguageTable) (language : String)
    (g : Grammar σ) : LineLexer σ :=
  ⟨some g, languages, languages.idOf language, c.config.maxLineLength⟩

/-- `r` is the reply to opening `src` without a failure: the entries of a run from the top, one
    refresh, and the work of the run. -/
structure Opened (c : TokenCache σ) (lx : LineLexer σ) (src : LineSource) (r : Reply σ Unit) :
    Prop where
  answer : r.answer = .ok ()
  lines : r.cache.lines = (lx.run none src.lines).entries
  languageId : r.cache.languageId = lx.language
  stats : r.cache.stats = c.stats + .refresh + (lx.run none src.lines).work

variable {src : LineSource} {scope : ScopeName} {g : Grammar σ}

theorem opened_refresh (c : TokenCache σ) (registry : Registry (Grammar σ)) (src : LineSource)
    (h_scope : registry.languages.scopeNameOf src.language = some scope)
    (h_grammar : (registry.loadGrammar scope).1 = .ok (some g))
    (h : ((c.openingLexer registry.languages src.language g).run none src.lines).failure = none) :
    Opened c (c.openingLexer registry.languages src.language g) src (c.refresh registry src) := by
  have h_languages := registry.languages_loadGrammar scope
  unfold refresh
  simp only [h_scope]
  cases h_load : registry.loadGrammar scope with
  | mk answer registry' =>
    rw [h_load] at h_grammar h_languages
    dsimp only at h_grammar h_languages
    subst h_grammar
    -- loading registers no language, so the lexer is the one of `h`
    have h_run : ((TokenCache.lexer { c.worked .refresh with
        language := src.language
        languageId := registry.languages.idOf src.language
        grammar := some g } registry'.languages).run none src.lines).failure = none := by
      rw [h_languages]
      exact h
    dsimp only
    unfold parseAll
    dsimp only
    rw [h_run]
    dsimp only
    rw [h_languages]
    exact ⟨rfl, rfl, rfl, rfl⟩

/-- `src` is opened with its long lines (`whole`) as it is without them (`short`). -/
structure OpensAlike (limit : Nat) (src : LineSource) (whole short : Reply σ Unit) : Prop where
  answer_whole : whole.answer = .ok ()
  answer_short : short.answer = .ok ()
  texts : whole.cache.texts = src.lines
  tokens_of_long : ∀ e ∈ whole.cache.lines, limit < e.text.length →
    e.tokens = .whole e.text whole.cache.languageId
  lines : whole.cache.lines.filter (fun e => withinLimit limit e.text) = short.cache.lines

theorem opensAlike_of_opened {lx : LineLexer σ} {whole short : Reply σ Unit}
    (h_grammar : lx.grammar = some g) (h_texts : FitsOffsets src.lines)
    (h_run : (lx.run none src.lines).failure = none)
    (h_whole : Opened c lx src whole)
    (h_short : Opened c lx (src.withoutLong lx.maxLineLength) short) :
    OpensAlike lx.maxLineLength src whole short where
  answer_whole := h_whole.answer
  answer_short := h_short.answer
  texts := by
    rw [TokenCache.texts, h_whole.lines]
    exact LineLexer.map_text_run_of_ok h_run
  tokens_of_long e h_e h_long := by
    rw [h_whole.lines] at h_e
    obtain ⟨above, h_entry⟩ := (LineLexer.chained_run lx none src.lines).exists_entry h_e
    have h_beyond : withinLimit lx.maxLineLength e.text = false := by
      rw [Bool.eq_false_iff, Ne, withinLimit_iff]
      exact Nat.not_le.2 h_long
    have h_text := LineLexer.length_lt_of_entry h_entry
    rw [LineLexer.entry_of_long h_grammar h_beyond h_text] at h_entry
    rw [h_whole.languageId]
    exact congrArg LineEntry.tokens (Except.ok.inj h_entry).symm
  lines := by
    have h_filter := LineLexer.run_filter_withinLimit h_grammar none h_texts
    rw [h_whole.lines, h_short.lines, LineSource.lines_withoutLong, h_filter]

/-- Lines beyond `maxLineLength` are transparent. If `g` accepts the other lines, and all lines are
    within the offset range, then `src` is opened as it is without its long lines (`OpensAlike`):
    each of these is one default token, and all other lines have the same tokens, scopes and end
    states. The counters say that `g` was given every other line once and no long line, and a
    grammar `g'` that says something else of long lines only, be it that it fails, makes no
    difference. -/
theorem opensAlike_withoutLong (c : TokenCache σ) (registry : Registry (Grammar σ))
    (src : LineSource) {scope : ScopeName} {g : Grammar σ}
    (h_scope : registry.languages.scopeNameOf src.language = some scope)
    (h_grammar : (registry.loadGrammar scope).1 = .ok (some g))
    (h_accepts : g.Accepts none (src.withoutLong c.config.maxLineLength).lines)
    (h_fits : FitsOffsets src.lines) :
    OpensAlike c.config.maxLineLength src (c.refresh registry src)
      (c.refresh registry (src.withoutLong c.config.maxLineLength)) ∧
    (c.refresh registry src).cache.stats = c.stats +
      ⟨src.lines.countP (withinLimit c.config.maxLineLength),
        src.lines.countP fun text => !withinLimit c.config.maxLineLength text, 0, 1⟩ ∧
    ∀ g' : Grammar σ, g.AgreesUpTo c.config.maxLineLength g' →
      (c.refresh (registry.insertGrammar scope g') src).answer = .ok () ∧
      (c.refresh (registry.insertGrammar scope g') src).cache.lines =
        (c.refresh registry src).cache.lines ∧
      (c.refresh (registry.insertGrammar scope g') src).cache.stats =
        (c.refresh registry src).cache.stats := by
  have h_lexer : (c.openingLexer registry.languages src.language g).grammar = some g := rfl
  have h_fits_short : FitsOffsets (src.withoutLong c.config.maxLineLength).lines :=
    fun t h_t => h_fits t (List.mem_filter.1 h_t).1
  have h_short := LineLexer.failure_run_of_accepts h_lexer h_fits_short
    (fun t h_t => (List.mem_filter.1 h_t).2) h_accepts
  -- leaving long lines out does not change what stops the computation, which is nothing here
  have h_run : ((c.openingLexer registry.languages src.language g).run none src.lines).failure =
      none := by
    have h_filter := LineLexer.run_filter_withinLimit h_lexer none h_fits
    exact (congrArg LineLexer.Run.failure h_filter).symm.trans h_short
  have h_opened := opened_refresh c registry src h_scope h_grammar h_run
  have h_opened_short := opened_refresh c registry (src.withoutLong c.config.maxLineLength)
    h_scope h_grammar h_short
  refine ⟨opensAlike_of_opened h_lexer h_fits h_run h_opened h_opened_short, ?_,
    fun g' h_agrees => ?_⟩
  · rw [h_opened.stats, LineLexer.work_run h_lexer h_run, CacheStats.add_assoc]
    congr 1
    simp [CacheStats.add_def, CacheStats.refresh, openingLexer]
  · have h_same := LineLexer.run_of_agreesUpTo h_lexer h_agrees none src.lines
    have h_cached : (registry.insertGrammar scope g').cached? scope = some (some g') :=
      Registry.cached?_remember_self registry scope (some g')
    have h_load : ((registry.insertGrammar scope g').loadGrammar scope).1 = .ok (some g') := by
      rw [Registry.loadGrammar_of_cached h_cached]
    have h_opened' := opened_refresh c (registry.insertGrammar scope g') src h_scope h_load
      ((congrArg LineLexer.Run.failure h_same).trans h_run)
    refine ⟨h_opened'.answer, ?_, ?_⟩
    · rw [h_opened'.lines, h_opened.lines]
      exact congrArg LineLexer.Run.entries h_same
    · rw [h_opened'.stats, h_opened.stats]
      exact congrArg (c.stats + .refresh + LineLexer.Run.work ·) h_same

/-- A grammar of parentheses that fails on every line of more than three characters. -/
def terseGrammar : Grammar Nat where
  scopeName := ⟨"source.terse"⟩
  tokenizeLine text above :=
    if 3 < text.length then .error (.tokenizeFailed ⟨"source.terse"⟩ "too much")
    else .ok ⟨[⟨0, 1, [⟨"source.terse"⟩]⟩], above.getD 0 + text.toList.count '('⟩

/-- Agrees with `terseGrammar` on shorter lines, and answers for longer ones. -/
def closingGrammar : Grammar Nat where
  scopeName := ⟨"source.terse"⟩
  tokenizeLine text above :=
    if 3 < text.length then .ok ⟨[], 0⟩ else terseGrammar.tokenizeLine text above

def terseRegistry : Registry (Grammar Nat) :=
  (Registry.ofLanguages ⟨[⟨"plaintext", none, []⟩, ⟨"terse", some ⟨"source.terse"⟩, []⟩]⟩)
    |>.registerGrammar terseGrammar

/-- Long lines come first, last, and twice in a row between two short ones. -/
def terseSource : LineSource :=
  ⟨"terse", ["beyond (", "(a(", "((((", "and more", "b(", "(((((("]⟩

theorem opensAlike_withoutLong_terseSource :
    terseRegistry.languages.scopeNameOf terseSource.language = some ⟨"source.terse"⟩ ∧
    (terseRegistry.loadGrammar ⟨"source.terse"⟩).1 = .ok (some terseGrammar) ∧
    terseGrammar.Accepts none (terseSource.withoutLong 3).lines ∧
    FitsOffsets terseSource.lines ∧
    OpensAlike 3 terseSource ((initial ⟨3⟩).refresh terseRegistry terseSource)
      ((initial ⟨3⟩).refresh terseRegistry ⟨"terse", ["(a(", "b("]⟩) ∧
    ((initial ⟨3⟩).refresh terseRegistry terseSource).cache.stats = ⟨2, 4, 0, 1⟩ ∧
    terseGrammar.AgreesUpTo 3 closingGrammar ∧
    ((initial ⟨3⟩).refresh (terseRegistry.insertGrammar ⟨"source.terse"⟩ closingGrammar)
      terseSource).cache.lines =
        ((initial ⟨3⟩).refresh terseRegistry terseSource).cache.lines := by
  have h_scope : terseRegistry.languages.scopeNameOf terseSource.language =
      some ⟨"source.terse"⟩ := by cbv
  have h_grammar : (terseRegistry.loadGrammar ⟨"source.terse"⟩).1 = .ok (some terseGrammar) := by
    cbv
  have h_accepts : terseGrammar.Accepts none (terseSource.withoutLong 3).lines :=
    ⟨_, rfl, _, rfl, trivial⟩
  have h_agrees : terseGrammar.AgreesUpTo 3 closingGrammar :=
    ⟨rfl, fun _ _ h => if_neg (Nat.not_lt.2 h)⟩
  have h_fits : FitsOffsets terseSource.lines := by decide
  obtain ⟨h_alike, h_stats, h_other⟩ := opensAlike_withoutLong (initial ⟨3⟩) terseRegistry
    terseSource h_scope h_grammar h_accepts h_fits
  exact ⟨h_scope, h_grammar, h_accepts, h_fits, h_alike, h_stats, h_agrees,
    (h_other closingGrammar h_agrees).2.1⟩

/-- `longSource` is opened with a limit of 3. The grammar accepts the document without its long
    line, which is the empty one; but with the line, which has no default token, opening fails. -/
theorem not_opensAlike_longSource :
    terseRegistry.languages.scopeNameOf (longSource "terse").language = some ⟨"source.terse"⟩ ∧
    (terseRegistry.loadGrammar ⟨"source.terse"⟩).1 = .ok (some terseGrammar) ∧
    terseGrammar.Accepts none ((longSource "terse").withoutLong 3).lines ∧
    ((initial ⟨3⟩).refresh terseRegistry (longSource "terse")).answer =
      .error (.partition (.textTooLong UInt32.size)) ∧
    ¬ OpensAlike 3 (longSource "terse") ((initial ⟨3⟩).refresh terseRegistry (longSource "terse"))
      ((initial ⟨3⟩).refresh terseRegistry ((longSource "terse").withoutLong 3)) := by
  have h_scope : terseRegistry.languages.scopeNameOf (longSource "terse").language =
      some ⟨"source.terse"⟩ := by
    show terseRegistry.languages.scopeNameOf "terse" = _
    cbv
  have h_grammar : terseRegistry.loadGrammar ⟨"source.terse"⟩ =
      (.ok (some terseGrammar), terseRegistry) := by
    cbv
  -- the one line is over the limit, so that without it no line is left
  have h_lines : ((longSource "terse").withoutLong 3).lines = [] := by
    have h_beyond : ¬ withinLimit 3 (letters UInt32.size) = true := by
      rw [withinLimit_iff, length_letters]
      decide
    rw [LineSource.lines_withoutLong, lines_longSource, List.filter_cons_of_neg h_beyond,
      List.filter_nil]
  have h_error : ((initial ⟨3⟩).refresh terseRegistry (longSource "terse")).answer =
      .error (.partition (.textTooLong UInt32.size)) := by
    rw [refresh, h_scope]
    dsimp only
    rw [h_grammar]
    dsimp only
    rw [answer_parseAll, LineLexer.failure_run_longSource (.inr (by decide))]
  refine ⟨h_scope, congrArg Prod.fst h_grammar, ?_, h_error, ?_⟩
  · rw [h_lines]
    trivial
  · intro h_alike
    cases h_error.symm.trans h_alike.answer_whole

end TokenCache

end ScopeTokens
