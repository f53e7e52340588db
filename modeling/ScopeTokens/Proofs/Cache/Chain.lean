/-
  ScopeTokens.Proofs.Cache.Chain

  Chains of entries. Entries are `Chained` if each is what `LineLexer.entry` makes
  of its own text in the state that the entry above it ended in. The entries of a
  run are chained, and a run over the texts of chained entries gives these
  entries; so `parse` answers with `es` exactly if `es` are chained and have the
  texts of the document (`parse_eq_ok_iff`).
-/

import ScopeTokens.Cache.Entry
import ScopeTokens.Proofs.Token.Partition

namespace ScopeTokens

/-- Every text is within the offset range: its length is a 32-bit word. -/
def FitsOffsets (texts : List String) : Prop :=
  ∀ text ∈ texts, text.length < UInt32.size

instance (texts : List String) : Decidable (FitsOffsets texts) :=
  inferInstanceAs (Decidable (∀ text ∈ texts, text.length < UInt32.size))

namespace LineEntry

variable {σ : Type}

/-! ## Default tokens -/

theorem ofDefault_of_lt {text : String} (h : text.length < UInt32.size) (language : LanguageId)
    (outcome : LineOutcome σ) :
    ofDefault text language outcome = .ok ⟨text, .whole text language, outcome⟩ := by
  rw [ofDefault, ScopedTokens.default, TokenLine.single_eq, TokenLine.guardLength_of_lt h]
  rfl

theorem ofDefault_of_le {text : String} (h : UInt32.size ≤ text.length) (language : LanguageId)
    (outcome : LineOutcome σ) :
    ofDefault text language outcome = .error (.partition (.textTooLong text.length)) := by
  rw [ofDefault, ScopedTokens.default, TokenLine.single_eq, TokenLine.guardLength_of_le h]
  rfl

theorem ofDefault_eq_ok_iff {text : String} {language : LanguageId} {outcome : LineOutcome σ}
    {e : LineEntry σ} :
    ofDefault text language outcome = .ok e ↔
      text.length < UInt32.size ∧ e = ⟨text, .whole text language, outcome⟩ := by
  rcases Nat.lt_or_ge text.length UInt32.size with h_lt | h_le
  · rw [ofDefault_of_lt h_lt, and_iff_right h_lt, Except.ok.injEq, eq_comm]
  · rw [ofDefault_of_le h_le]
    refine iff_of_false nofun ?_
    rintro ⟨h_lt, -⟩
    exact Nat.not_lt.2 h_le h_lt

theorem mapM_ofDefault {texts : List String} (h : FitsOffsets texts) (language : LanguageId) :
    texts.mapM (fun text => ofDefault text language .plain) =
      Except.ok (texts.map fun text => (plain text language : LineEntry σ)) := by
  induction texts with
  | nil => rfl
  | cons t ts ih =>
    obtain ⟨h_t, h_ts⟩ := List.forall_mem_cons.1 h
    rw [List.mapM_cons, ofDefault_of_lt h_t, ih h_ts]
    rfl

/-- One text past the offset range is enough for `mapM` to fail. -/
theorem exists_mapM_ofDefault_eq_error {texts : List String} (h : ¬ FitsOffsets texts)
    (language : LanguageId) :
    ∃ err, texts.mapM (fun text => (ofDefault text language .plain : Except _ (LineEntry σ))) =
      Except.error err := by
  induction texts with
  | nil => exact absurd (fun _ h_mem => absurd h_mem List.not_mem_nil) h
  | cons t ts ih =>
    rw [List.mapM_cons]
    rcases Nat.lt_or_ge t.length UInt32.size with h_lt | h_le
    · have h_ts : ¬ FitsOffsets ts := fun h_fits => h (List.forall_mem_cons.2 ⟨h_lt, h_fits⟩)
      obtain ⟨err, h_err⟩ := ih h_ts
      rw [ofDefault_of_lt h_lt, h_err]
      exact ⟨err, rfl⟩
    · rw [ofDefault_of_le h_le]
      exact ⟨_, rfl⟩

end LineEntry

namespace LineLexer

variable {σ : Type} {lx : LineLexer σ} {above : Option σ} {text : String} {e : LineEntry σ}

/-! ## One entry -/

/-- What `lx.entry` can answer with: the entry of a line without a grammar, of one longer than the
    limit, or of one that the grammar gave tokens for. -/
theorem entry_cases (h : lx.entry text above = .ok e) :
    (lx.grammar = none ∧ e = .plain text lx.language) ∨
    (∃ g, lx.grammar = some g ∧ lx.maxLineLength < text.length ∧
      e = ⟨text, .whole text lx.language, .skipped above⟩) ∨
    (∃ g answer tokens, lx.grammar = some g ∧ text.length ≤ lx.maxLineLength ∧
      g.tokenizeLine text above = .ok answer ∧
      lx.build g.scopeName text answer.tokens = .ok tokens ∧
      e = ⟨text, tokens, .parsed answer.endState⟩) := by
  unfold entry at h
  split at h
  · rename_i h_none
    exact .inl ⟨h_none, (LineEntry.ofDefault_eq_ok_iff.1 h).2⟩
  · rename_i g h_some
    split at h
    · rename_i h_long
      exact .inr (.inl ⟨g, h_some, h_long, (LineEntry.ofDefault_eq_ok_iff.1 h).2⟩)
    · rename_i h_short
      split at h
      · exact absurd h nofun
      · rename_i answer h_answer
        split at h
        · exact absurd h nofun
        · rename_i tokens h_tokens
          exact .inr (.inr ⟨g, answer, tokens, h_some, Nat.not_lt.1 h_short, h_answer, h_tokens,
            (Except.ok.inj h).symm⟩)

theorem text_of_entry (h : lx.entry text above = .ok e) : e.text = text := by
  rcases entry_cases h with ⟨-, rfl⟩ | ⟨g, -, -, rfl⟩ | ⟨g, answer, tokens, -, -, -, -, rfl⟩
  · rfl
  · rfl
  · rfl

/-- Without a grammar the state `above` is ignored. -/
theorem entry_of_grammar_none (h : lx.grammar = none) (text : String) (above : Option σ) :
    lx.entry text above = LineEntry.ofDefault text lx.language .plain := by
  unfold entry
  rw [h]

theorem entry_eq_plain (h : lx.grammar = none) (h_text : text.length < UInt32.size)
    (above : Option σ) : lx.entry text above = .ok (.plain text lx.language) := by
  rw [entry_of_grammar_none h, LineEntry.ofDefault_of_lt h_text]
  rfl

/-- `lx.entry` succeeds only on a line within the offset range. -/
theorem length_lt_of_entry (h : lx.entry text above = .ok e) : text.length < UInt32.size := by
  unfold entry at h
  split at h
  · exact (LineEntry.ofDefault_eq_ok_iff.1 h).1
  · split at h
    · exact (LineEntry.ofDefault_eq_ok_iff.1 h).1
    · split at h
      · exact absurd h nofun
      · split at h
        · exact absurd h nofun
        · rename_i answer h_answer tokens h_tokens
          unfold build at h_tokens
          dsimp only at h_tokens
          split at h_tokens
          · exact absurd h_tokens nofun
          · rename_i line h_line
            exact (TokenLine.guardLength_eq_ok_iff.1 h_line).1

/-! ## Chained entries -/

/-- The state below `es`, given the state `above` them. -/
def stateAfter (above : Option σ) (es : List (LineEntry σ)) : Option σ :=
  es.foldl (fun _ e => e.endState) above

theorem stateAfter_append (above : Option σ) (es fs : List (LineEntry σ)) :
    stateAfter above (es ++ fs) = stateAfter (stateAfter above es) fs :=
  List.foldl_append

theorem stateAfter_concat (above : Option σ) (es : List (LineEntry σ)) (e : LineEntry σ) :
    stateAfter above (es ++ [e]) = e.endState := by
  rw [stateAfter_append]
  rfl

theorem stateBelow_concat (es : List (LineEntry σ)) (e : LineEntry σ) :
    stateBelow (es ++ [e]) = e.endState := by
  rw [stateBelow, List.getLast?_concat]
  rfl

/-- Below at least one entry, `above` does not matter. -/
theorem stateAfter_of_ne_nil (above : Option σ) {es : List (LineEntry σ)} (h : es ≠ []) :
    stateAfter above es = stateBelow es := by
  rw [← List.dropLast_concat_getLast h, stateAfter_concat, stateBelow_concat]

theorem stateAfter_none (es : List (LineEntry σ)) : stateAfter none es = stateBelow es := by
  by_cases h : es = []
  · rw [h]
    rfl
  · exact stateAfter_of_ne_nil none h

/-- Each entry is `lx.entry` of its own text, in the state that is handed down to it. -/
def Chained (lx : LineLexer σ) (above : Option σ) : List (LineEntry σ) → Prop
  | [] => True
  | e :: es => lx.entry e.text above = .ok e ∧ Chained lx e.endState es

theorem chained_append {es fs : List (LineEntry σ)} :
    Chained lx above (es ++ fs) ↔ Chained lx above es ∧ Chained lx (stateAfter above es) fs := by
  induction es generalizing above with
  | nil => simp [Chained, stateAfter]
  | cons e es ih =>
    rw [List.cons_append, Chained, Chained, ih, and_assoc]
    rfl

/-- Without a grammar, `above` can be any state. -/
theorem Chained.of_grammar_none (h_none : lx.grammar = none) {es : List (LineEntry σ)}
    (h : Chained lx above es) (above' : Option σ) : Chained lx above' es := by
  cases es with
  | nil => trivial
  | cons e es =>
    refine ⟨?_, h.2⟩
    rw [entry_of_grammar_none h_none, ← entry_of_grammar_none h_none e.text above]
    exact h.1

/-- An entry of a chain is `lx.entry` of its own text, in some state. -/
theorem Chained.exists_entry {es : List (LineEntry σ)} (h : Chained lx above es) (h_e : e ∈ es) :
    ∃ above', lx.entry e.text above' = .ok e := by
  induction es generalizing above with
  | nil => exact absurd h_e List.not_mem_nil
  | cons e' es ih =>
    rcases List.mem_cons.1 h_e with rfl | h_mem
    · exact ⟨above, h.1⟩
    · exact ih h.2 h_mem

theorem chained_map_plain (h : lx.grammar = none) {texts : List String}
    (h_texts : FitsOffsets texts) (above : Option σ) :
    Chained lx above (texts.map fun text => .plain text lx.language) := by
  induction texts generalizing above with
  | nil => trivial
  | cons t ts ih =>
    obtain ⟨h_t, h_ts⟩ := List.forall_mem_cons.1 h_texts
    exact ⟨entry_eq_plain h h_t above, ih h_ts _⟩

/-! ## Lines from top to bottom -/

theorem run_nil (lx : LineLexer σ) (above : Option σ) : lx.run above [] = ⟨[], none⟩ := rfl

theorem run_cons_of_ok {texts : List String} (h : lx.entry text above = .ok e) :
    lx.run above (text :: texts) =
      ⟨e :: (lx.run e.endState texts).entries, (lx.run e.endState texts).failure⟩ := by
  rw [run, h]

theorem run_cons_of_error {texts : List String} {err : TokenizeError}
    (h : lx.entry text above = .error err) : lx.run above (text :: texts) = ⟨[], some err⟩ := by
  rw [run, h]

theorem chained_run (lx : LineLexer σ) (above : Option σ) (texts : List String) :
    Chained lx above (lx.run above texts).entries := by
  induction texts generalizing above with
  | nil => trivial
  | cons t ts ih =>
    cases h : lx.entry t above with
    | error err =>
      rw [run_cons_of_error h]
      trivial
    | ok e =>
      rw [run_cons_of_ok h]
      refine ⟨?_, ih e.endState⟩
      -- the entry keeps the text that it was computed from
      rw [text_of_entry h]
      exact h

/-- The entries of a run have the texts that it was given, up to the one that it failed on. -/
theorem map_text_run (lx : LineLexer σ) (above : Option σ) (texts : List String) :
    (lx.run above texts).entries.map LineEntry.text <+: texts := by
  induction texts generalizing above with
  | nil => exact List.prefix_rfl
  | cons t ts ih =>
    cases h : lx.entry t above with
    | error err =>
      rw [run_cons_of_error h]
      exact List.nil_prefix
    | ok e =>
      rw [run_cons_of_ok h, List.map_cons, text_of_entry h]
      exact List.cons_prefix_cons.2 ⟨rfl, ih e.endState⟩

theorem map_text_run_of_ok {texts : List String} (h : (lx.run above texts).failure = none) :
    (lx.run above texts).entries.map LineEntry.text = texts := by
  refine (map_text_run lx above texts).eq_of_length ?_
  rw [List.length_map, length_run h]

/-- A run that fails does so with more lines below it as well. -/
theorem failure_run_append_of_some {texts : List String} {err : TokenizeError}
    (h : (lx.run above texts).failure = some err) (below : List String) :
    (lx.run above (texts ++ below)).failure = some err := by
  induction texts generalizing above with
  | nil => exact absurd h nofun
  | cons t ts ih =>
    rw [List.cons_append]
    cases h_entry : lx.entry t above with
    | error err' =>
      rw [run_cons_of_error h_entry] at h ⊢
      exact h
    | ok e =>
      rw [run_cons_of_ok h_entry] at h ⊢
      exact ih h

/-- A run over all `texts` goes on below them in `stateAfter`. -/
theorem failure_run_append_of_ok {texts : List String} {es : List (LineEntry σ)}
    (h : lx.run above texts = ⟨es, none⟩) (below : List String) :
    (lx.run above (texts ++ below)).failure = (lx.run (stateAfter above es) below).failure := by
  induction texts generalizing above es with
  | nil =>
    rw [run_nil, Run.mk.injEq] at h
    rw [← h.1]
    rfl
  | cons t ts ih =>
    rw [List.cons_append]
    cases h_entry : lx.entry t above with
    | error err =>
      rw [run_cons_of_error h_entry, Run.mk.injEq] at h
      exact absurd h.2 nofun
    | ok e =>
      rw [run_cons_of_ok h_entry, Run.mk.injEq] at h
      rw [run_cons_of_ok h_entry, ← h.1]
      -- the tail succeeds as well, from the state after `t`
      have h_rest : lx.run e.endState ts = ⟨(lx.run e.endState ts).entries, none⟩ := by
        rw [← h.2]
      exact ih h_rest

/-- A run over the texts of a chain gives the chain. -/
theorem Chained.run_eq {es : List (LineEntry σ)} (h : Chained lx above es) :
    lx.run above (es.map LineEntry.text) = ⟨es, none⟩ := by
  induction es generalizing above with
  | nil => rfl
  | cons e es ih => rw [List.map_cons, run_cons_of_ok h.1, ih h.2]

/-- `parse` succeeds with exactly the chains that have the texts of the document. -/
theorem parse_eq_ok_iff {texts : List String} {es : List (LineEntry σ)} :
    lx.parse texts = .ok es ↔ Chained lx none es ∧ es.map LineEntry.text = texts := by
  constructor
  · intro h
    unfold parse at h
    cases h_failure : (lx.run none texts).failure with
    | some err => simp [h_failure] at h
    | none =>
      simp only [h_failure, Except.ok.injEq] at h
      rw [← h]
      exact ⟨chained_run lx none texts, map_text_run_of_ok h_failure⟩
  · rintro ⟨h_chain, rfl⟩
    unfold parse
    rw [h_chain.run_eq]

end LineLexer

/-! ## A line past the offset range -/

/-- A document of one line, which is past the offset range. -/
def longSource (language : String) : LineSource :=
  ⟨language, [letters UInt32.size]⟩

theorem lines_longSource (language : String) :
    (longSource language).lines = [letters UInt32.size] := rfl

theorem size_le_length_letters : UInt32.size ≤ (letters UInt32.size).length :=
  (length_letters _).ge

theorem not_fitsOffsets_longSource (language : String) :
    ¬ FitsOffsets (longSource language).lines := by
  intro h
  exact Nat.not_lt.2 size_le_length_letters (h _ List.mem_cons_self)

/-- A run over `longSource` fails where the line is to get its default token: without a grammar, or
    with one if the line is longer than the limit. -/
theorem LineLexer.failure_run_longSource {σ : Type} {lx : LineLexer σ}
    (h : lx.grammar = none ∨ lx.maxLineLength < UInt32.size) (language : String) :
    (lx.run none (longSource language).lines).failure =
      some (.partition (.textTooLong UInt32.size)) := by
  have h_entry : lx.entry (letters UInt32.size) none =
      .error (.partition (.textTooLong UInt32.size)) := by
    have h_default (outcome : LineOutcome σ) :=
      LineEntry.ofDefault_of_le size_le_length_letters lx.language outcome
    rw [length_letters] at h_default
    unfold entry
    split
    · exact h_default _
    · rename_i g h_grammar
      have h_limit : lx.maxLineLength < UInt32.size := by
        rw [h_grammar] at h
        exact h.resolve_left nofun
      rw [if_pos (h_limit.trans_le size_le_length_letters)]
      exact h_default _
  rw [lines_longSource, run_cons_of_error h_entry]

end ScopeTokens
