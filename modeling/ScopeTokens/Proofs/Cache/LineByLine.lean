/-
  ScopeTokens.Proofs.Cache.LineByLine

  Many lines at once and one by one. Healing a range is healing the front of it
  and then the rest (`heal_split`): what the first pass redoes below its own lines
  the second leaves alone, and where the first stops the second goes on as if
  there had been one pass. So `tokensForLines` answers with the tokens of its
  lines, queried in order, and leaves the same cache (`tokensForLines_eq`). The
  token at a position is the one of its line that holds it
  (`tokensForLines_eq_and_tokenAt`).
-/

import ScopeTokens.Proofs.Cache.LineAnswers
import ScopeTokens.Proofs.Cache.Settling
import ScopeTokens.Proofs.Token.Lookup

namespace ScopeTokens

namespace LineLexer

variable {σ : Type}

/-! ## One healing after another -/

/-- Heals on with `next`, unless `h` failed. -/
def Healing.andThen (h : Healing σ) (next : List (LineEntry σ) → Healing σ) : Healing σ :=
  match h.failure with
  | some _ => h
  | none => ⟨(next h.entries).entries, h.work + (next h.entries).work, (next h.entries).failure⟩

/-- `h` with one more entry on top, for which `work` was done. -/
def Healing.cons (e : LineEntry σ) (work : CacheStats) (h : Healing σ) : Healing σ :=
  ⟨e :: h.entries, work + h.work, h.failure⟩

namespace Healing

theorem cons_zero (e : LineEntry σ) (h : Healing σ) :
    h.cons e .zero = ⟨e :: h.entries, h.work, h.failure⟩ := by
  rw [cons, CacheStats.zero_add]

/-- If the first healing did nothing, only the second counts. -/
theorem nothing_andThen (es : List (LineEntry σ)) (next : List (LineEntry σ) → Healing σ) :
    (⟨es, .zero, none⟩ : Healing σ).andThen next = next es := by
  simp only [andThen, CacheStats.zero_add]

/-- A line that the second healing leaves alone stays on top. -/
theorem cons_andThen {e : LineEntry σ} {work : CacheStats} {h : Healing σ}
    {next below : List (LineEntry σ) → Healing σ}
    (h_next : next (e :: h.entries) = (below h.entries).cons e .zero) :
    (h.cons e work).andThen next = (h.andThen below).cons e work := by
  cases h_failure : h.failure with
  | some err => simp only [andThen, cons, h_failure]
  | none => simp only [andThen, cons, h_failure, h_next, CacheStats.zero_add, CacheStats.add_assoc]

theorem andThen_assoc (h : Healing σ) (f g : List (LineEntry σ) → Healing σ) :
    (h.andThen f).andThen g = h.andThen fun es => (f es).andThen g := by
  cases h_failure : h.failure with
  | some err => simp only [andThen, h_failure]
  | none =>
    cases h_next : (f h.entries).failure with
    | some err => simp only [andThen, h_failure, h_next]
    | none => simp only [andThen, h_failure, h_next, CacheStats.add_assoc]

end Healing

/-! ## A range in two parts -/

/-- While the front of a range is healed, the rest of it makes no difference. -/
theorem redoes_front {above : Above σ} {a m b line : Nat} {e : LineEntry σ} {text : String}
    (h_mb : m ≤ b) (h_asks : above.redone = true ∨ line < m) :
    above.redoes ⟨a, b⟩ line e text = above.redoes ⟨a, m⟩ line e text := by
  rw [Above.redoes, Above.redoes]
  rcases h_asks with h_redone | h_line
  · rw [if_pos h_redone, if_pos h_redone]
  · have h_range : (⟨a, b⟩ : LineRange).contains line = (⟨a, m⟩ : LineRange).contains line := by
      rw [Bool.eq_iff_iff]
      simp only [LineRange.contains_iff]
      omega
    rw [h_range]

/-- A line left alone while the front is healed is left alone while the rest is. -/
theorem not_redoes_rest {above : Above σ} {a m b line : Nat} {e : LineEntry σ} {text : String}
    (h_asks : above.redone = true ∨ line < m) (h : ¬ above.redoes ⟨a, m⟩ line e text = true)
    (state : Option σ) :
    ¬ Above.redoes ⟨state, false, false⟩ ⟨m, b⟩ line e text = true := by
  simp only [redoes_below_kept, LineRange.contains_iff]
  rintro ⟨⟨h_line, -⟩, h_stale⟩
  rcases h_asks with h_redone | h_lt
  -- below a redone line, one that is out of date would not have been left alone
  · rw [Above.redoes, if_pos h_redone, h_stale, Bool.or_true] at h
    exact h rfl
  · omega

variable [DecidableEq σ] {lx : LineLexer σ} {texts : List String}

/-- Only the part of the range at and below `line` matters. -/
theorem heal_congr_range {range range' : LineRange} {line : Nat} {above : Above σ}
    (h : ∀ i, range.contains (line + i) = range'.contains (line + i))
    (es : List (LineEntry σ)) :
    lx.heal range line above es texts = lx.heal range' line above es texts := by
  induction es generalizing line above texts with
  | nil => rw [heal_nil, heal_nil]
  | cons e es ih =>
    cases texts with
    | nil => rfl
    | cons text texts =>
      have h_below : ∀ i, range.contains (line + 1 + i) = range'.contains (line + 1 + i) := by
        intro i
        rw [Nat.add_assoc, Nat.add_comm 1]
        exact h (i + 1)
      have h_redoes : above.redoes range line e text = above.redoes range' line e text := by
        rw [Above.redoes, Above.redoes, show range.contains line = range'.contains line from h 0]
      simp only [heal, h_redoes, ih h_below]

/-- Past its front, the range is the rest of it. -/
theorem heal_of_past {a m b line : Nat} {state : Option σ} (h_am : a ≤ m) (h_line : m ≤ line)
    (es : List (LineEntry σ)) :
    lx.heal ⟨a, b⟩ line ⟨state, false, false⟩ es texts =
      (lx.heal ⟨a, m⟩ line ⟨state, false, false⟩ es texts).andThen fun es' =>
        lx.heal ⟨m, b⟩ line ⟨state, false, false⟩ es' texts := by
  have h_front : lx.heal ⟨a, m⟩ line ⟨state, false, false⟩ es texts = ⟨es, .zero, none⟩ := by
    refine heal_of_fresh fun i h_i => ?_
    simp only [LineRange.contains_iff] at h_i
    omega
  have h_rest : ∀ i, (⟨a, b⟩ : LineRange).contains (line + i) =
      (⟨m, b⟩ : LineRange).contains (line + i) := by
    intro i
    rw [Bool.eq_iff_iff]
    simp only [LineRange.contains_iff]
    omega
  rw [h_front, Healing.nothing_andThen, heal_congr_range h_rest]

/-- Healing `⟨a, b⟩` is healing `⟨a, m⟩` and then `⟨m, b⟩`. The second pass starts as if nothing
    above had been redone. -/
theorem heal_split {a m b : Nat} (h_am : a ≤ m) (h_mb : m ≤ b) (line : Nat) (above : Above σ)
    (h_above : above.changed = true → above.redone = true) (es : List (LineEntry σ)) :
    lx.heal ⟨a, b⟩ line above es texts =
      (lx.heal ⟨a, m⟩ line above es texts).andThen fun es' =>
        lx.heal ⟨m, b⟩ line ⟨above.state, false, false⟩ es' texts := by
  induction es generalizing line above texts with
  | nil => simp only [heal_nil, Healing.nothing_andThen]
  | cons e es ih =>
    cases texts with
    | nil =>
      show (⟨e :: es, .zero, none⟩ : Healing σ) = Healing.andThen ⟨e :: es, .zero, none⟩ _
      rw [Healing.nothing_andThen]
      rfl
    | cons text texts =>
      by_cases h_past : above.redone = false ∧ m ≤ line
      -- nothing hangs on the front any more, so all that is healed is healed in the second pass
      · obtain ⟨state, redone, changed⟩ := above
        obtain ⟨rfl, h_line⟩ := h_past
        obtain rfl : changed = false := by simpa using h_above
        exact heal_of_past h_am h_line (e :: es)
      -- the first pass decides on the line, and the second leaves it as it finds it
      · have h_asks : above.redone = true ∨ line < m := by
          cases h_redone : above.redone with
          | true => exact .inl rfl
          | false => exact .inr (Nat.not_le.1 fun h_line => h_past ⟨h_redone, h_line⟩)
        have h_same : above.redoes ⟨a, b⟩ line e text = above.redoes ⟨a, m⟩ line e text :=
          redoes_front h_mb h_asks
        by_cases h_redoes : above.redoes ⟨a, m⟩ line e text = true
        · cases h_entry : lx.entry text above.state with
          | error err =>
            rw [heal_cons_of_error (h_same.trans h_redoes) h_entry,
              heal_cons_of_error h_redoes h_entry]
            rfl
          | ok e' =>
            rw [heal_cons_of_ok (h_same.trans h_redoes) h_entry, heal_cons_of_ok h_redoes h_entry,
              ih (line + 1) _ fun _ => rfl]
            have h_live : ¬ e'.isStale text = true := by
              simp [LineEntry.isStale, text_of_entry h_entry]
            refine (Healing.cons_andThen ?_).symm
            rw [heal_cons_of_not_redoes (not_redoes_of_not_stale h_live), Healing.cons_zero]
        · have h_not : ¬ above.redoes ⟨a, b⟩ line e text = true := by
            rwa [h_same]
          rw [heal_cons_of_not_redoes h_not, heal_cons_of_not_redoes h_redoes,
            ih (line + 1) _ (fun h => absurd h Bool.false_ne_true)]
          dsimp only
          rw [← Healing.cons_zero, ← Healing.cons_zero]
          refine (Healing.cons_andThen ?_).symm
          rw [heal_cons_of_not_redoes (not_redoes_rest h_asks h_redoes _), Healing.cons_zero]

theorem healAll_cons (r : LineRange) (rs : List LineRange) (es : List (LineEntry σ)) :
    lx.healAll texts (r :: rs) es = (lx.heal r 0 .top es texts).andThen (lx.healAll texts rs) := by
  rw [healAll, Healing.andThen]
  cases h_failure : (lx.heal r 0 .top es texts).failure with
  | some err => simp only [← h_failure]
  | none => rfl

theorem healAll_append (rs rs' : List LineRange) (es : List (LineEntry σ)) :
    lx.healAll texts (rs ++ rs') es =
      (lx.healAll texts rs es).andThen (lx.healAll texts rs') := by
  induction rs generalizing es with
  | nil => exact (Healing.nothing_andThen es _).symm
  | cons r rs ih =>
    rw [List.cons_append, healAll_cons, healAll_cons, Healing.andThen_assoc]
    congr 1
    funext es'
    exact ih es'

/-- `healAll` with its last range cut in two. -/
theorem healAll_split {a m b : Nat} (h_am : a ≤ m) (h_mb : m ≤ b) (rs : List LineRange)
    (es : List (LineEntry σ)) :
    lx.healAll texts (rs ++ [⟨a, b⟩]) es =
      (lx.healAll texts (rs ++ [⟨a, m⟩]) es).andThen (lx.healAll texts [⟨m, b⟩]) := by
  rw [healAll_append, healAll_append, Healing.andThen_assoc]
  congr 1
  funext es'
  rw [healAll_cons, healAll_cons,
    heal_split h_am h_mb 0 .top (fun h => absurd h Bool.false_ne_true), Healing.andThen_assoc,
    Healing.andThen_assoc]
  congr 1
  funext es''
  exact (healAll_cons _ _ _).symm.trans (Healing.nothing_andThen es'' _).symm

theorem length_healAll (rs : List LineRange) (es : List (LineEntry σ)) :
    (lx.healAll texts rs es).entries.length = es.length := by
  induction rs generalizing es with
  | nil => rfl
  | cons r rs ih =>
    rw [healAll_cons, Healing.andThen]
    split
    · exact length_heal lx r 0 .top es texts
    · exact (ih _).trans (length_heal lx r 0 .top es texts)

/-- Below a line that was left alone, the lines above the range keep their entries. -/
theorem getElem?_heal_of_lt {range : LineRange} {line : Nat} {state : Option σ}
    (es : List (LineEntry σ)) {i : Nat} (h_i : line + i < range.start) :
    (lx.heal range line ⟨state, false, false⟩ es texts).entries[i]? = es[i]? := by
  induction es generalizing line state texts i with
  | nil => rw [heal_nil]
  | cons e es ih =>
    cases texts with
    | nil => rfl
    | cons text texts =>
      have h_kept : ¬ Above.redoes ⟨state, false, false⟩ range line e text = true := by
        rw [redoes_below_kept, LineRange.contains_iff]
        omega
      rw [heal_cons_of_not_redoes h_kept]
      cases i with
      | zero => rfl
      | succ i => exact ih (by omega)

end LineLexer

/-! ## One request after another -/

namespace Reply

variable {σ α β γ : Type}

/-- Goes on with `next` from the cache and registry of `r`, unless `r` is an error. -/
def andThen (r : Reply σ α) (next : α → TokenCache σ → Registry (Grammar σ) → Reply σ β) :
    Reply σ β :=
  match r.answer with
  | .error e => ⟨.error e, r.cache, r.registry⟩
  | .ok a => next a r.cache r.registry

/-- `andRead` moves into the last step. -/
theorem andThen_andRead (r : Reply σ α)
    (next : α → TokenCache σ → Registry (Grammar σ) → Reply σ β) (read : TokenCache σ → γ) :
    (r.andThen next).andRead read =
      r.andThen fun a c registry => (next a c registry).andRead read := by
  cases h : r.answer <;> simp only [andThen, andRead, h, Except.map]

/-- What the first step reads is handed to the next one. -/
theorem andRead_andThen (r : Reply σ α) (read : TokenCache σ → β)
    (next : β → TokenCache σ → Registry (Grammar σ) → Reply σ γ) :
    (r.andRead read).andThen next = r.andThen fun _ c registry => next (read c) c registry := by
  cases h : r.answer <;> simp only [andThen, andRead, h, Except.map]

/-- Only what comes after a success matters. -/
theorem andThen_congr {r : Reply σ α}
    {next next' : α → TokenCache σ → Registry (Grammar σ) → Reply σ β}
    (h : ∀ a, r.answer = .ok a → next a r.cache r.registry = next' a r.cache r.registry) :
    r.andThen next = r.andThen next' := by
  cases h_answer : r.answer with
  | error e => simp only [andThen, h_answer]
  | ok a => simp only [andThen, h_answer, h a h_answer]

/-- Only what is read after a success matters. -/
theorem andRead_congr {r : Reply σ α} {read read' : TokenCache σ → β}
    (h : ∀ a, r.answer = .ok a → read r.cache = read' r.cache) :
    r.andRead read = r.andRead read' := by
  cases h_answer : r.answer with
  | error e => simp only [andRead, h_answer, Except.map]
  | ok a => simp only [andRead, h_answer, Except.map, h a h_answer]

end Reply

namespace TokenCache

variable {σ : Type}

/-- What the cache replies after its lines were healed. -/
def healedReply (c : TokenCache σ) (registry : Registry (Grammar σ)) (src : LineSource)
    (h : LineLexer.Healing σ) : Reply σ Unit :=
  match h.failure with
  | none => ⟨.ok (), { c.worked h.work with lines := h.entries, pending := [] }, registry⟩
  | some e => ⟨.error e,
      ({ c.worked h.work with lines := h.entries, pending := [] } : TokenCache σ).degrade src,
      registry⟩

variable {c : TokenCache σ} {registry : Registry (Grammar σ)} {src : LineSource}

theorem healedReply_of_ok {h : LineLexer.Healing σ}
    (h_ok : (c.healedReply registry src h).answer = .ok ()) :
    c.healedReply registry src h =
      ⟨.ok (), { c.worked h.work with lines := h.entries, pending := [] }, registry⟩ := by
  cases h_failure : h.failure with
  | none => simp only [healedReply, h_failure]
  | some e =>
    simp only [healedReply, h_failure] at h_ok
    exact absurd h_ok nofun

/-- Healing on is healing the lines of the cache as it is by then. -/
theorem healedReply_andThen (h : LineLexer.Healing σ)
    (next : List (LineEntry σ) → LineLexer.Healing σ) :
    c.healedReply registry src (h.andThen next) =
      (c.healedReply registry src h).andThen fun _ c' registry' =>
        c'.healedReply registry' src (next c'.lines) := by
  cases h_failure : h.failure with
  | some e => simp only [LineLexer.Healing.andThen, healedReply, Reply.andThen, h_failure]
  | none =>
    simp only [LineLexer.Healing.andThen, healedReply, Reply.andThen, h_failure, worked, degrade,
      CacheStats.add_assoc]

variable [DecidableEq σ]

theorem validateRange_of_lineCount_eq (h : c.lineCount = src.lineCount) (range : LineRange) :
    c.validateRange registry src range = c.healedReply registry src
      ((c.lexer registry.languages).healAll src.lines (c.pending ++ [range]) c.lines) := by
  rw [validateRange, if_neg (not_not_intro h)]
  rfl

/-- Validating `⟨a, b⟩` is validating `⟨a, m⟩` and then `⟨m, b⟩`. -/
theorem validateRange_split {a m b : Nat} (h_am : a ≤ m) (h_mb : m ≤ b) :
    c.validateRange registry src ⟨a, b⟩ =
      (c.validateRange registry src ⟨a, m⟩).andThen fun _ c' registry' =>
        c'.validateRange registry' src ⟨m, b⟩ := by
  by_cases h_count : c.lineCount = src.lineCount
  · rw [validateRange_of_lineCount_eq h_count, validateRange_of_lineCount_eq h_count,
      LineLexer.healAll_split h_am h_mb, healedReply_andThen]
    refine Reply.andThen_congr fun _ h_ok => ?_
    rw [healedReply_of_ok h_ok]
    refine (validateRange_of_lineCount_eq ?_ _).symm
    exact (LineLexer.length_healAll _ _).trans h_count
  · -- both begin with a refresh, after which nothing is left to heal
    rw [validateRange, if_pos h_count, validateRange, if_pos h_count]
    have h_settled := settled_refresh c registry src
    generalize c.refresh registry src = r at *
    cases h_settled with
    | inStep h_languages h_sync h_degraded h_pending =>
      exact (validateRange_of_upToDate (.of_inStep h_sync h_pending _)).symm
    | degraded e c' h_languages => rfl

/-- With an empty log, a validation keeps the entries above its range. -/
theorem getElem?_validateRange_of_lt (h_count : c.lineCount = src.lineCount)
    (h_pending : c.pending = []) {range : LineRange} {line : Nat} (h_line : line < range.start)
    (h_ok : (c.validateRange registry src range).answer = .ok ()) :
    (c.validateRange registry src range).cache.lines[line]? = c.lines[line]? := by
  rw [validateRange_of_lineCount_eq h_count, h_pending, List.nil_append,
    LineLexer.healAll_singleton] at h_ok ⊢
  rw [healedReply_of_ok h_ok]
  exact LineLexer.getElem?_heal_of_lt c.lines (by rwa [Nat.zero_add])

/-! ## Line by line -/

/-- `lineTokens` for each of the lines, in order, up to the first failure. -/
def lineTokensEach (c : TokenCache σ) (registry : Registry (Grammar σ)) (src : LineSource) :
    List Nat → Reply σ (List (List TokenInfo))
  | [] => ⟨.ok [], c, registry⟩
  | line :: lines =>
    (c.lineTokens registry src line).andThen fun tokens c' registry' =>
      (c'.lineTokensEach registry' src lines).map fun rest => tokens :: rest

omit [DecidableEq σ] in
theorem tokensOver_eq_map {a n : Nat} (h_count : c.lineCount = src.lineCount)
    (h_le : a + n ≤ src.lineCount) :
    c.tokensOver ⟨a, a + n⟩ = (List.range' a n).map c.tokensIn := by
  rw [tokensOver, h_count]
  dsimp only
  rw [Nat.min_eq_left h_le, Nat.add_sub_cancel_left]

/-- `tokensForLines` has the reply of `lineTokensEach` over its lines: same answer or error, same
    cache, same registry. -/
theorem tokensForLines_eq {a n : Nat} (h_le : a + (n + 1) ≤ src.lineCount) :
    c.tokensForLines registry src ⟨a, a + (n + 1)⟩ =
      c.lineTokensEach registry src (List.range' a (n + 1)) := by
  induction n generalizing a c registry with
  | zero =>
    rw [List.range'_one, lineTokensEach, tokensForLines, lineTokens, Reply.andRead_andThen,
      validateLine]
    cases h_answer : (c.validateRange registry src ⟨a, a + (0 + 1)⟩).answer with
    | error e => simp only [Reply.andRead, Reply.andThen, h_answer, Except.map]
    | ok =>
      have h_count := (upToDate_validateRange h_answer).lineCount
      simp only [Reply.andRead, Reply.andThen, h_answer, Except.map, lineTokensEach, Reply.map]
      rw [tokensOver_eq_map h_count h_le]
      rfl
  | succ n ih =>
    rw [List.range'_succ, lineTokensEach, tokensForLines, lineTokens, Reply.andRead_andThen,
      validateLine, validateRange_split (Nat.le_add_right a 1) (by omega), Reply.andThen_andRead]
    refine Reply.andThen_congr fun _ h_ok => ?_
    -- nothing is pending by now, so what is validated below does not touch the first line
    have h_settled := upToDate_validateRange h_ok
    generalize c.validateRange registry src ⟨a, a + 1⟩ = r at *
    have h_stop : a + (n + 1 + 1) = a + 1 + (n + 1) := by omega
    rw [← ih (by omega), tokensForLines, Reply.map_andRead, h_stop]
    refine Reply.andRead_congr fun _ h_ok' => ?_
    have h_above := getElem?_validateRange_of_lt h_settled.lineCount h_settled.pending
      (Nat.lt_succ_self a) h_ok'
    have h_count := (upToDate_validateRange h_ok').lineCount
    generalize r.cache.validateRange r.registry src ⟨a + 1, a + 1 + (n + 1)⟩ = r' at *
    rw [tokensOver_eq_map h_count (by omega), ← h_stop, tokensOver_eq_map h_count h_le,
      List.range'_succ, List.map_cons]
    congr 1
    rw [tokensIn, tokensIn, h_above]

/-! ## The token at a position -/

omit [DecidableEq σ] in
/-- `tokenIn` is a token of its line: the only one that holds `p`, or the last one if `p` is past
    the end of the line. -/
theorem tokenIn_of_getElem? {p : Position} {e : LineEntry σ} (h_e : c.lines[p.line]? = some e)
    (h : e.tokens.line.Partitions e.text) :
    c.tokenIn p ∈ c.tokensIn p.line ∧
    (p.column < e.text.length →
      ∀ t ∈ c.tokensIn p.line, t.range.contains p = true ↔ t = c.tokenIn p) ∧
    (e.text.length ≤ p.column → (c.tokensIn p.line).getLast? = some (c.tokenIn p)) := by
  have h_pos := h.describes.count_pos
  have h_token : c.tokenIn p =
      .ofTokens p.line e.tokens (e.tokens.line.indexOf p.column) := by
    rw [tokenIn, h_e]
  -- on its own line a range contains a position exactly if the token holds the column
  have h_contains : ∀ i < e.tokens.line.count,
      (TokenInfo.ofTokens p.line e.tokens i).range.contains p = true ↔
        e.tokens.line.Holds i p.column := by
    intro i h_i
    rw [h.range_ofTokens p.line h_i, TextRange.contains, Bool.and_eq_true, decide_eq_true_eq,
      decide_eq_true_eq, Position.le_iff, Position.lt_iff, TokenLine.Holds]
    dsimp only
    omega
  rw [h_token, tokensIn_of_getElem? h_e]
  rcases Nat.lt_or_ge p.column e.text.length with h_within | h_past
  · obtain ⟨h_lt, h_holds⟩ := h.holds_indexOf h_within
    refine ⟨List.mem_map_of_mem (List.mem_range.2 h_lt), fun _ => ?_, fun h_past => by omega⟩
    intro t h_t
    obtain ⟨i, h_i, rfl⟩ := List.mem_map.1 h_t
    rw [List.mem_range] at h_i
    constructor
    · intro h_t
      rw [h.holds_unique h_i h_lt ((h_contains i h_i).1 h_t) h_holds]
    · intro h_t
      rw [h_t]
      exact (h_contains _ h_lt).2 h_holds
  · rw [h.indexOf_of_length_le h_past]
    refine ⟨List.mem_map_of_mem (List.mem_range.2 (by omega)), fun h_within => by omega,
      fun _ => ?_⟩
    rw [List.getLast?_map, List.getLast?_range, if_neg (by omega), Option.map_some]

/-- On a `Reachable` cache, `tokensForLines` and `lineTokensEach` have the same reply. The token at
    a position `p` of the document is one of `lineTokens`: the only one that holds `p`, or the last
    one if `p` is past the end of its line. -/
theorem tokensForLines_eq_and_tokenAt {languages : LanguageTable} (h : Reachable languages c)
    (registry : Registry (Grammar σ)) (h_languages : registry.languages = languages)
    (src : LineSource) :
    (∀ a b, a < b → b ≤ src.lineCount →
      c.tokensForLines registry src ⟨a, b⟩ =
        c.lineTokensEach registry src (List.range' a (b - a))) ∧
    ∀ (p : Position) (tokens : List TokenInfo), p.line < src.lineCount →
      (c.lineTokens registry src p.line).answer = .ok tokens →
      ∃ token ∈ tokens,
        c.tokenAt registry src p =
          ⟨.ok token, (c.lineTokens registry src p.line).cache,
            (c.lineTokens registry src p.line).registry⟩ ∧
        (p.column < (src.lineText p.line).length →
          ∀ t ∈ tokens, t.range.contains p = true ↔ t = token) ∧
        ((src.lineText p.line).length ≤ p.column → tokens.getLast? = some token) := by
  constructor
  · intro a b h_lt h_le
    obtain ⟨n, rfl⟩ : ∃ n, b = a + (n + 1) := ⟨b - a - 1, by omega⟩
    rw [Nat.add_sub_cancel_left]
    exact tokensForLines_eq h_le
  · intro p tokens h_line h_ok
    obtain ⟨h_valid, rfl⟩ := Reply.answer_andRead_eq_ok_iff.1 h_ok
    have h_after : Reachable languages (c.validateLine registry src p.line).cache :=
      .perform h (.validateLine p.line) registry h_languages src
    have h_live : src.lines[p.line]? = some (src.lineText p.line) := by
      have h_lt : p.line < src.lines.length := h_line
      rw [LineSource.lineText, List.getElem?_eq_getElem h_lt, Option.getD_some]
    -- the validated line is cached with the text of the document, and its tokens partition it
    obtain ⟨e, h_e, h_text⟩ := exists_entry_of_validateLine h_live h_valid
    obtain ⟨h_mem, h_within, h_past⟩ :=
      tokenIn_of_getElem? h_e (h_after.partitions e (List.mem_of_getElem? h_e))
    rw [h_text] at h_within h_past
    refine ⟨(c.validateLine registry src p.line).cache.tokenIn p, h_mem, ?_, h_within, h_past⟩
    rw [tokenAt, lineTokens, Reply.andRead, h_valid]
    rfl

/-- One line was edited and not queried since, the other has changed unnoticed. The position is a
    boundary between two tokens of that line. -/
theorem tokensForLines_eq_and_tokenAt_carelessCache :
    Reachable carelessRegistry.languages carelessCache ∧
    carelessCache.pending = [⟨0, 1⟩] ∧
    carelessCache.tokensForLines carelessRegistry carelessSource ⟨0, 2⟩ =
      carelessCache.lineTokensEach carelessRegistry carelessSource [0, 1] ∧
    ∃ tokens token,
      (carelessCache.lineTokens carelessRegistry carelessSource 1).answer = .ok tokens ∧
      token ∈ tokens ∧
      (carelessCache.tokenAt carelessRegistry carelessSource ⟨1, 3⟩).answer = .ok token ∧
      token.range.contains ⟨1, 3⟩ = true := by
  have h_valid : (carelessCache.validateLine carelessRegistry carelessSource 1).answer =
      .ok () := by cbv
  have h_ok : (carelessCache.lineTokens carelessRegistry carelessSource 1).answer =
      .ok ((carelessCache.validateLine carelessRegistry carelessSource 1).cache.tokensIn 1) :=
    Reply.answer_andRead_eq_ok_iff.2 ⟨h_valid, rfl⟩
  obtain ⟨h_lines, h_token⟩ := tokensForLines_eq_and_tokenAt reachable_carelessCache
    carelessRegistry rfl carelessSource
  obtain ⟨token, h_mem, h_at, h_within, -⟩ := h_token ⟨1, 3⟩ _ (by decide) h_ok
  exact ⟨reachable_carelessCache, by cbv, h_lines 0 2 (by decide) (by decide), _, token, h_ok,
    h_mem, by rw [h_at], (h_within (by decide) token h_mem).2 rfl⟩

end TokenCache

end ScopeTokens
