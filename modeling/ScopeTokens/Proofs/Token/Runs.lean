/-
  ScopeTokens.Proofs.Token.Runs

  Runs of one language. `runAt` is the longest stretch of tokens of one language
  around the token at the offset (`maximal_runAt`), and there is only one such
  stretch (`Maximal.unique`); so every offset of a run leads to the same run, and
  the runs partition the line. `expandRun`, which steps to the left and to the
  right one token at a time, finds the same (`expandRun_eq`). Counted from its
  start, the tokens of a run partition its content, and `indexOf`, kept within the
  run, finds the token that holds an offset of the run (`Maximal.holds_iff`).
-/

import ScopeTokens.Proofs.Token.Search
import ScopeTokens.Token.Run

namespace ScopeTokens

/-! ## Stretches of one language -/

namespace TokenRun

/-- `r` is a stretch of tokens of `r.language`, and the tokens next to it, if any, are of other
    languages. -/
structure Maximal (r : TokenRun) : Prop where
  first_lt : r.first < r.last
  last_le : r.last ≤ r.line.count
  inside : ∀ i, r.first ≤ i → i < r.last → r.line.languageId i = r.language
  before : 0 < r.first → r.line.languageId (r.first - 1) ≠ r.language
  behind : r.last < r.line.count → r.line.languageId r.last ≠ r.language
  firstChar_eq : r.firstChar = r.line.startOffset r.first
  lastChar_eq : r.lastChar = r.line.endOffset (r.last - 1)

namespace Maximal

variable {r r' : TokenRun} {i : Nat}

/-- Of two maximal runs with a token in common, each has the tokens of the other. -/
theorem subset (h : r.Maximal) (h' : r'.Maximal) (h_line : r.line = r'.line)
    (h_i : r.first ≤ i ∧ i < r.last) (h_i' : r'.first ≤ i ∧ i < r'.last) :
    r.first ≤ r'.first ∧ r'.last ≤ r.last := by
  have h_language : r.language = r'.language := by
    rw [← h.inside i h_i.1 h_i.2, ← h'.inside i h_i'.1 h_i'.2, h_line]
  constructor
  · apply Nat.le_of_not_lt
    intro h_lt
    -- the token in front of the one run would be in the other, and so in their language
    apply h.before (by omega)
    rw [h_line, h_language]
    exact h'.inside (r.first - 1) (by omega) (by omega)
  · apply Nat.le_of_not_lt
    intro h_lt
    have h_last := h'.last_le
    apply h.behind (by rw [h_line]; omega)
    rw [h_line, h_language]
    exact h'.inside r.last (by omega) h_lt

/-- Maximal runs with a token in common are equal. -/
theorem unique (h : r.Maximal) (h' : r'.Maximal) (h_line : r.line = r'.line)
    (h_i : r.first ≤ i ∧ i < r.last) (h_i' : r'.first ≤ i ∧ i < r'.last) : r = r' := by
  have h_within := h.subset h' h_line h_i h_i'
  have h_within' := h'.subset h h_line.symm h_i' h_i
  have h_first : r.first = r'.first := by omega
  have h_last : r.last = r'.last := by omega
  have h_language : r.language = r'.language := by
    rw [← h.inside i h_i.1 h_i.2, ← h'.inside i h_i'.1 h_i'.2, h_line]
  have h_firstChar := h.firstChar_eq
  have h_lastChar := h.lastChar_eq
  rw [h_line, h_first, ← h'.firstChar_eq] at h_firstChar
  rw [h_line, h_last, ← h'.lastChar_eq] at h_lastChar
  cases r
  cases r'
  simp_all

end Maximal

end TokenRun

namespace TokenLine

/-! ## Going from token to token -/

/-- Steps back from token `i` while the token in front is of `language`. -/
def runStart (a : TokenLine) (language : LanguageId) : Nat → Nat
  | 0 => 0
  | i + 1 => if a.languageId i = language then runStart a language i else i + 1

/-- Steps on from token `i` while there is one and it is of `language`. -/
def runStop (a : TokenLine) (language : LanguageId) (i : Nat) : Nat :=
  if i < a.count ∧ a.languageId i = language then runStop a language (i + 1) else i
termination_by a.count - i

/-- The run around `offset`, by stepping from the token there to both sides. -/
def expandRun (a : TokenLine) (offset : Nat) : TokenRun :=
  let i := a.indexOf offset
  let language := a.languageId i
  let first := a.runStart language i
  let last := a.runStop language (i + 1)
  { line := a
    language := language
    first := first
    last := last
    firstChar := a.startOffset first
    lastChar := a.endOffset (last - 1) }

variable {a : TokenLine} {language : LanguageId}

theorem runStart_le (a : TokenLine) (language : LanguageId) (i : Nat) :
    a.runStart language i ≤ i := by
  induction i with
  | zero => exact Nat.le_refl 0
  | succ i ih =>
    rw [runStart]
    split <;> omega

theorem languageId_of_runStart_le {i j : Nat} (h_le : a.runStart language i ≤ j) (h_lt : j < i) :
    a.languageId j = language := by
  induction i with
  | zero => omega
  | succ i ih =>
    rw [runStart] at h_le
    split at h_le
    · rename_i h_language
      rcases Nat.lt_or_eq_of_le (Nat.le_of_lt_succ h_lt) with h_before | rfl
      · exact ih h_le h_before
      · exact h_language
    · omega

theorem languageId_runStart_pred {i : Nat} (h : 0 < a.runStart language i) :
    a.languageId (a.runStart language i - 1) ≠ language := by
  induction i with
  | zero => exact absurd h (Nat.lt_irrefl 0)
  | succ i ih =>
    rw [runStart] at h ⊢
    split at h
    · rename_i h_language
      rw [if_pos h_language]
      exact ih h
    · rename_i h_other
      rwa [if_neg h_other]

theorem le_runStop (a : TokenLine) (language : LanguageId) (i : Nat) :
    i ≤ a.runStop language i := by
  fun_induction runStop a language i with
  | case1 i h ih => omega
  | case2 i h => exact Nat.le_refl i

theorem runStop_le {i : Nat} (h : i ≤ a.count) : a.runStop language i ≤ a.count := by
  fun_induction runStop a language i with
  | case1 i h_here ih => exact ih h_here.1
  | case2 i h_here => exact h

theorem languageId_of_lt_runStop {i j : Nat} (h_le : i ≤ j) (h_lt : j < a.runStop language i) :
    a.languageId j = language := by
  fun_induction runStop a language i with
  | case1 i h_here ih =>
    rcases Nat.lt_or_eq_of_le h_le with h_behind | rfl
    · exact ih h_behind h_lt
    · exact h_here.2
  | case2 i h_here => omega

theorem languageId_runStop {i : Nat} (h : a.runStop language i < a.count) :
    a.languageId (a.runStop language i) ≠ language := by
  fun_induction runStop a language i with
  | case1 i h_here ih => exact ih h
  | case2 i h_here => exact fun h_language => h_here ⟨h, h_language⟩

/-- Stepping stops at the ends of a maximal run. -/
theorem maximal_expandRun {offset : Nat} (h : a.indexOf offset < a.count) :
    (a.expandRun offset).Maximal := by
  have h_start := a.runStart_le (a.languageId (a.indexOf offset)) (a.indexOf offset)
  have h_stop := a.le_runStop (a.languageId (a.indexOf offset)) (a.indexOf offset + 1)
  refine ⟨?_, runStop_le h, ?_, languageId_runStart_pred, languageId_runStop, rfl, rfl⟩
  · show a.runStart _ _ < a.runStop _ _
    omega
  · intro i h_first h_last
    rcases Nat.lt_trichotomy i (a.indexOf offset) with h_lt | rfl | h_gt
    · exact languageId_of_runStart_le h_first h_lt
    · rfl
    · exact languageId_of_lt_runStop h_gt h_last

/-! ## The run around an offset -/

theorem length_languages (a : TokenLine) : a.languages.length = a.count := by
  rw [languages, List.length_map, Array.length_toList]
  rfl

theorem getElem?_languages {i : Nat} (h : i < a.count) :
    a.languages[i]? = some (a.languageId i) := by
  rw [languages, List.getElem?_map, Array.getElem?_toList, getElem?_marks h]
  rfl

/-- The tokens of `language` directly in front of `i`, counted, are those stepped over. -/
theorem sub_length_takeWhile {i : Nat} (h : i ≤ a.count) :
    i - ((a.languages.take i).reverse.takeWhile (· == language)).length =
      a.runStart language i := by
  induction i with
  | zero => rfl
  | succ i ih =>
    rw [List.take_add_one, getElem?_languages h, Option.toList_some, List.reverse_concat,
      runStart]
    by_cases h_language : a.languageId i = language
    · rw [List.takeWhile_cons_of_pos (by simpa using h_language), if_pos h_language,
        ← ih (by omega), List.length_cons]
      omega
    · rw [List.takeWhile_cons_of_neg (by simpa using h_language), if_neg h_language]
      rfl

/-- The tokens of `language` from `i` on, counted, are those stepped over. -/
theorem add_length_takeWhile (a : TokenLine) (language : LanguageId) (i : Nat) :
    i + ((a.languages.drop i).takeWhile (· == language)).length = a.runStop language i := by
  fun_induction runStop a language i with
  | case1 i h ih =>
    obtain ⟨h_lt, h_get⟩ := List.getElem?_eq_some_iff.1 (getElem?_languages h.1)
    rw [List.drop_eq_getElem_cons h_lt, h_get, List.takeWhile_cons_of_pos (by simpa using h.2),
      List.length_cons, ← ih]
    omega
  | case2 i h =>
    by_cases h_i : i < a.count
    · obtain ⟨h_lt, h_get⟩ := List.getElem?_eq_some_iff.1 (getElem?_languages h_i)
      have h_other : a.languageId i ≠ language := fun h_language => h ⟨h_i, h_language⟩
      rw [List.drop_eq_getElem_cons h_lt, h_get,
        List.takeWhile_cons_of_neg (by simpa using h_other)]
      rfl
    · rw [List.drop_eq_nil_of_le (by rw [length_languages]; omega)]
      rfl

theorem expandRun_eq {offset : Nat} (h : a.indexOf offset < a.count) :
    a.expandRun offset = a.runAt offset := by
  rw [expandRun, runAt]
  simp only [sub_length_takeWhile (Nat.le_of_lt h), add_length_takeWhile]

theorem maximal_runAt {offset : Nat} (h : a.indexOf offset < a.count) :
    (a.runAt offset).Maximal := by
  rw [← expandRun_eq h]
  exact maximal_expandRun h

/-- The run around `offset` has the token at `offset`. -/
theorem indexOf_mem_runAt {offset : Nat} (h : a.indexOf offset < a.count) :
    (a.runAt offset).first ≤ a.indexOf offset ∧ a.indexOf offset < (a.runAt offset).last := by
  rw [← expandRun_eq h]
  exact ⟨a.runStart_le _ _, a.le_runStop _ _⟩

/-- `r` is the maximal run of `a` with the token at `offset`. -/
structure IsRunAt (a : TokenLine) (offset : Nat) (r : TokenRun) : Prop where
  maximal : r.Maximal
  line_eq : r.line = a
  mem : r.first ≤ a.indexOf offset ∧ a.indexOf offset < r.last

theorem isRunAt_iff {offset : Nat} (h : a.indexOf offset < a.count) (r : TokenRun) :
    a.IsRunAt offset r ↔ r = a.runAt offset := by
  constructor
  · rintro ⟨h_maximal, h_line, h_mem⟩
    exact h_maximal.unique (maximal_runAt h) h_line h_mem (indexOf_mem_runAt h)
  · rintro rfl
    exact ⟨maximal_runAt h, rfl, indexOf_mem_runAt h⟩

/-! ## Offsets of a run -/

namespace Partitions

variable {text : String} {i offset : Nat}

theorem le_indexOf_iff (h : a.Partitions text) (h_i : i < a.count)
    (h_offset : offset < text.length) :
    i ≤ a.indexOf offset ↔ a.startOffset i ≤ offset := by
  obtain ⟨h_found, h_start, -⟩ := h.holds_indexOf h_offset
  constructor
  · intro h_le
    exact Nat.le_trans (h.startOffset_le h_le (Nat.le_of_lt h_found)) h_start
  · intro h_le
    rw [← h.indexOf_startOffset h_i]
    exact h.monotone_indexOf h_le

theorem indexOf_lt_iff (h : a.Partitions text) (h_i : i ≤ a.count)
    (h_offset : offset < text.length) :
    a.indexOf offset < i ↔ offset < a.startOffset i := by
  rcases Nat.lt_or_eq_of_le h_i with h_lt | rfl
  · have h_iff := h.le_indexOf_iff h_lt h_offset
    omega
  -- behind the last token is the end of the line
  · rw [h.startOffset_count]
    exact iff_of_true (h.indexOf_lt offset) h_offset

end Partitions

end TokenLine

namespace TokenRun

/-- `offset` is in the text of `r`. -/
def Covers (r : TokenRun) (offset : Nat) : Prop :=
  r.firstChar ≤ offset ∧ offset < r.lastChar

instance (r : TokenRun) (offset : Nat) : Decidable (r.Covers offset) :=
  inferInstanceAs (Decidable (_ ∧ _))

/-- `r`, seen from within, is a line: its content is that of its tokens, these start at zero and are
    adjacent, the last one ends at the length of the run, and `indexOf` finds the token that holds
    an offset, or the last one past the end. Offsets in the line are those in the run plus
    `firstChar`. -/
structure ReadsAsLine (r : TokenRun) : Prop where
  content_eq : r.content = String.join ((List.range' r.first r.count).map r.line.tokenText)
  start_zero : r.startOffset 0 = 0
  start_succ : ∀ i, r.startOffset (i + 1) = r.endOffset i
  stop_last : r.endOffset (r.count - 1) = r.lastChar - r.firstChar
  start_lt : ∀ i < r.count, r.startOffset i < r.endOffset i ∨ r.line.length = 0
  start_add : ∀ i ≤ r.count, r.firstChar + r.startOffset i = r.line.startOffset (r.first + i)
  indexOf_lt : ∀ offset, r.indexOf offset < r.count
  holds_iff : ∀ offset < r.lastChar - r.firstChar, ∀ i < r.count,
    r.startOffset i ≤ offset ∧ offset < r.endOffset i ↔ i = r.indexOf offset
  indexOf_past : ∀ offset, r.lastChar - r.firstChar ≤ offset → r.indexOf offset = r.count - 1

namespace Maximal

variable {r : TokenRun} {text : String} {i offset : Nat}

theorem count_pos (h : r.Maximal) : 0 < r.count :=
  Nat.sub_pos_of_lt h.first_lt

theorem first_add_count (h : r.Maximal) : r.first + r.count = r.last :=
  Nat.add_sub_cancel' (Nat.le_of_lt h.first_lt)

/-- A maximal run ends where the token behind it starts. -/
theorem lastChar_eq_startOffset (h : r.Maximal) : r.lastChar = r.line.startOffset r.last := by
  have h_lt := h.first_lt
  obtain ⟨n, h_last⟩ := Nat.exists_eq_succ_of_ne_zero (show r.last ≠ 0 by omega)
  rw [h.lastChar_eq, h_last]
  rfl

theorem firstChar_le_startOffset (h : r.Maximal) (h_line : r.line.Partitions text)
    (h_i : i ≤ r.count) : r.firstChar ≤ r.line.startOffset (r.first + i) := by
  have h_last := h.first_add_count ▸ h.last_le
  rw [h.firstChar_eq]
  exact h_line.startOffset_le (Nat.le_add_right r.first i) (by omega)

theorem lastChar_le (h : r.Maximal) (h_line : r.line.Partitions text) :
    r.lastChar ≤ text.length := by
  rw [h.lastChar_eq_startOffset, ← h_line.startOffset_count]
  exact h_line.startOffset_le h.last_le (Nat.le_refl _)

/-- The offsets in the text of `r` are those of its tokens. -/
theorem covers_iff (h : r.Maximal) (h_line : r.line.Partitions text)
    (h_offset : offset < text.length) :
    r.Covers offset ↔ r.first ≤ r.line.indexOf offset ∧ r.line.indexOf offset < r.last := by
  have h_first : r.first < r.line.count := Nat.lt_of_lt_of_le h.first_lt h.last_le
  rw [h_line.le_indexOf_iff h_first h_offset, h_line.indexOf_lt_iff h.last_le h_offset,
    ← h.firstChar_eq, ← h.lastChar_eq_startOffset]
  rfl

theorem firstChar_add_startOffset (h : r.Maximal) (h_line : r.line.Partitions text)
    (h_i : i ≤ r.count) : r.firstChar + r.startOffset i = r.line.startOffset (r.first + i) := by
  have h_le := h.firstChar_le_startOffset h_line h_i
  rw [startOffset, Nat.add_comm i]
  omega

theorem startOffset_succ (r : TokenRun) (i : Nat) : r.startOffset (i + 1) = r.endOffset i := by
  rw [startOffset, Nat.add_right_comm]
  rfl

theorem firstChar_add_endOffset (h : r.Maximal) (h_line : r.line.Partitions text)
    (h_i : i < r.count) : r.firstChar + r.endOffset i = r.line.endOffset (r.first + i) := by
  rw [← startOffset_succ]
  exact h.firstChar_add_startOffset h_line h_i

/-- For an offset of the run, the search in the line stays in the run. -/
theorem first_add_indexOf (h : r.Maximal) (h_line : r.line.Partitions text)
    (h_offset : offset < r.lastChar - r.firstChar) :
    r.indexOf offset < r.count ∧
      r.first + r.indexOf offset = r.line.indexOf (r.firstChar + offset) := by
  have h_end := h.lastChar_le h_line
  have h_covers : r.Covers (r.firstChar + offset) := ⟨Nat.le_add_right _ _, by omega⟩
  obtain ⟨h_first, h_last⟩ := (h.covers_iff h_line (by omega)).1 h_covers
  rw [indexOf, Nat.add_comm offset, count]
  omega

/-- Past the run, `indexOf` is its last token. -/
theorem indexOf_of_le (h : r.Maximal) (h_line : r.line.Partitions text)
    (h_offset : r.lastChar - r.firstChar ≤ offset) : r.indexOf offset = r.count - 1 := by
  have h_lt := h.first_lt
  have h_last := h.last_le
  -- so keeping what is found within the run leads to its last token
  have h_found : r.last - 1 ≤ r.line.indexOf (offset + r.firstChar) := by
    rcases Nat.lt_or_ge (offset + r.firstChar) text.length with h_within | h_past
    · have h_not : ¬ r.line.indexOf (offset + r.firstChar) < r.last := by
        rw [h_line.indexOf_lt_iff h_last h_within, ← h.lastChar_eq_startOffset]
        omega
      omega
    · rw [h_line.indexOf_of_length_le h_past]
      omega
  rw [indexOf, count]
  omega

theorem content_eq (h : r.Maximal) (h_line : r.line.Partitions text) :
    r.content = String.join ((List.range' r.first r.count).map r.line.tokenText) := by
  have h_last := h.first_add_count
  rw [h_line.join_tokenText_range' (h_last ▸ h.last_le), h_last, content, h.firstChar_eq,
    h.lastChar_eq_startOffset]

/-- Token `i` of the run holds an offset of the run exactly if `indexOf` finds it. -/
theorem holds_iff (h : r.Maximal) (h_line : r.line.Partitions text)
    (h_offset : offset < r.lastChar - r.firstChar) (h_i : i < r.count) :
    r.startOffset i ≤ offset ∧ offset < r.endOffset i ↔ i = r.indexOf offset := by
  have h_end := h.lastChar_le h_line
  have h_start := h.firstChar_add_startOffset h_line (Nat.le_of_lt h_i)
  have h_stop := h.firstChar_add_endOffset h_line h_i
  obtain ⟨-, h_found⟩ := h.first_add_indexOf h_line h_offset
  have h_holds := h_line.holds_iff_eq_indexOf (show r.firstChar + offset < text.length by omega)
    (r.first + i)
  rw [TokenLine.Holds, ← h_start, ← h_stop, ← h_found] at h_holds
  omega

theorem indexOf_lt (h : r.Maximal) (h_line : r.line.Partitions text) (offset : Nat) :
    r.indexOf offset < r.count := by
  rcases Nat.lt_or_ge offset (r.lastChar - r.firstChar) with h_within | h_past
  · exact (h.first_add_indexOf h_line h_within).1
  · have h_count := h.count_pos
    rw [h.indexOf_of_le h_line h_past]
    omega

theorem readsAsLine (h : r.Maximal) (h_line : r.line.Partitions text) : r.ReadsAsLine where
  content_eq := h.content_eq h_line
  start_zero := by
    have h_zero := h.firstChar_add_startOffset h_line (Nat.zero_le r.count)
    rw [Nat.add_zero, ← h.firstChar_eq] at h_zero
    omega
  start_succ := startOffset_succ r
  stop_last := by
    have h_count := h.count_pos
    have h_end := h.firstChar_add_startOffset h_line (Nat.le_refl r.count)
    rw [h.first_add_count, ← h.lastChar_eq_startOffset] at h_end
    rw [← startOffset_succ, Nat.sub_add_cancel h_count]
    omega
  start_lt i h_i := by
    have h_start := h.firstChar_add_startOffset h_line (Nat.le_of_lt h_i)
    have h_stop := h.firstChar_add_endOffset h_line h_i
    have h_last := h.first_add_count ▸ h.last_le
    rcases h_line.start_lt (r.first + i) (by omega) with h_lt | ⟨h_empty, -⟩
    · exact .inl (by omega)
    · exact .inr (h_line.describes.length_eq.trans h_empty)
  start_add _ h_i := h.firstChar_add_startOffset h_line h_i
  indexOf_lt := h.indexOf_lt h_line
  holds_iff _ h_offset _ h_i := h.holds_iff h_line h_offset h_i
  indexOf_past _ h_offset := h.indexOf_of_le h_line h_offset

end Maximal

end TokenRun

namespace TokenLine

/-- `runAt offset` is the only run with `IsRunAt`, and stepping finds it (`expandRun`). It covers
    every `offset` on the line, and every offset that it covers is on the line and has the same run,
    so runs partition the line. Seen from within, the run reads as a line (`ReadsAsLine`). -/
theorem isRunAt_iff_and_readsAsLine {a : TokenLine} (h : a.Constructible) (offset : Nat) :
    (∀ r, a.IsRunAt offset r ↔ r = a.runAt offset) ∧
    a.expandRun offset = a.runAt offset ∧
    (offset < a.length → (a.runAt offset).Covers offset) ∧
    (∀ offset', (a.runAt offset).Covers offset' →
      offset' < a.length ∧ a.runAt offset' = a.runAt offset) ∧
    (a.runAt offset).ReadsAsLine := by
  have h_line := h.partitions
  have h_found := h_line.indexOf_lt offset
  have h_maximal := maximal_runAt h_found
  rw [h_line.length_eq]
  refine ⟨isRunAt_iff h_found, expandRun_eq h_found, ?_, ?_, h_maximal.readsAsLine h_line⟩
  · intro h_offset
    exact (h_maximal.covers_iff h_line h_offset).2 (indexOf_mem_runAt h_found)
  · intro offset' h_covers
    have h_offset : offset' < a.text.length :=
      Nat.lt_of_lt_of_le h_covers.2 (h_maximal.lastChar_le h_line)
    have h_mem := (h_maximal.covers_iff h_line h_offset).1 h_covers
    have h_run := (isRunAt_iff (h_line.indexOf_lt offset') _).1 ⟨h_maximal, rfl, h_mem⟩
    exact ⟨h_offset, h_run.symm⟩

/-- The brackets and what is between them are in language 3, the tags in language 2. -/
def taggedLine : TokenLine :=
  assemble [⟨3, ⟨2⟩⟩, ⟨5, ⟨3⟩⟩, ⟨8, ⟨515⟩⟩, ⟨10, ⟨3⟩⟩, ⟨14, ⟨2⟩⟩] "<p>[ 'é' ]</p>"

theorem isRunAt_iff_and_readsAsLine_taggedLine :
    taggedLine.Constructible ∧
    taggedLine.IsRunAt 6 ⟨taggedLine, ⟨3⟩, 1, 4, 3, 10⟩ ∧
    6 < taggedLine.length ∧ (taggedLine.runAt 6).Covers 6 ∧
    (taggedLine.runAt 6).Covers 9 ∧ taggedLine.runAt 9 = taggedLine.runAt 6 ∧
    (taggedLine.runAt 6).content = "[ 'é' ]" ∧
    (taggedLine.runAt 6).indexOf 2 = 1 ∧ (taggedLine.runAt 6).indexOf 50 = 2 := by
  have h_read : ofEnds [3, 2, 5, 3, 8, 515, 10, 3, 14, 2] "<p>[ 'é' ]</p>" = .ok taggedLine := by
    decide
  have h_line : taggedLine.Constructible := .ends h_read
  have h_index : taggedLine.indexOf 6 = 2 :=
    ((h_line.partitions.holds_iff_eq_indexOf (by decide) 2).1 (by decide)).symm
  have h_run : taggedLine.runAt 6 = ⟨taggedLine, ⟨3⟩, 1, 4, 3, 10⟩ := by
    rw [runAt, h_index]
    rfl
  obtain ⟨h_runs, -, h_covers, h_same, h_reads⟩ := isRunAt_iff_and_readsAsLine h_line 6
  rw [h_run] at h_covers h_same h_reads ⊢
  exact ⟨h_line, (h_runs _).2 h_run.symm, by decide, h_covers (by decide), by decide,
    (h_same 9 (by decide)).2, h_reads.content_eq.trans (by decide),
    (h_reads.holds_iff 2 (by decide) 1 (by decide)).1 (by decide) |>.symm,
    h_reads.indexOf_past 50 (by decide)⟩

end TokenLine

end ScopeTokens
