/-
  ScopeTokens.Proofs.Cache.LineAnswers

  The tokens that a cache answers with for a line. What is kept of a grammar's
  answer partitions the text of the entry (`partitions_of_entry`), and a validated
  line has its live text. So the tokens of `lineTokens` partition the line as it
  is (`partitionsLine_lineTokens`), however the cache was used before, and also if
  it was told of changes that never happened.
-/

import ScopeTokens.Proofs.Cache.Answers
import ScopeTokens.Proofs.Cache.Represented
import ScopeTokens.Proofs.Token.Partition

namespace ScopeTokens

namespace LineLexer

variable {σ : Type} {lx : LineLexer σ} {text : String}

theorem partitions_of_entry {above : Option σ} {e : LineEntry σ}
    (h : lx.entry text above = .ok e) : e.tokens.line.Partitions text := by
  rcases entry_cases h with
    ⟨-, rfl⟩ | ⟨g, -, -, rfl⟩ | ⟨g, answer, tokens, -, -, -, h_build, rfl⟩
  · exact TokenLine.partitions_whole text _
  · exact TokenLine.partitions_whole text _
  · obtain ⟨-, rfl⟩ := eq_keptTokens_of_build h_build
    exact partitions_keptTokens lx g.scopeName text answer.tokens

end LineLexer

/-! ## Answers -/

/-- `tokens` partition line `line` with text `text`: there are some, the first starts at column `0`,
    each starts where the one before it ends, and the last ends at the end of the line. Each has the
    text between its ends, these texts concatenate to the line, and none is empty, except the only
    one of an empty line. -/
structure PartitionsLine (line : Nat) (text : String) (tokens : List TokenInfo) : Prop where
  ne_nil : tokens ≠ []
  first : ∀ t ∈ tokens.head?, t.range.start = ⟨line, 0⟩
  adjacent : tokens.IsChain fun t u => t.range.stop = u.range.start
  last : ∀ t ∈ tokens.getLast?, t.range.stop = ⟨line, text.length⟩
  onLine : ∀ t ∈ tokens, t.range.start.line = line ∧ t.range.stop.line = line
  text_eq : ∀ t ∈ tokens, t.text = String.ofList
    ((text.toList.drop t.range.start.column).take (t.range.stop.column - t.range.start.column))
  join_eq : String.join (tokens.map TokenInfo.text) = text
  nonempty : ∀ t ∈ tokens, t.range.start.column < t.range.stop.column ∨ text = "" ∧ tokens = [t]

namespace TokenLine.Partitions

variable {tokens : ScopedTokens} {text : String}

theorem range_ofTokens (h : tokens.line.Partitions text) (line : Nat) {i : Nat}
    (h_i : i < tokens.line.count) :
    (TokenInfo.ofTokens line tokens i).range =
      ⟨⟨line, tokens.line.startOffset i⟩, ⟨line, tokens.line.endOffset i⟩⟩ := by
  have h_le := h.start_le h_i
  rw [TokenInfo.ofTokens, TextRange.onLine, TextRange.between, if_neg]
  rw [Position.lt_iff]
  dsimp only
  omega

/-- The tokens of a line as `TokenInfo` partition it. -/
theorem partitionsLine (h : tokens.line.Partitions text) (line : Nat) :
    PartitionsLine line text
      ((List.range tokens.line.count).map (TokenInfo.ofTokens line tokens)) := by
  have h_pos := h.describes.count_pos
  have h_range {i : Nat} (h_i : i < tokens.line.count) := h.range_ofTokens line h_i
  have h_mem : ∀ t ∈ (List.range tokens.line.count).map (TokenInfo.ofTokens line tokens),
      ∃ i < tokens.line.count, TokenInfo.ofTokens line tokens i = t := by
    intro t h_t
    obtain ⟨i, h_i, h_eq⟩ := List.mem_map.1 h_t
    exact ⟨i, List.mem_range.1 h_i, h_eq⟩
  constructor
  case ne_nil =>
    rw [Ne, List.map_eq_nil_iff, List.range_eq_nil]
    omega
  case first =>
    intro t h_t
    rw [List.head?_map, List.head?_range, if_neg (by omega), Option.map_some,
      Option.mem_some_iff] at h_t
    rw [← h_t, h_range h_pos]
    rfl
  case adjacent =>
    rw [List.isChain_map, List.isChain_range]
    intro i h_i
    -- a token starts where the one before it ends, as both are read off the same mark
    rw [h_range (by omega), h_range (by omega)]
    rfl
  case last =>
    intro t h_t
    rw [List.getLast?_map, List.getLast?_range, if_neg (by omega), Option.map_some,
      Option.mem_some_iff] at h_t
    rw [← h_t, h_range (by omega), h.last]
  case onLine =>
    intro t h_t
    obtain ⟨i, h_i, rfl⟩ := h_mem t h_t
    rw [h_range h_i]
    exact ⟨rfl, rfl⟩
  case text_eq =>
    intro t h_t
    obtain ⟨i, h_i, rfl⟩ := h_mem t h_t
    rw [h_range h_i, ← h.toList_tokenText, String.ofList_toList]
    rfl
  case join_eq =>
    rw [← String.toList_inj, String.toList_join, List.map_map, List.flatMap_map]
    exact h.flatMap_tokenText
  case nonempty =>
    intro t h_t
    obtain ⟨i, h_i, rfl⟩ := h_mem t h_t
    rw [h_range h_i]
    refine (h.start_lt i h_i).imp_right ?_
    rintro ⟨h_empty, h_one⟩
    obtain rfl : i = 0 := by omega
    rw [h_one]
    exact ⟨String.length_eq_zero_iff.1 h_empty, rfl⟩

end TokenLine.Partitions

namespace TokenCache

variable {σ : Type} {languages : LanguageTable} {c : TokenCache σ}
  {registry : Registry (Grammar σ)} {src : LineSource}

theorem tokensIn_of_getElem? {line : Nat} {e : LineEntry σ} (h : c.lines[line]? = some e) :
    c.tokensIn line =
      (List.range e.tokens.line.count).map (TokenInfo.ofTokens line e.tokens) := by
  rw [tokensIn, h]

variable [DecidableEq σ]

/-- The entries of a `Reachable` cache partition the texts that they were computed from. -/
theorem Reachable.partitions (h : Reachable languages c) :
    ∀ e ∈ c.lines, e.tokens.line.Partitions e.text := by
  intro e h_e
  obtain ⟨above, h_entry⟩ := LineLexer.Chained.exists_entry h.consistent h_e
  exact LineLexer.partitions_of_entry h_entry

/-- After `validateLine`, the line has an entry with its live text. -/
theorem exists_entry_of_validateLine {line : Nat} {text : String}
    (h_line : src.lines[line]? = some text)
    (h_ok : (c.validateLine registry src line).answer = .ok ()) :
    ∃ e, (c.validateLine registry src line).cache.lines[line]? = some e ∧ e.text = text := by
  have h_refreshed := refreshed_validateRange h_ok
  have h_fresh := h_refreshed.fresh line
    (.inr ⟨_, List.mem_singleton_self _, LineRange.contains_self line⟩)
  rw [LineLexer.Fresh, h_line] at h_fresh
  exact Option.map_eq_some_iff.1 h_fresh

/-- On a `Reachable` cache, the tokens that `lineTokens` answers with partition the line as it is in
    `src`. -/
theorem partitionsLine_lineTokens (h : Reachable languages c) (registry : Registry (Grammar σ))
    (h_languages : registry.languages = languages) (src : LineSource) (line : Nat) (text : String)
    (h_line : src.lines[line]? = some text) (tokens : List TokenInfo)
    (h_ok : (c.lineTokens registry src line).answer = .ok tokens) :
    PartitionsLine line text tokens := by
  obtain ⟨h_valid, rfl⟩ := Reply.answer_andRead_eq_ok_iff.1 h_ok
  have h_after : Reachable languages (c.validateLine registry src line).cache :=
    .perform h (.validateLine line) registry h_languages src
  obtain ⟨e, h_e, rfl⟩ := exists_entry_of_validateLine h_line h_valid
  rw [tokensIn_of_getElem? h_e]
  exact (h_after.partitions e (List.mem_of_getElem? h_e)).partitionsLine line

/-- Raw tokens out of order, two of them overlapping, one empty, and one ending past any line. -/
def carelessGrammar : Grammar Nat where
  scopeName := ⟨"source.careless"⟩
  tokenizeLine _ _ :=
    .ok ⟨[⟨3, 99, [⟨"late"⟩]⟩, ⟨1, 4, [⟨"early"⟩]⟩, ⟨2, 2, [⟨"empty"⟩]⟩], 0⟩

def carelessRegistry : Registry (Grammar Nat) :=
  (Registry.ofLanguages ⟨[⟨"plaintext", none, []⟩, ⟨"careless", some ⟨"source.careless"⟩, []⟩]⟩)
    |>.registerGrammar carelessGrammar

/-- A cache opened with two lines, and then told of a change to the first only, when both had
    changed. -/
def carelessCache : TokenCache Nat :=
  let opened := ((initial .initial).refresh carelessRegistry ⟨"careless", ["xyz", "uvw"]⟩).cache
  (opened.onEdit carelessRegistry ⟨"careless", ["xyz!", "st"]⟩ [⟨⟨⟨0, 0⟩, ⟨0, 1⟩⟩, "?"⟩]).cache

theorem reachable_carelessCache : Reachable carelessRegistry.languages carelessCache :=
  .perform (.perform (.initial .initial) .refresh carelessRegistry rfl ⟨"careless", ["xyz", "uvw"]⟩)
    (.onEdit [⟨⟨⟨0, 0⟩, ⟨0, 1⟩⟩, "?"⟩]) carelessRegistry rfl ⟨"careless", ["xyz!", "st"]⟩

/-- The lines at the time of the request. -/
def carelessSource : LineSource :=
  ⟨"careless", ["xyz!", "añ€de"]⟩

theorem partitionsLine_lineTokens_carelessCache :
    Reachable carelessRegistry.languages carelessCache ∧
    ∃ tokens : List TokenInfo,
      (carelessCache.lineTokens carelessRegistry carelessSource 1).answer = .ok tokens ∧
      tokens.map TokenInfo.text = ["añ€", "de"] ∧
      PartitionsLine 1 "añ€de" tokens := by
  have h_valid : (carelessCache.validateLine carelessRegistry carelessSource 1).answer =
      .ok () := by cbv
  have h_ok : (carelessCache.lineTokens carelessRegistry carelessSource 1).answer =
      .ok ((carelessCache.validateLine carelessRegistry carelessSource 1).cache.tokensIn 1) :=
    Reply.answer_andRead_eq_ok_iff.2 ⟨h_valid, rfl⟩
  exact ⟨reachable_carelessCache, _, h_ok, by cbv,
    partitionsLine_lineTokens reachable_carelessCache carelessRegistry rfl carelessSource 1 "añ€de"
      rfl _ h_ok⟩

end TokenCache

end ScopeTokens
