/-
  ScopeTokens.Proofs.Cache.DefaultTokens

  Answers from default tokens. The default token of a line covers it, has no
  scopes, and is of kind `other`. If the lines that a request asks about have the
  default tokens of their texts, its answer follows from these texts and their
  language alone (`read_eq_defaultAnswer`).
-/

import ScopeTokens.Proofs.Cache.Answers
import ScopeTokens.Proofs.Token.Fields
import ScopeTokens.Proofs.Token.Single

namespace ScopeTokens

/-- Line `line` as one default token. -/
def TokenInfo.wholeLine (line : Nat) (text : String) (language : LanguageId) : TokenInfo where
  range := .onLine line 0 text.length
  text := text
  scopes := []
  tokenType := .other
  metadata := .defaultFor language

theorem TokenInfo.ofTokens_default (line : Nat) (text : String) (language : LanguageId) :
    ofTokens line (.whole text language) 0 = wholeLine line text language := by
  have h_type : (TokenMetadata.defaultFor language).tokenType = .other :=
    TokenMetadata.tokenType_pack ..
  rw [ofTokens, ScopedTokens.whole, TokenLine.endOffset_whole, TokenLine.tokenText_whole,
    TokenLine.metadata_whole, h_type]
  rfl

/-- `wholeLine` for each line of `src`. -/
def LineSource.defaultTokens (src : LineSource) (language : LanguageId) : List (List TokenInfo) :=
  src.lines.mapIdx fun line text => [.wholeLine line text language]

/-- The answer of a cache that has default tokens of `language` for all lines of `src`. -/
def CacheRequest.defaultAnswer (language : LanguageId) (src : LineSource) :
    CacheRequest → CacheAnswer
  | refresh => .done
  | onEdit _ => .done
  | validateRange _ => .done
  | validateLine _ => .done
  | validateDocument => .done
  | tokenAt p =>
    .token (match src.lines[p.line]? with
      | none => .emptyAt p language
      | some text => .wholeLine p.line text language)
  | tokenTypeAt _ => .kind .other
  | isCommentAt _ => .inComment false
  | lineTokens line => .tokens ((src.defaultTokens language)[line]?.getD [])
  | tokensForLines range => .lines (((src.defaultTokens language).take range.stop).drop range.start)
  | allTokens => .lines (src.defaultTokens language)
  | lineArray line => .array (src.lines[line]?.map fun text => .whole text (.defaultFor language))
  | runAt p =>
    .run (src.lines[p.line]?.map fun text =>
      ⟨.whole text (.defaultFor language), language, 0, 1, 0, text.length⟩)

/-! ## Reading default tokens -/

namespace TokenCache

variable {σ : Type} {c : TokenCache σ} {src : LineSource} {line : Nat}

/-- `c` has the default token of line `line` of `src`, and no entry if there is no such line. -/
def HoldsDefault (c : TokenCache σ) (src : LineSource) (line : Nat) : Prop :=
  c.lines[line]? = src.lines[line]?.map fun text => .plain text c.languageId

namespace HoldsDefault

theorem tokenIn {p : Position} (h : HoldsDefault c src p.line) :
    c.tokenIn p = match src.lines[p.line]? with
      | none => .emptyAt p c.languageId
      | some text => .wholeLine p.line text c.languageId := by
  rw [TokenCache.tokenIn, h]
  cases src.lines[p.line]? with
  | none => rfl
  | some text =>
    refine Eq.trans ?_ (TokenInfo.ofTokens_default p.line text c.languageId)
    exact congrArg (TokenInfo.ofTokens p.line _) (TokenLine.indexOf_whole text _ p.column)

theorem tokenType_tokenIn {p : Position} (h : HoldsDefault c src p.line) :
    (c.tokenIn p).tokenType = .other := by
  rw [h.tokenIn]
  cases src.lines[p.line]? <;> rfl

theorem tokensIn (h : HoldsDefault c src line) :
    c.tokensIn line = (src.defaultTokens c.languageId)[line]?.getD [] := by
  rw [TokenCache.tokensIn, h, LineSource.defaultTokens, List.getElem?_mapIdx]
  cases src.lines[line]? with
  | none => rfl
  | some text => exact congrArg (fun t => [t]) (TokenInfo.ofTokens_default line text _)

theorem arrayIn (h : HoldsDefault c src line) :
    c.arrayIn line = src.lines[line]?.map fun text => .whole text (.defaultFor c.languageId) := by
  rw [TokenCache.arrayIn, h, Option.map_map]
  rfl

end HoldsDefault

theorem tokensOver_of_holdsDefault {range : LineRange} (h_count : c.lineCount = src.lineCount)
    (h : ∀ line, range.contains line = true → HoldsDefault c src line) :
    c.tokensOver range = ((src.defaultTokens c.languageId).take range.stop).drop range.start := by
  have h_length : (src.defaultTokens c.languageId).length = c.lineCount := by
    rw [h_count, LineSource.defaultTokens, List.length_mapIdx, LineSource.lineCount]
  apply List.ext_getElem
  · rw [tokensOver, List.length_map, List.length_range', List.length_drop, List.length_take,
      h_length]
  · intro i h_i h_i'
    rw [List.length_drop, List.length_take] at h_i'
    have h_contains : range.contains (range.start + i) = true :=
      LineRange.contains_iff.2 ⟨Nat.le_add_right _ _, by omega⟩
    simp only [tokensOver, List.getElem_map, List.getElem_range', Nat.one_mul, List.getElem_drop,
      List.getElem_take]
    rw [(h _ h_contains).tokensIn, List.getElem?_eq_getElem (by omega), Option.getD_some]

/-- If the lines of the request have their default tokens, its answer is `defaultAnswer`. -/
theorem read_eq_defaultAnswer {request : CacheRequest} {range : LineRange}
    (h_range : request.range? src = some range) (h_count : c.lineCount = src.lineCount)
    (h : ∀ line, range.contains line = true → HoldsDefault c src line) :
    request.read src c = request.defaultAnswer c.languageId src := by
  -- a request about one line has that line alone as its range
  have h_line {line : Nat} (h_line : range = ⟨line, line + 1⟩) : HoldsDefault c src line := by
    subst h_line
    exact h line (LineRange.contains_self line)
  cases request with
  | refresh => rfl
  | onEdit changes => rfl
  | validateRange range => rfl
  | validateLine line => rfl
  | validateDocument => rfl
  | tokenAt p => exact congrArg CacheAnswer.token (h_line (Option.some.inj h_range).symm).tokenIn
  | tokenTypeAt p =>
    exact congrArg CacheAnswer.kind (h_line (Option.some.inj h_range).symm).tokenType_tokenIn
  | isCommentAt p =>
    rw [CacheRequest.read, TokenInfo.isComment,
      (h_line (Option.some.inj h_range).symm).tokenType_tokenIn]
    rfl
  | lineTokens line =>
    exact congrArg CacheAnswer.tokens (h_line (Option.some.inj h_range).symm).tokensIn
  | tokensForLines range' =>
    obtain rfl := Option.some.inj h_range
    exact congrArg CacheAnswer.lines (tokensOver_of_holdsDefault h_count h)
  | allTokens =>
    obtain rfl := Option.some.inj h_range
    rw [CacheRequest.read, tokensOver_of_holdsDefault h_count h, List.drop_zero,
      List.take_of_length_le]
    · rfl
    · rw [LineSource.defaultTokens, List.length_mapIdx, LineSource.lineCount]
  | lineArray line =>
    exact congrArg CacheAnswer.array (h_line (Option.some.inj h_range).symm).arrayIn
  | runAt p =>
    rw [CacheRequest.read, (h_line (Option.some.inj h_range).symm).arrayIn, Option.map_map]
    have h_run (text : String) :
        (TokenLine.whole text (.defaultFor c.languageId)).runAt p.column =
          ⟨.whole text (.defaultFor c.languageId), c.languageId, 0, 1, 0, text.length⟩ := by
      rw [TokenLine.runAt_whole]
      exact congrArg (TokenRun.mk _ · 0 1 0 text.length) (TokenMetadata.languageId_pack ..)
    simp only [Function.comp_def, h_run]
    rfl

end TokenCache

end ScopeTokens
