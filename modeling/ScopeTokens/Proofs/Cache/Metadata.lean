/-
  ScopeTokens.Proofs.Cache.Metadata

  Metadata, kind and language of a token follow from its scopes. In the tokens of
  a line each mark is beside its scopes, and `metadataFor` gives the one from the
  other (`metadata_of_entry`): turning starts into ends keeps the order, and
  `metadataFor []` is the metadata of a default token. So every token that a
  request answers with follows its scopes (`followsScopes_of_ask`). With a grammar
  that gives every token some scope, only default tokens have none.
-/

import ScopeTokens.Proofs.Cache.DefaultTokens
import ScopeTokens.Proofs.Cache.Kept
import ScopeTokens.Proofs.Cache.LineAnswers
import ScopeTokens.Proofs.Cache.Settling
import ScopeTokens.Proofs.Token.Lookup

namespace ScopeTokens

/-- Without scopes the language is that of the document. -/
theorem LanguageTable.languageForScopes_nil (t : LanguageTable) (host : LanguageId) :
    t.languageForScopes host [] = host := by
  rw [languageForScopes]
  cases t.get? host <;> rfl

namespace TokenLine

theorem metadata_assemble (marks : List Mark) (text : String) {i : Nat} {m : TokenMetadata}
    (h : (marks.map Mark.metadata)[i]? = some m) : (assemble marks text).metadata i = m := by
  rw [List.getElem?_map] at h
  obtain ⟨k, h_k, rfl⟩ := Option.map_eq_some_iff.1 h
  apply metadata_of_getElem?
  rw [assemble, List.getElem?_toArray, h_k]

end TokenLine

/-- `g` puts every token under some scope. -/
def Grammar.GivesScopes {σ : Type} (g : Grammar σ) : Prop :=
  ∀ text above answer, g.tokenizeLine text above = .ok answer → ∀ t ∈ answer.tokens, t.scopes ≠ []

namespace LineLexer

variable {σ : Type} {lx : LineLexer σ} {text : String} {above : Option σ} {e : LineEntry σ}

/-! ## Metadata and scopes of an entry -/

/-- `metadataFor` of no scopes is the metadata of a default token. -/
theorem metadataFor_nil (lx : LineLexer σ) : lx.metadataFor [] = .defaultFor lx.language := by
  rw [metadataFor, LanguageTable.languageForScopes_nil, classify_nil]
  rfl

theorem metadata_keptTokens (lx : LineLexer σ) (own : ScopeName) (text : String)
    (raw : List RawToken) {i : Nat} {k : Nat × ScopeStack}
    (h : (kept own text.length raw)[i]? = some k) :
    (lx.keptTokens own text raw).line.metadata i = lx.metadataFor k.2 := by
  refine TokenLine.metadata_assemble _ text ?_
  rw [TokenLine.map_metadata_endsOfStarts, keptMarks, startMarks, List.map_map,
    List.getElem?_map, h]
  rfl

/-- The metadata of token `i` is `metadataFor` of its scopes, whichever way the entry was
    computed. -/
theorem metadata_of_entry (h : lx.entry text above = .ok e) {i : Nat}
    (h_i : i < e.tokens.line.count) :
    e.tokens.line.metadata i = lx.metadataFor (e.tokens.scopes[i]?.getD []) := by
  have h_default (h_i : i < (ScopedTokens.whole text lx.language).line.count) :
      (ScopedTokens.whole text lx.language).line.metadata i =
        lx.metadataFor ((ScopedTokens.whole text lx.language).scopes[i]?.getD []) := by
    obtain rfl : i = 0 := Nat.lt_one_iff.1 h_i
    exact (TokenLine.metadata_whole text _ 0).trans (metadataFor_nil lx).symm
  rcases entry_cases h with
    ⟨-, rfl⟩ | ⟨g, -, -, rfl⟩ | ⟨g, answer, tokens, -, -, -, h_build, rfl⟩
  · exact h_default h_i
  · exact h_default h_i
  -- the marks and the scopes are read off the same starts
  · obtain ⟨-, rfl⟩ := eq_keptTokens_of_build h_build
    rw [count_keptTokens] at h_i
    rw [metadata_keptTokens lx g.scopeName text answer.tokens (List.getElem?_eq_getElem h_i),
      keptTokens, List.getElem?_map, List.getElem?_eq_getElem h_i]
    rfl

/-- A kept start has the scopes of some raw token. -/
theorem exists_of_mem_starts {length : Nat} {start : Option Nat} {raw : List RawToken}
    {k : Nat × ScopeStack} (h : k ∈ starts length start raw) : ∃ t ∈ raw, t.scopes = k.2 := by
  induction raw generalizing start with
  | nil => exact absurd h List.not_mem_nil
  | cons t ts ih =>
    have h_later {start' : Option Nat} (h : k ∈ starts length start' ts) :
        ∃ t' ∈ t :: ts, t'.scopes = k.2 := by
      obtain ⟨t', h_t', h_scopes⟩ := ih h
      exact ⟨t', List.mem_cons_of_mem t h_t', h_scopes⟩
    have h_here {start' : Nat} {start'' : Option Nat}
        (h : k ∈ (start', t.scopes) :: starts length start'' ts) :
        ∃ t' ∈ t :: ts, t'.scopes = k.2 := by
      rcases List.mem_cons.1 h with rfl | h_rest
      · exact ⟨t, List.mem_cons_self, rfl⟩
      · exact h_later h_rest
    -- each branch passes `t` over or puts it at a start of its own
    unfold starts at h
    split at h
    · exact h_later h
    · split at h
      · exact h_here h
      · dsimp only at h
        split at h
        · exact h_later h
        · exact h_here h

/-- If every raw token has scopes, so has every kept one: its own, or the grammar's root scope. -/
theorem scopes_ne_nil_of_kept {own : ScopeName} {length : Nat} {raw : List RawToken}
    (h : ∀ t ∈ raw, t.scopes ≠ []) {k : Nat × ScopeStack} (h_k : k ∈ kept own length raw) :
    k.2 ≠ [] := by
  rw [kept] at h_k
  split at h_k
  · rw [List.mem_singleton.1 h_k]
    exact List.cons_ne_nil own []
  · obtain ⟨t, h_t, h_scopes⟩ := exists_of_mem_starts h_k
    rw [← h_scopes]
    exact h t (List.mem_mergeSort.1 h_t)

/-- A token has no scopes exactly if the line was not given to the grammar. -/
theorem scopes_eq_nil_iff_of_entry (h_scopes : ∀ g ∈ lx.grammar, g.GivesScopes)
    (h : lx.entry text above = .ok e) {i : Nat} (h_i : i < e.tokens.line.count) :
    e.tokens.scopes[i]?.getD [] = [] ↔ lx.grammar = none ∨ lx.maxLineLength < text.length := by
  have h_default (h_i : i < (ScopedTokens.whole text lx.language).line.count) :
      (ScopedTokens.whole text lx.language).scopes[i]?.getD [] = [] := by
    obtain rfl : i = 0 := Nat.lt_one_iff.1 h_i
    rfl
  rcases entry_cases h with
    ⟨h_none, rfl⟩ | ⟨g, -, h_long, rfl⟩ |
      ⟨g, answer, tokens, h_some, h_short, h_answer, h_build, rfl⟩
  · exact iff_of_true (h_default h_i) (.inl h_none)
  · exact iff_of_true (h_default h_i) (.inr h_long)
  · -- the tokens are those that the grammar gave, within the limit
    obtain ⟨-, rfl⟩ := eq_keptTokens_of_build h_build
    rw [count_keptTokens] at h_i
    have h_given : ∀ t ∈ answer.tokens, t.scopes ≠ [] :=
      h_scopes g (Option.mem_def.2 h_some) text above answer h_answer
    refine iff_of_false ?_ ?_
    · show ¬ ((kept g.scopeName text.length answer.tokens).map Prod.snd)[i]?.getD [] = []
      rw [List.getElem?_map, List.getElem?_eq_getElem h_i]
      exact scopes_ne_nil_of_kept h_given (List.getElem_mem h_i)
    · rw [h_some, not_or, Nat.not_lt]
      exact ⟨Option.some_ne_none g, h_short⟩

end LineLexer

/-! ## Tokens of an answer -/

/-- Metadata, kind and language of `t` follow from its scopes, in a document of language `host`. -/
structure TokenInfo.FollowsScopes (languages : LanguageTable) (host : LanguageId) (t : TokenInfo) :
    Prop where
  metadata_eq : t.metadata =
    .pack (languages.languageForScopes host t.scopes) (classify t.scopes) .plain
      (classify t.scopes == .other) 1 2
  tokenType_metadata : t.metadata.tokenType = t.tokenType
  tokenType_eq : t.tokenType = classify t.scopes
  languageId_eq : t.languageId = languages.languageForScopes host t.scopes

namespace TokenInfo

variable {σ : Type} {lx : LineLexer σ} {t : TokenInfo}

theorem followsScopes_of_metadataFor (h : t.metadata = lx.metadataFor t.scopes)
    (h_type : t.metadata.tokenType = t.tokenType) : t.FollowsScopes lx.languages lx.language where
  metadata_eq := h
  tokenType_metadata := h_type
  tokenType_eq := by
    rw [← h_type, h]
    exact TokenMetadata.tokenType_pack ..
  languageId_eq := by
    rw [languageId, h]
    exact TokenMetadata.languageId_pack ..

theorem followsScopes_emptyAt (lx : LineLexer σ) (p : Position) :
    (emptyAt p lx.language).FollowsScopes lx.languages lx.language :=
  followsScopes_of_metadataFor (LineLexer.metadataFor_nil lx).symm (TokenMetadata.tokenType_pack ..)

end TokenInfo

/-- All tokens in an answer. -/
def CacheAnswer.tokenInfos : CacheAnswer → List TokenInfo
  | token t => [t]
  | tokens ts => ts
  | lines ls => ls.flatten
  | _ => []

namespace TokenCache

variable {σ : Type} {c : TokenCache σ} {src : LineSource}

/-- `t` is token `i` of a cached line of `range`, or is outside of all lines. -/
inductive ReadOff (c : TokenCache σ) (range : LineRange) : TokenInfo → Prop
  | onLine {line i : Nat} {e : LineEntry σ} (h_line : range.contains line = true)
    (h_e : c.lines[line]? = some e) (h_i : i < e.tokens.line.count) :
    ReadOff c range (.ofTokens line e.tokens i)
  | outside {p : Position} (h : c.lineCount ≤ p.line) : ReadOff c range (.emptyAt p c.languageId)

theorem readOff_of_mem_tokensIn {range : LineRange} {line : Nat} {t : TokenInfo}
    (h_line : range.contains line = true) (h : t ∈ c.tokensIn line) : ReadOff c range t := by
  cases h_e : c.lines[line]? with
  | none =>
    rw [tokensIn, h_e] at h
    exact absurd h List.not_mem_nil
  | some e =>
    rw [tokensIn_of_getElem? h_e] at h
    obtain ⟨i, h_i, rfl⟩ := List.mem_map.1 h
    exact .onLine h_line h_e (List.mem_range.1 h_i)

theorem readOff_tokenIn (h : ∀ e ∈ c.lines, e.tokens.line.Partitions e.text) (p : Position) :
    ReadOff c ⟨p.line, p.line + 1⟩ (c.tokenIn p) := by
  rw [tokenIn]
  cases h_e : c.lines[p.line]? with
  | none => exact .outside (List.getElem?_eq_none_iff.1 h_e)
  | some e =>
    have h_i := (h e (List.mem_of_getElem? h_e)).indexOf_lt p.column
    exact .onLine (LineRange.contains_self p.line) h_e h_i

theorem readOff_of_mem_tokensOver {range : LineRange} {t : TokenInfo}
    (h : t ∈ (c.tokensOver range).flatten) : ReadOff c range t := by
  obtain ⟨ts, h_ts, h_t⟩ := List.mem_flatten.1 h
  rw [tokensOver] at h_ts
  obtain ⟨line, h_line, rfl⟩ := List.mem_map.1 h_ts
  rw [List.mem_range'_1] at h_line
  exact readOff_of_mem_tokensIn (LineRange.contains_iff.2 (by omega)) h_t

/-- The tokens of an answer are read off the lines that the request validates. -/
theorem readOff_of_mem_tokenInfos (h : ∀ e ∈ c.lines, e.tokens.line.Partitions e.text)
    {request : CacheRequest} {t : TokenInfo} (h_t : t ∈ (request.read src c).tokenInfos) :
    ∃ range, request.range? src = some range ∧ ReadOff c range t := by
  cases request with
  | tokenAt p =>
    rw [List.mem_singleton.1 h_t]
    exact ⟨_, rfl, readOff_tokenIn h p⟩
  | lineTokens line =>
    exact ⟨_, rfl, readOff_of_mem_tokensIn (LineRange.contains_self line) h_t⟩
  | tokensForLines range => exact ⟨_, rfl, readOff_of_mem_tokensOver h_t⟩
  | allTokens => exact ⟨_, rfl, readOff_of_mem_tokensOver h_t⟩
  | _ => exact absurd h_t List.not_mem_nil

/-- `line` has default tokens: there is no grammar, it is longer than the limit, or it does not
    exist. -/
def GivesDefault (c : TokenCache σ) (src : LineSource) (line : Nat) : Prop :=
  c.grammar = none ∨ c.config.maxLineLength < src.lineLength line ∨ src.lineCount ≤ line

variable {languages : LanguageTable} {range : LineRange} {t : TokenInfo}

theorem ReadOff.followsScopes (h : Consistent languages c) (h_t : ReadOff c range t) :
    t.FollowsScopes languages c.languageId := by
  cases h_t with
  | @onLine line i e h_line h_e h_i =>
    obtain ⟨above, h_entry⟩ := LineLexer.Chained.exists_entry h (List.mem_of_getElem? h_e)
    have h_metadata : (TokenInfo.ofTokens line e.tokens i).metadata =
        (c.lexer languages).metadataFor (TokenInfo.ofTokens line e.tokens i).scopes :=
      LineLexer.metadata_of_entry h_entry h_i
    exact TokenInfo.followsScopes_of_metadataFor h_metadata rfl
  | outside => exact TokenInfo.followsScopes_emptyAt (c.lexer languages) _

theorem ReadOff.scopes_eq_nil_iff (h : Consistent languages c)
    (h_scopes : ∀ g ∈ c.grammar, g.GivesScopes) (h_fresh : c.UpToDate src [range])
    (h_t : ReadOff c range t) : t.scopes = [] ↔ c.GivesDefault src t.range.start.line := by
  cases h_t with
  | @onLine line i e h_line h_e h_i =>
    obtain ⟨above, h_entry⟩ := LineLexer.Chained.exists_entry h (List.mem_of_getElem? h_e)
    have h_text := h_fresh.text_eq ⟨range, List.mem_singleton_self _, h_line⟩ h_e
    have h_lt : line < src.lineCount := by
      obtain ⟨h_lt, -⟩ := List.getElem?_eq_some_iff.1 h_e
      exact h_fresh.lineCount ▸ h_lt
    have h_range := (LineLexer.partitions_of_entry h_entry).range_ofTokens line h_i
    rw [h_range, GivesDefault, LineSource.lineLength, ← h_text, or_iff_left (Nat.not_le.2 h_lt)]
    exact LineLexer.scopes_eq_nil_iff_of_entry h_scopes h_entry h_i
  | outside h_past =>
    rw [h_fresh.lineCount] at h_past
    exact iff_of_true rfl (.inr (.inr h_past))

variable [DecidableEq σ]

/-- Every token in the answer to a request on a `Reachable` cache follows its scopes: metadata, kind
    and language. If the grammar gives every token some scope, a token without scopes is a default
    token (`GivesDefault`), and the other way round. -/
theorem followsScopes_of_ask (h : Reachable languages c) (registry : Registry (Grammar σ))
    (h_languages : registry.languages = languages) (src : LineSource) (request : CacheRequest)
    (answer : CacheAnswer) (h_ok : (request.ask c registry src).answer = .ok answer) :
    ∀ t ∈ answer.tokenInfos,
      t.FollowsScopes languages (request.ask c registry src).cache.languageId ∧
      ((∀ g ∈ (request.ask c registry src).cache.grammar, g.GivesScopes) →
        (t.scopes = [] ↔
          (request.ask c registry src).cache.GivesDefault src t.range.start.line)) := by
  intro t h_t
  have h_after : Reachable languages (request.ask c registry src).cache := by
    rw [CacheRequest.cache_ask]
    exact .perform h request registry h_languages src
  have h_read : request.read src (request.ask c registry src).cache = answer := by
    rw [CacheRequest.ask_eq] at h_ok ⊢
    exact (Reply.answer_andRead_eq_ok_iff.1 h_ok).2
  rw [← h_read] at h_t
  obtain ⟨range, h_range, h_off⟩ := readOff_of_mem_tokenInfos h_after.partitions h_t
  refine ⟨h_off.followsScopes h_after.consistent, fun h_scopes => ?_⟩
  obtain ⟨c', registry', h_reply, h_settled⟩ := upToDate_ask h_range h_ok
  rw [h_reply] at h_after h_off h_scopes ⊢
  -- of all lines that are up to date now, only those that were asked for matter
  refine h_off.scopes_eq_nil_iff h_after.consistent h_scopes (h_settled.mono ?_)
  rintro line - ⟨r, h_r, h_line⟩
  exact ⟨r, List.mem_append_right _ h_r, h_line⟩

/-- The first two characters of a line are a comment, the rest is a script. -/
def pageGrammar : Grammar Nat where
  scopeName := ⟨"text.page"⟩
  tokenizeLine _ _ :=
    .ok ⟨[⟨0, 2, [⟨"text.page"⟩, ⟨"comment.line"⟩]⟩,
      ⟨2, 99, [⟨"text.page"⟩, ⟨"source.script"⟩]⟩], 0⟩

/-- In a page, scopes with `source.script` are in language 3. -/
def pageRegistry : Registry (Grammar Nat) :=
  (Registry.ofLanguages ⟨[⟨"plaintext", none, []⟩,
      ⟨"page", some ⟨"text.page"⟩, [(⟨"source.script"⟩, ⟨3⟩)]⟩, ⟨"script", none, []⟩]⟩)
    |>.registerGrammar pageGrammar

/-- A cache with a `maxLineLength` of 8. -/
def pageCache : TokenCache Nat :=
  ((initial ⟨8⟩).refresh pageRegistry ⟨"page", ["", "--note"]⟩).cache

theorem reachable_pageCache : Reachable pageRegistry.languages pageCache :=
  .perform (.initial ⟨8⟩) .refresh pageRegistry rfl ⟨"page", ["", "--note"]⟩

theorem givesScopes_pageGrammar : pageGrammar.GivesScopes := by
  intro text above answer h t h_t
  obtain rfl := Except.ok.inj h
  revert t
  decide

/-- The page as it is when its tokens are queried. -/
def pageSource : LineSource :=
  ⟨"page", ["#!run", "0123456789"]⟩

/-- The answer has a comment, a script, and a line that is too long. -/
theorem followsScopes_of_ask_pageCache :
    Reachable pageRegistry.languages pageCache ∧ pageGrammar.GivesScopes ∧
    ∃ answer, (CacheRequest.allTokens.ask pageCache pageRegistry pageSource).answer = .ok answer ∧
      answer.tokenInfos.map (fun t => (t.text, t.tokenType, t.languageId)) =
        [("#!", .comment, ⟨2⟩), ("run", .other, ⟨3⟩), ("0123456789", .other, ⟨2⟩)] ∧
      ∀ t ∈ answer.tokenInfos, t.FollowsScopes pageRegistry.languages ⟨2⟩ ∧
        (t.scopes = [] ↔
          (CacheRequest.allTokens.ask pageCache pageRegistry pageSource).cache.GivesDefault
            pageSource t.range.start.line) := by
  have h_valid : (CacheRequest.allTokens.perform pageCache pageRegistry pageSource).answer =
      .ok () := by cbv
  have h_ok : (CacheRequest.allTokens.ask pageCache pageRegistry pageSource).answer =
      .ok (CacheRequest.allTokens.read pageSource
        (CacheRequest.allTokens.perform pageCache pageRegistry pageSource).cache) := by
    rw [CacheRequest.ask_eq]
    exact Reply.answer_andRead_eq_ok_iff.2 ⟨h_valid, rfl⟩
  have h_language :
      (CacheRequest.allTokens.ask pageCache pageRegistry pageSource).cache.languageId = ⟨2⟩ := by
    cbv
  have h_grammar : (CacheRequest.allTokens.ask pageCache pageRegistry pageSource).cache.grammar =
      some pageGrammar := by cbv
  refine ⟨reachable_pageCache, givesScopes_pageGrammar, _, h_ok, by cbv, fun t h_t => ?_⟩
  obtain ⟨h_follows, h_none⟩ := followsScopes_of_ask reachable_pageCache pageRegistry rfl pageSource
    .allTokens _ h_ok t h_t
  rw [h_language] at h_follows
  refine ⟨h_follows, h_none fun g h_g => ?_⟩
  rw [h_grammar, Option.mem_some_iff] at h_g
  rw [← h_g]
  exact givesScopes_pageGrammar

end TokenCache

end ScopeTokens
