/-
  ScopeTokens.Proofs.Language.Embedding

  The language of a token, by the prefixes declared for the language of its
  document. It is what the longest prefix leads to that covers the innermost scope
  that is covered at all (`EmbeddingRule`). A prefix declared more than once
  counts by its first declaration; apart from that the order of declarations makes
  no difference (`EmbeddingRule.of_perm`). `languageForScopes` follows this rule
  after any calls (`languageForScopes_callEach`).
-/

import ScopeTokens.Proofs.Language.Registrations

namespace ScopeTokens

namespace LanguageTable

/-! ## The rule -/

/-- No declared prefix covers `scope`. -/
def Uncovered (declared : List (ScopeName × LanguageId)) (scope : ScopeName) : Prop :=
  ∀ e ∈ declared, ¬ e.1.Covers scope

/-- `EmbeddingRule declared host scopes id`: a token under `scopes` in a document of `host` is in
    language `id`. -/
inductive EmbeddingRule (declared : List (ScopeName × LanguageId)) (host : LanguageId)
    (scopes : ScopeStack) : LanguageId → Prop where
  /-- No scope is covered. -/
  | outside (h_scopes : ∀ scope ∈ scopes, Uncovered declared scope) :
    EmbeddingRule declared host scopes host
  /-- `scope` is covered by `p`, its longest prefix, and no scope inside of it is covered. -/
  | inside {outer inner : List ScopeName} {scope p : ScopeName} {id : LanguageId}
    (h_scopes : scopes = outer ++ scope :: inner)
    (h_inner : ∀ scope' ∈ inner, Uncovered declared scope')
    (h_longest : LongestPrefix declared scope p id) :
    EmbeddingRule declared host scopes id

variable {declared declared' : List (ScopeName × LanguageId)} {scope p : ScopeName}
  {host id : LanguageId} {scopes : ScopeStack}

theorem embeddedFor_eq_some_iff :
    embeddedFor (longestFirst declared) scope = some id ↔
      ∃ p, LongestPrefix declared scope p id := by
  refine ⟨longestPrefix_of_embeddedFor, ?_⟩
  rintro ⟨p, h⟩
  cases h_found : embeddedFor (longestFirst declared) scope with
  | none =>
    have h_uncovered := embeddedFor_eq_none_iff.1 h_found
    exact absurd h.covers (h_uncovered _ (List.mem_of_find?_eq_some h.first))
  | some id' =>
    obtain ⟨q, h'⟩ := longestPrefix_of_embeddedFor h_found
    rw [h'.unique h]

/-- The search from the innermost scope outwards follows the rule. -/
theorem findSome?_embeddedFor_iff :
    (scopes.reverse.findSome? (embeddedFor (longestFirst declared))).getD host = id ↔
      EmbeddingRule declared host scopes id := by
  constructor
  · rintro rfl
    cases h_found : scopes.reverse.findSome? (embeddedFor (longestFirst declared)) with
    | none =>
      rw [List.findSome?_eq_none_iff] at h_found
      refine .outside fun scope h_scope => ?_
      exact embeddedFor_eq_none_iff.1 (h_found scope (List.mem_reverse.2 h_scope))
    | some id =>
      -- what the search has passed before it finds a scope is inside of it
      obtain ⟨inner, scope, outer, h_split, h_scope, h_inner⟩ :=
        List.findSome?_eq_some_iff.1 h_found
      obtain ⟨p, h_longest⟩ := embeddedFor_eq_some_iff.1 h_scope
      have h_scopes : scopes = outer.reverse ++ scope :: inner.reverse := by
        rw [← List.reverse_reverse scopes, h_split]
        simp
      refine .inside h_scopes (fun scope' h_mem => ?_) h_longest
      exact embeddedFor_eq_none_iff.1 (h_inner scope' (List.mem_reverse.1 h_mem))
  · rintro (h_scopes | ⟨rfl, h_inner, h_longest⟩)
    · have h_none : scopes.reverse.findSome? (embeddedFor (longestFirst declared)) = none :=
        List.findSome?_eq_none_iff.2 fun scope h_scope =>
          embeddedFor_eq_none_iff.2 (h_scopes scope (List.mem_reverse.1 h_scope))
      rw [h_none, Option.getD_none]
    · rename_i outer inner scope p
      have h_none : inner.reverse.findSome? (embeddedFor (longestFirst declared)) = none :=
        List.findSome?_eq_none_iff.2 fun scope' h_mem =>
          embeddedFor_eq_none_iff.2 (h_inner scope' (List.mem_reverse.1 h_mem))
      have h_some := embeddedFor_eq_some_iff.2 ⟨p, h_longest⟩
      rw [List.reverse_append, List.reverse_cons, List.append_assoc, List.findSome?_append, h_none,
        Option.none_or, List.singleton_append, List.findSome?_cons, h_some, Option.getD_some]

/-! ## The order of the declarations -/

/-- If no prefix is declared twice, every declaration is the first of its prefix. -/
theorem find?_prefix_eq_some_iff (h : (declared.map Prod.fst).Nodup) :
    declared.find? (fun e => e.1 == p) = some (p, id) ↔ (p, id) ∈ declared := by
  induction declared with
  | nil => simp
  | cons e es ih =>
    obtain ⟨h_e, h_es⟩ := List.nodup_cons.1 h
    rw [List.mem_cons]
    by_cases h_p : e.1 = p
    · have h_rest : (p, id) ∉ es := fun h_mem => h_e (h_p ▸ List.mem_map_of_mem h_mem)
      rw [List.find?_cons_of_pos (by simpa using h_p), Option.some.injEq, or_iff_left h_rest]
      exact eq_comm
    · have h_head : (p, id) ≠ e := fun h_eq => h_p (by rw [← h_eq])
      rw [List.find?_cons_of_neg (by simpa using h_p), ih h_es, or_iff_right h_head]

theorem Uncovered.of_perm (h : declared.Perm declared') (h_scope : Uncovered declared scope) :
    Uncovered declared' scope :=
  fun e h_e => h_scope e (h.mem_iff.2 h_e)

theorem LongestPrefix.of_perm (h : declared.Perm declared')
    (h_nodup : (declared.map Prod.fst).Nodup)
    (h_longest : LongestPrefix declared scope p id) : LongestPrefix declared' scope p id where
  covers := h_longest.covers
  longest e h_e := h_longest.longest e (h.mem_iff.2 h_e)
  first := by
    have h_mem := (find?_prefix_eq_some_iff h_nodup).1 h_longest.first
    have h_nodup' := (h.map Prod.fst).nodup_iff.1 h_nodup
    exact (find?_prefix_eq_some_iff h_nodup').2 (h.mem_iff.1 h_mem)

theorem EmbeddingRule.of_perm (h : declared.Perm declared')
    (h_nodup : (declared.map Prod.fst).Nodup) (h_rule : EmbeddingRule declared host scopes id) :
    EmbeddingRule declared' host scopes id := by
  cases h_rule with
  | outside h_scopes => exact .outside fun scope h_scope => (h_scopes scope h_scope).of_perm h
  | inside h_scopes h_inner h_longest =>
    exact .inside h_scopes (fun scope h_scope => (h_inner scope h_scope).of_perm h)
      (h_longest.of_perm h h_nodup)

end LanguageTable

namespace Registration

open LanguageTable

/-! ## After any calls -/

/-- The prefixes that the calls `log` declare for `host`, in the order of the calls. -/
def declaredFor (log : List Registration) (t : LanguageTable) (host : LanguageId) :
    List (ScopeName × LanguageId) :=
  match t.nameOf host with
  | none => []
  | some name => (embeddings log name).map fun e => (⟨e.1⟩, t.idOf e.2)

variable {log log' : List Registration}

theorem languageForScopes_toTable (h : Legal log) (host : LanguageId) (scopes : ScopeStack)
    (id : LanguageId) :
    (toTable log).languageForScopes host scopes = id ↔
      EmbeddingRule (declaredFor log (toTable log) host) host scopes id := by
  rw [← findSome?_embeddedFor_iff, languageForScopes, declaredFor, nameOf]
  cases h_host : (toTable log).get? host with
  | none =>
    have h_none : scopes.reverse.findSome? (embeddedFor (longestFirst [])) = none :=
      List.findSome?_eq_none_iff.2 fun scope _ =>
        embeddedFor_eq_none_iff.2 fun e h_e => absurd h_e List.not_mem_nil
    simp only [Option.map_none, h_none, Option.getD_none]
  | some l =>
    have h_embedded : l.embedded = longestFirst (prefixes log l.name) := by
      obtain ⟨declared, -, rfl⟩ := List.mem_map.1 (mem_languages_of_get? h_host)
      rfl
    simp only [Option.map_some, h_embedded, prefixes_eq_map_idOf h]

theorem declaredFor_perm (h_names : names log' = names log) (h : log'.Perm log)
    (host : LanguageId) :
    (declaredFor log' (toTable log') host).Perm (declaredFor log (toTable log) host) := by
  have h_tables : (toTable log').names = (toTable log).names := by
    rw [names_toTable, names_toTable, h_names]
  rw [declaredFor, declaredFor, nameOf_congr h_tables]
  cases (toTable log).nameOf host with
  | none => exact .refl []
  | some name =>
    simp only [idOf_congr h_tables]
    exact (h.filterMap (embedding? name)).map _

/-- After any calls, `languageForScopes` is the language that `EmbeddingRule` names for the prefixes
    declared by the accepted ones. If no prefix is declared twice, other calls with the same
    languages and the same declarations in another order give the same answer. -/
theorem languageForScopes_callEach (calls : List Registration) (host : LanguageId)
    (scopes : ScopeStack) :
    (∀ id, (initial.callEach calls).languageForScopes host scopes = id ↔
      EmbeddingRule (declaredFor (initial.accepted calls) (initial.callEach calls) host)
        host scopes id) ∧
    ∀ calls', languages (initial.accepted calls') = languages (initial.accepted calls) →
      (initial.accepted calls').Perm (initial.accepted calls) →
      ((declaredFor (initial.accepted calls) (initial.callEach calls) host).map Prod.fst).Nodup →
      (initial.callEach calls').languageForScopes host scopes =
        (initial.callEach calls).languageForScopes host scopes := by
  obtain ⟨h_legal, h_table⟩ := callEach_initial calls
  rw [h_table]
  refine ⟨languageForScopes_toTable h_legal host scopes,
    fun calls' h_languages h_perm h_nodup => ?_⟩
  obtain ⟨h_legal', h_table'⟩ := callEach_initial calls'
  have h_names : names (initial.accepted calls') = names (initial.accepted calls) := by
    rw [names, names, h_languages]
  -- the other table has the same numbers, so the rule is asked about the same prefixes
  have h_rule := (languageForScopes_toTable h_legal host scopes _).1 rfl
  rw [h_table', languageForScopes_toTable h_legal' host scopes]
  exact h_rule.of_perm (declaredFor_perm h_names h_perm host).symm h_nodup

/-- Calls of which the second is refused, as its language is not registered yet. -/
def pageCalls : List Registration :=
  [language "html" (some "text.html"), embedded "html" "source" "css", language "css" none,
    language "js" (some "source.js"), embedded "html" "source" "css",
    embedded "html" "source.js" "js"]

/-- The same prefixes in the other order; the third call is refused as a duplicate. -/
def swappedPageCalls : List Registration :=
  [language "html" (some "text.html"), language "css" none, language "css" (some "source.css"),
    language "js" (some "source.js"), embedded "html" "source.js" "js",
    embedded "html" "source" "css"]

theorem languageForScopes_callEach_swapped :
    languages (initial.accepted swappedPageCalls) = languages (initial.accepted pageCalls) ∧
    (initial.accepted swappedPageCalls).Perm (initial.accepted pageCalls) ∧
    ((declaredFor (initial.accepted pageCalls) (initial.callEach pageCalls) ⟨2⟩).map
      Prod.fst).Nodup ∧
    (initial.callEach swappedPageCalls).languageForScopes ⟨2⟩
      [⟨"source.css"⟩, ⟨"source.js.embedded"⟩, ⟨"sourcemap"⟩] = ⟨4⟩ := by
  have h_languages :
      languages (initial.accepted swappedPageCalls) = languages (initial.accepted pageCalls) := by
    decide +kernel
  have h_perm : (initial.accepted swappedPageCalls).Perm (initial.accepted pageCalls) := by
    decide +kernel
  have h_nodup : ((declaredFor (initial.accepted pageCalls) (initial.callEach pageCalls) ⟨2⟩).map
      Prod.fst).Nodup := by
    decide +kernel
  obtain ⟨-, h_same⟩ := languageForScopes_callEach pageCalls ⟨2⟩
    [⟨"source.css"⟩, ⟨"source.js.embedded"⟩, ⟨"sourcemap"⟩]
  refine ⟨h_languages, h_perm, h_nodup, ?_⟩
  rw [h_same swappedPageCalls h_languages h_perm h_nodup]
  decide +kernel

end Registration

end ScopeTokens
