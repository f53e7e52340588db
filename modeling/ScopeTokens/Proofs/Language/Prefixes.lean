/-
  ScopeTokens.Proofs.Language.Prefixes

  Scope prefixes that lead to embedded languages. They are kept longest first, and
  in the order of declaration among those of one length: `insertPrefix` is a
  stable sort with the prefix at the end (`insertPrefix_eq_longestFirst`). So the
  first one that covers a scope is the longest that does, and of several
  declarations of it the earliest (`longestPrefix_of_embeddedFor`).
-/

import Mathlib.Data.List.Infix
import ScopeTokens.Language.Table
import ScopeTokens.Proofs.StableSort
import ScopeTokens.Proofs.Token.Partition

namespace ScopeTokens

namespace ScopeName

/-! ## Prefixes of a scope -/

/-- `scope` is `p`, or continues it behind a dot. -/
def Covers (p scope : ScopeName) : Prop :=
  scope = p ∨ ∃ rest, scope.chars = p.chars ++ '.' :: rest

variable {p q scope : ScopeName}

theorem chars_inj : p.chars = q.chars ↔ p = q := by
  cases p
  cases q
  rw [chars, chars, String.toList_inj, ScopeName.mk.injEq]

theorem hasSegmentPrefix_iff : scope.hasSegmentPrefix p.name = true ↔ p.Covers scope := by
  rw [hasSegmentPrefix, Covers]
  cases h : p.name.toList.isPrefixOf? scope.chars with
  | none =>
    have h_not (rest : List Char) : scope.chars ≠ p.chars ++ rest := by
      intro h_eq
      have h_some := List.isPrefixOf?_eq_some_iff_append_eq.2 h_eq.symm
      exact absurd (h.symm.trans h_some) nofun
    refine iff_of_false Bool.false_ne_true ?_
    rintro (rfl | ⟨rest, h_rest⟩)
    · exact h_not [] (List.append_nil _).symm
    · exact h_not _ h_rest
  | some rest =>
    have h_rest : scope.chars = p.chars ++ rest :=
      (List.isPrefixOf?_eq_some_iff_append_eq.1 h).symm
    -- what is left decides: nothing for the scope itself, a dot in front for one below it
    have h_same : scope = p ↔ rest = [] := by
      rw [← chars_inj, h_rest, List.append_right_eq_self]
    rw [h_same, h_rest]
    cases rest with
    | nil => simp
    | cons c rest => simp

theorem Covers.isPrefix (h : p.Covers scope) : p.chars <+: scope.chars := by
  rcases h with rfl | ⟨rest, h_rest⟩
  · exact List.prefix_rfl
  · exact ⟨'.' :: rest, h_rest.symm⟩

/-- Of two prefixes of one scope, the one with no more bytes has no more characters. -/
theorem Covers.length_le (h_p : p.Covers scope) (h_q : q.Covers scope)
    (h : q.name.utf8ByteSize ≤ p.name.utf8ByteSize) : q.chars.length ≤ p.chars.length := by
  rcases List.prefix_or_prefix_of_prefix h_q.isPrefix h_p.isPrefix with h_front | ⟨rest, h_rest⟩
  · exact h_front.length_le
  -- what the longer one has behind the shorter one would take bytes
  · have h_bytes (s : ScopeName) : s.name.utf8ByteSize = TokenLine.byteLength s.chars := by
      rw [TokenLine.byteLength_eq_utf8ByteSize, chars, String.ofList_toList]
    have h_none := TokenLine.length_le_byteLength rest
    rw [h_bytes, h_bytes, ← h_rest, TokenLine.byteLength_append] at h
    rw [← h_rest, List.length_append]
    omega

theorem Covers.eq_of_length_eq (h_p : p.Covers scope) (h_q : q.Covers scope)
    (h : p.chars.length = q.chars.length) : p = q :=
  chars_inj.1 <|
    (List.prefix_of_prefix_length_le h_p.isPrefix h_q.isPrefix (Nat.le_of_eq h)).eq_of_length h

end ScopeName

namespace LanguageTable

/-! ## Longest first -/

/-- The prefix of `a` has at least as many bytes as that of `b`. -/
def NotShorter (a b : ScopeName × LanguageId) : Prop :=
  b.1.name.utf8ByteSize ≤ a.1.name.utf8ByteSize

instance : DecidableRel NotShorter :=
  fun _ _ => inferInstanceAs (Decidable (_ ≤ _))

theorem notShorter_trans (a b c : ScopeName × LanguageId) (h : NotShorter a b)
    (h' : NotShorter b c) : NotShorter a c :=
  Nat.le_trans h' h

theorem notShorter_total (a b : ScopeName × LanguageId) : NotShorter a b ∨ NotShorter b a :=
  Nat.le_total _ _

theorem notShorter_refl (a : ScopeName × LanguageId) : NotShorter a a :=
  Nat.le_refl _

/-- `es` sorted by the length of the prefix, descending and stable. -/
def longestFirst (es : List (ScopeName × LanguageId)) : List (ScopeName × LanguageId) :=
  es.mergeSort fun a b => NotShorter a b

theorem longestFirst_nil : longestFirst [] = [] :=
  List.mergeSort_nil

theorem perm_longestFirst (es : List (ScopeName × LanguageId)) : (longestFirst es).Perm es :=
  List.mergeSort_perm es _

theorem pairwise_longestFirst (es : List (ScopeName × LanguageId)) :
    (longestFirst es).Pairwise NotShorter :=
  pairwise_mergeSort_decide notShorter_trans notShorter_total es

theorem mem_insertPrefix {entry e : ScopeName × LanguageId} {es : List (ScopeName × LanguageId)} :
    e ∈ insertPrefix entry es ↔ e = entry ∨ e ∈ es := by
  induction es with
  | nil => simp [insertPrefix]
  | cons e' es ih =>
    rw [insertPrefix]
    split
    · rw [List.mem_cons]
    · rw [List.mem_cons, ih, List.mem_cons]
      exact or_left_comm

theorem pairwise_insertPrefix (entry : ScopeName × LanguageId)
    {es : List (ScopeName × LanguageId)} (h : es.Pairwise NotShorter) :
    (insertPrefix entry es).Pairwise NotShorter := by
  induction es with
  | nil => exact List.pairwise_singleton _ _
  | cons e es ih =>
    obtain ⟨h_e, h_es⟩ := List.pairwise_cons.1 h
    rw [insertPrefix]
    split
    · rename_i h_shorter
      refine List.pairwise_cons.2 ⟨fun e' h_e' => ?_, h⟩
      rcases List.mem_cons.1 h_e' with rfl | h_mem
      · exact Nat.le_of_lt h_shorter
      · exact notShorter_trans entry e e' (Nat.le_of_lt h_shorter) (h_e e' h_mem)
    · rename_i h_not
      refine List.pairwise_cons.2 ⟨fun e' h_e' => ?_, ih h_es⟩
      rcases mem_insertPrefix.1 h_e' with rfl | h_mem
      · exact Nat.not_lt.1 h_not
      · exact h_e e' h_mem

/-- `insertPrefix` puts its entry behind those of the same length. -/
theorem peers_insertPrefix (entry a : ScopeName × LanguageId) {es : List (ScopeName × LanguageId)}
    (h : es.Pairwise NotShorter) :
    peers NotShorter a (insertPrefix entry es) = peers NotShorter a (es ++ [entry]) := by
  induction es with
  | nil => rfl
  | cons e es ih =>
    obtain ⟨h_e, h_es⟩ := List.pairwise_cons.1 h
    have h_cons (e : ScopeName × LanguageId) (es : List (ScopeName × LanguageId)) :
        peers NotShorter a (e :: es) = peers NotShorter a [e] ++ peers NotShorter a es :=
      peers_append a [e] es
    rw [insertPrefix]
    split
    · rename_i h_shorter
      rw [h_cons entry, peers_append]
      by_cases h_a : NotShorter a entry ∧ NotShorter entry a
      -- what is left in the list is shorter than the new prefix and its peers
      · have h_none : peers NotShorter a (e :: es) = [] := by
          refine peers_eq_nil_iff.2 fun e' h_e' h_peer => ?_
          have h_le : NotShorter e e' := by
            rcases List.mem_cons.1 h_e' with rfl | h_mem
            · exact notShorter_refl e'
            · exact h_e e' h_mem
          have h_long :=
            notShorter_trans e e' entry h_le (notShorter_trans e' a entry h_peer.2 h_a.1)
          exact Nat.not_le.2 h_shorter h_long
        rw [h_none, List.nil_append, List.append_nil]
      · have h_none : peers NotShorter a [entry] = [] := by
          refine peers_eq_nil_iff.2 fun e' h_e' => ?_
          rwa [List.mem_singleton.1 h_e']
        rw [h_none, List.nil_append, List.append_nil]
    · rw [List.cons_append, h_cons e (insertPrefix entry es), h_cons e (es ++ [entry]), ih h_es]

theorem insertPrefix_eq_longestFirst (entry : ScopeName × LanguageId)
    {es : List (ScopeName × LanguageId)} (h : es.Pairwise NotShorter) :
    insertPrefix entry es = longestFirst (es ++ [entry]) := by
  refine eq_of_peers_eq notShorter_refl (pairwise_insertPrefix entry h) (pairwise_longestFirst _)
    fun a => ?_
  rw [peers_insertPrefix entry a h]
  exact (peers_mergeSort notShorter_trans notShorter_total a _).symm

/-- `insertPrefix` into sorted prefixes is sorting with the entry at the end. -/
theorem insertPrefix_longestFirst (entry : ScopeName × LanguageId)
    (es : List (ScopeName × LanguageId)) :
    insertPrefix entry (longestFirst es) = longestFirst (es ++ [entry]) := by
  refine eq_of_peers_eq notShorter_refl (pairwise_insertPrefix entry (pairwise_longestFirst es))
    (pairwise_longestFirst _) fun a => ?_
  rw [peers_insertPrefix entry a (pairwise_longestFirst es), peers_append, longestFirst,
    longestFirst, peers_mergeSort notShorter_trans notShorter_total,
    peers_mergeSort notShorter_trans notShorter_total, peers_append]

/-! ## The prefix that counts -/

/-- `p` is the longest prefix declared that covers `scope`, and `id` the language of its first
    declaration. -/
structure LongestPrefix (declared : List (ScopeName × LanguageId)) (scope p : ScopeName)
    (id : LanguageId) : Prop where
  covers : p.Covers scope
  longest : ∀ e ∈ declared, e.1.Covers scope → e.1.chars.length ≤ p.chars.length
  first : declared.find? (fun e => e.1 == p) = some (p, id)

/-- The longest prefix leads to one language. -/
theorem LongestPrefix.unique {declared : List (ScopeName × LanguageId)} {scope p q : ScopeName}
    {id id' : LanguageId} (h : LongestPrefix declared scope p id)
    (h' : LongestPrefix declared scope q id') : id = id' := by
  have h_le := h'.longest _ (List.mem_of_find?_eq_some h.first) h.covers
  have h_ge := h.longest _ (List.mem_of_find?_eq_some h'.first) h'.covers
  obtain rfl := h.covers.eq_of_length_eq h'.covers (Nat.le_antisymm h_le h_ge)
  have h_same := h.first.symm.trans h'.first
  simpa using h_same

theorem embeddedFor_eq_none_iff {es : List (ScopeName × LanguageId)} {scope : ScopeName} :
    embeddedFor (longestFirst es) scope = none ↔ ∀ e ∈ es, ¬ e.1.Covers scope := by
  rw [embeddedFor, Option.map_eq_none_iff, List.find?_eq_none]
  simp only [(perm_longestFirst es).mem_iff, ScopeName.hasSegmentPrefix_iff]

theorem longestPrefix_of_embeddedFor {es : List (ScopeName × LanguageId)} {scope : ScopeName}
    {id : LanguageId} (h : embeddedFor (longestFirst es) scope = some id) :
    ∃ p, LongestPrefix es scope p id := by
  rw [embeddedFor, Option.map_eq_some_iff] at h
  obtain ⟨⟨p, id⟩, h_find, rfl⟩ := h
  obtain ⟨h_p, before, after, h_split, h_before⟩ := List.find?_eq_some_iff_append.1 h_find
  have h_covers : p.Covers scope := ScopeName.hasSegmentPrefix_iff.1 h_p
  have h_not : ∀ e ∈ before, ¬ e.1.Covers scope := by
    intro e h_e h_cov
    have h_neg := h_before e h_e
    rw [ScopeName.hasSegmentPrefix_iff.2 h_cov] at h_neg
    exact absurd h_neg nofun
  refine ⟨p, h_covers, fun e h_e h_cov => ?_, ?_⟩
  -- the prefixes above it do not cover the scope, and those below it are not longer
  · have h_mem := (perm_longestFirst es).mem_iff.2 h_e
    have h_sorted := pairwise_longestFirst es
    rw [h_split] at h_mem h_sorted
    rcases List.mem_append.1 h_mem with h_above | h_below
    · exact absurd h_cov (h_not e h_above)
    · rcases List.mem_cons.1 h_below with rfl | h_after
      · exact Nat.le_refl _
      · have h_le := List.rel_of_pairwise_cons (List.pairwise_append.1 h_sorted).2.1 h_after
        exact h_covers.length_le h_cov h_le
  · have h_stable : (longestFirst es).find? (fun e => e.1 == p) = es.find? fun e => e.1 == p := by
      refine find?_mergeSort notShorter_trans notShorter_total (fun a b h_a h_b => ?_) es
      rw [beq_iff_eq] at h_a h_b
      rw [NotShorter, h_a, h_b]
    rw [← h_stable, h_split, List.find?_append, List.find?_eq_none.2 fun e h_e => ?_]
    · simp
    · rintro h_eq
      rw [beq_iff_eq] at h_eq
      exact h_not e h_e (h_eq ▸ h_covers)

end LanguageTable

end ScopeTokens
