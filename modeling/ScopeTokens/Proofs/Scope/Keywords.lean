/-
  ScopeTokens.Proofs.Scope.Keywords

  Keywords in scope names. `firstKeyword` finds the leftmost place at which a
  keyword stands as a whole word (`firstKeyword_eq_some_iff`). A space between two
  texts makes no such place and hides none (`keywordAt_join_iff`), so the search
  of a stack goes through its scopes one by one. The kind of a stack is that of
  its first scope with a keyword (`classify_append_and_outermost`).
-/

import Mathlib.Data.List.Infix
import Mathlib.Data.Nat.Find
import ScopeTokens.Scope.Classify

namespace ScopeTokens

/-! ## Words and spaces -/

theorem isWordSide_head?_append_space (rest ds : List Char) :
    isWordSide (rest ++ ' ' :: ds).head? = isWordSide rest.head? := by
  cases rest with
  | nil => exact isWordChar_space
  | cons c rest => rfl

theorem isWordSide_getLast?_append_space (cs front : List Char) :
    isWordSide (cs ++ ' ' :: front).getLast? = isWordSide front.getLast? := by
  rcases front.eq_nil_or_concat with rfl | ⟨front, c, rfl⟩
  · rw [List.getLast?_concat]
    exact isWordChar_space
  · rw [List.concat_eq_append, ← List.cons_append, ← List.append_assoc, List.getLast?_concat,
      List.getLast?_concat]

/-- A keyword starts and ends with a word character, and has no space. -/
theorem keyword_sides : ∀ k ∈ typeKeywords,
    isWordSide k.1.head? = true ∧ isWordSide k.1.getLast? = true ∧ ' ' ∉ k.1 := by
  decide

/-- If `k` is a proper prefix of `k'`, a word character comes next in `k'`. -/
theorem keywords_apart : ∀ k ∈ typeKeywords, ∀ k' ∈ typeKeywords, k.1 <+: k'.1 →
    k = k' ∨ isWordSide (k'.1.drop k.1.length).head? = true := by
  decide

theorem keyword_ne_nil {k : List Char × TokenType} (h : k ∈ typeKeywords) : k.1 ≠ [] := by
  intro h_nil
  obtain ⟨h_side, -⟩ := keyword_sides k h
  rw [h_nil] at h_side
  exact absurd h_side nofun

/-! ## Places of keywords -/

/-- `k` stands in `cs` between `front` and `rest`, with a word boundary on either side. -/
structure KeywordAt (k : List Char × TokenType) (front rest cs : List Char) : Prop where
  mem : k ∈ typeKeywords
  split : cs = front ++ (k.1 ++ rest)
  opens : isBoundary front.getLast? k.1.head? = true
  closes : isBoundary k.1.getLast? rest.head? = true

/-- Some keyword stands in `cs`. -/
def HasKeyword (cs : List Char) : Prop :=
  ∃ k front rest, KeywordAt k front rest cs

namespace KeywordAt

variable {k k' : List Char × TokenType} {front front' rest rest' cs : List Char}

theorem not_side_rest (h : KeywordAt k front rest cs) : isWordSide rest.head? = false := by
  obtain ⟨-, h_last, -⟩ := keyword_sides k h.mem
  have h_closes := h.closes
  rw [isBoundary, h_last] at h_closes
  simpa using h_closes

theorem length_lt (h : KeywordAt k front rest cs) : front.length < cs.length := by
  have h_pos := List.length_pos_of_ne_nil (keyword_ne_nil h.mem)
  rw [h.split, List.length_append, List.length_append]
  omega

/-- Two places with the same offset have the same text in front. -/
theorem front_eq (h : KeywordAt k front rest cs) (h' : KeywordAt k' front' rest' cs)
    (h_length : front.length = front'.length) : front = front' :=
  (List.append_inj (h.split.symm.trans h'.split) h_length).1

theorem eq_of_prefix (h : KeywordAt k front rest cs) (h' : KeywordAt k' front rest' cs)
    (h_shorter : k.1 <+: k'.1) : k = k' := by
  rcases keywords_apart k h.mem k' h'.mem h_shorter with h_eq | h_side
  · exact h_eq
  -- behind the shorter one the word would go on
  · exfalso
    obtain ⟨tail, h_tail⟩ := h_shorter
    rw [← h_tail, List.drop_left] at h_side
    have h_rest : rest = tail ++ rest' := by
      have h_same := List.append_cancel_left (h.split.symm.trans h'.split)
      rw [← h_tail, List.append_assoc] at h_same
      exact List.append_cancel_left h_same
    have h_not := h.not_side_rest
    cases tail with
    | nil => exact absurd h_side nofun
    | cons c tail =>
      rw [h_rest] at h_not
      exact absurd (h_side.symm.trans h_not) nofun

/-- At one place there is at most one keyword. -/
theorem unique (h : KeywordAt k front rest cs) (h' : KeywordAt k' front rest' cs) : k = k' := by
  have h_same := List.append_cancel_left (h.split.symm.trans h'.split)
  have h_front : k.1 <+: k'.1 ++ rest' := ⟨rest, h_same⟩
  rcases List.prefix_or_prefix_of_prefix h_front (List.prefix_append k'.1 rest') with h_le | h_le
  · exact h.eq_of_prefix h' h_le
  · exact (h'.eq_of_prefix h h_le).symm

end KeywordAt

/-! ## The search -/

theorem startsWithKeyword_iff {keyword cs : List Char} :
    startsWithKeyword keyword cs = true ↔
      ∃ rest, cs = keyword ++ rest ∧ isBoundary keyword.getLast? rest.head? = true := by
  rw [startsWithKeyword]
  constructor
  · intro h
    split at h
    · rename_i rest h_rest
      exact ⟨rest, (List.isPrefixOf?_eq_some_iff_append_eq.1 h_rest).symm, h⟩
    · exact absurd h nofun
  · rintro ⟨rest, rfl, h_boundary⟩
    rw [List.isPrefixOf?_eq_some_iff_append_eq.2 rfl]
    exact h_boundary

/-- `keywordHere` sees a keyword at the front of `cs` exactly if one stands there in the whole
    text. -/
theorem keywordHere_eq_some_iff {front cs : List Char} {t : TokenType} :
    keywordHere front.getLast? cs = some t ↔
      ∃ k rest, KeywordAt k front rest (front ++ cs) ∧ k.2 = t := by
  have h_head {k : List Char × TokenType} (h : k ∈ typeKeywords) (rest : List Char) :
      (k.1 ++ rest).head? = k.1.head? := by
    obtain ⟨c, tail, h_cons⟩ := List.exists_cons_of_ne_nil (keyword_ne_nil h)
    rw [h_cons]
    rfl
  rw [keywordHere]
  constructor
  · intro h
    split at h
    · rename_i h_opens
      obtain ⟨k, h_find, h_kind⟩ := Option.map_eq_some_iff.1 h
      have h_mem := List.mem_of_find?_eq_some h_find
      have h_starts := List.find?_some h_find
      obtain ⟨rest, rfl, h_closes⟩ := startsWithKeyword_iff.1 h_starts
      rw [h_head h_mem] at h_opens
      exact ⟨k, rest, ⟨h_mem, rfl, h_opens, h_closes⟩, h_kind⟩
    · exact absurd h nofun
  · rintro ⟨k, rest, h_at, rfl⟩
    obtain rfl : cs = k.1 ++ rest := List.append_cancel_left h_at.split
    rw [h_head h_at.mem, if_pos h_at.opens]
    cases h_find : typeKeywords.find? fun k' => startsWithKeyword k'.1 (k.1 ++ rest) with
    | none =>
      have h_not := List.find?_eq_none.1 h_find k h_at.mem
      exact absurd (startsWithKeyword_iff.2 ⟨rest, rfl, h_at.closes⟩) h_not
    | some k' =>
      -- what is tried first is no other keyword
      have h_mem := List.mem_of_find?_eq_some h_find
      have h_starts := List.find?_some h_find
      obtain ⟨rest', h_split, h_closes⟩ := startsWithKeyword_iff.1 h_starts
      have h_opens := h_at.opens
      rw [← h_head h_at.mem rest, h_split, h_head h_mem] at h_opens
      have h_at' : KeywordAt k' front rest' (front ++ (k.1 ++ rest)) :=
        ⟨h_mem, by rw [h_split], h_opens, h_closes⟩
      rw [h_at.unique h_at']
      rfl

/-- The leftmost place of a keyword in `cs` from offset `n` on. -/
structure LeftmostFrom (n : Nat) (k : List Char × TokenType) (front rest cs : List Char) : Prop
    extends KeywordAt k front rest cs where
  le : n ≤ front.length
  least : ∀ {k' front' rest'}, KeywordAt k' front' rest' cs → n ≤ front'.length →
    front.length ≤ front'.length

/-- If `keywordHere` sees nothing at the front, every place is further on. -/
theorem KeywordAt.length_lt_of_keywordHere_none {k : List Char × TokenType}
    {front lead rest cs : List Char} (h : KeywordAt k lead rest (front ++ cs))
    (h_here : keywordHere front.getLast? cs = none) (h_le : front.length ≤ lead.length) :
    front.length < lead.length := by
  apply Nat.lt_of_le_of_ne h_le
  intro h_length
  have h_front : front <+: lead := by
    apply List.prefix_of_prefix_length_le _ ⟨_, h.split.symm⟩ h_le
    exact List.prefix_append front cs
  obtain rfl := h_front.eq_of_length h_length
  have h_some := keywordHere_eq_some_iff.2 ⟨k, rest, h, rfl⟩
  exact absurd (h_here.symm.trans h_some) nofun

/-- If `keywordHere` sees nothing at the front, the leftmost place is the same from one offset
    further on. -/
theorem leftmostFrom_succ_iff {k : List Char × TokenType} {front lead rest cs : List Char}
    (h_here : keywordHere front.getLast? cs = none) :
    LeftmostFrom (front.length + 1) k lead rest (front ++ cs) ↔
      LeftmostFrom front.length k lead rest (front ++ cs) := by
  constructor
  · intro h
    refine ⟨h.toKeywordAt, Nat.le_of_succ_le h.le, ?_⟩
    intro k' lead' rest' h' h_le
    exact h.least h' (h'.length_lt_of_keywordHere_none h_here h_le)
  · intro h
    refine ⟨h.toKeywordAt, h.toKeywordAt.length_lt_of_keywordHere_none h_here h.le, ?_⟩
    intro k' lead' rest' h' h_le
    exact h.least h' (Nat.le_of_succ_le h_le)

/-- A keyword at the front is the leftmost from there on. -/
theorem leftmostFrom_iff_of_keywordAt {k k' : List Char × TokenType}
    {front lead rest rest' cs : List Char} (h : KeywordAt k front rest (front ++ cs)) :
    LeftmostFrom front.length k' lead rest' (front ++ cs) ↔
      lead = front ∧ KeywordAt k' front rest' (front ++ cs) := by
  constructor
  · intro h'
    obtain rfl : lead = front := by
      apply h'.front_eq h
      have h_least := h'.least h (Nat.le_refl _)
      have h_le := h'.le
      omega
    exact ⟨rfl, h'.toKeywordAt⟩
  · rintro ⟨rfl, h'⟩
    exact ⟨h', Nat.le_refl _, fun _ h_le => h_le⟩

theorem firstKeyword_from_iff (front cs : List Char) {t : TokenType} :
    firstKeyword front.getLast? cs = some t ↔
      ∃ k lead rest, LeftmostFrom front.length k lead rest (front ++ cs) ∧ k.2 = t := by
  induction cs generalizing front with
  | nil =>
    refine iff_of_false nofun ?_
    rintro ⟨k, lead, rest, h, -⟩
    have h_lt := h.length_lt
    have h_le := h.le
    rw [List.append_nil] at h_lt
    omega
  | cons c cs ih =>
    rw [firstKeyword]
    cases h_here : keywordHere front.getLast? (c :: cs) with
    | some t' =>
      obtain ⟨k, rest, h_at, rfl⟩ := keywordHere_eq_some_iff.1 h_here
      constructor
      · intro h
        have h_leftmost := (leftmostFrom_iff_of_keywordAt h_at).2 ⟨rfl, h_at⟩
        exact ⟨k, front, rest, h_leftmost, Option.some.inj h⟩
      · rintro ⟨k', lead, rest', h, rfl⟩
        obtain ⟨-, h_at'⟩ := (leftmostFrom_iff_of_keywordAt h_at).1 h
        rw [h_at.unique h_at']
    | none =>
      -- nothing stands here, so the search goes on behind the character
      have h_ih := ih (front ++ [c])
      rw [List.getLast?_concat, List.append_assoc, List.singleton_append, List.length_append,
        List.length_singleton] at h_ih
      simp only [leftmostFrom_succ_iff h_here] at h_ih
      exact h_ih

/-- `firstKeyword` finds the keyword of the leftmost place. -/
theorem firstKeyword_eq_some_iff {cs : List Char} {t : TokenType} :
    firstKeyword none cs = some t ↔
      ∃ k front rest, LeftmostFrom 0 k front rest cs ∧ k.2 = t :=
  firstKeyword_from_iff [] cs

theorem HasKeyword.exists_leftmost {cs : List Char} (h : HasKeyword cs) :
    ∃ k front rest, LeftmostFrom 0 k front rest cs := by
  classical
  have h_length : ∃ n k front rest, KeywordAt k front rest cs ∧ front.length = n := by
    obtain ⟨k, front, rest, h_at⟩ := h
    exact ⟨front.length, k, front, rest, h_at, rfl⟩
  obtain ⟨k, front, rest, h_at, h_eq⟩ := Nat.find_spec h_length
  refine ⟨k, front, rest, h_at, Nat.zero_le _, ?_⟩
  intro k' front' rest' h' _
  rw [h_eq]
  exact Nat.find_min' h_length ⟨k', front', rest', h', rfl⟩

theorem isSome_firstKeyword_iff {cs : List Char} :
    (firstKeyword none cs).isSome = true ↔ HasKeyword cs := by
  rw [Option.isSome_iff_exists]
  constructor
  · rintro ⟨t, h_some⟩
    obtain ⟨k, front, rest, h, -⟩ := firstKeyword_eq_some_iff.1 h_some
    exact ⟨k, front, rest, h.toKeywordAt⟩
  · intro h
    obtain ⟨k, front, rest, h_leftmost⟩ := h.exists_leftmost
    exact ⟨k.2, firstKeyword_eq_some_iff.2 ⟨k, front, rest, h_leftmost, rfl⟩⟩

theorem firstKeyword_eq_none_iff {cs : List Char} :
    firstKeyword none cs = none ↔ ¬ HasKeyword cs := by
  rw [← isSome_firstKeyword_iff, Option.not_isSome_iff_eq_none]

instance (cs : List Char) : Decidable (HasKeyword cs) :=
  decidable_of_iff _ isSome_firstKeyword_iff

/-! ## Texts joined by a space -/

/-- A word without a space is on one side of any space. -/
theorem split_at_space {word front rest cs ds : List Char} (h_ne : word ≠ []) (h_space : ' ' ∉ word)
    (h : cs ++ ' ' :: ds = front ++ (word ++ rest)) :
    (∃ rest', rest = rest' ++ ' ' :: ds ∧ cs = front ++ (word ++ rest')) ∨
      ∃ front', front = cs ++ ' ' :: front' ∧ ds = front' ++ (word ++ rest) := by
  rcases List.append_eq_append_iff.1 h with ⟨gap, rfl, h_gap⟩ | ⟨gap, rfl, h_word⟩
  · -- `cs` ends before the word begins, so the gap between them starts with the space
    cases gap with
    | nil =>
      obtain ⟨c, tail, rfl⟩ := List.exists_cons_of_ne_nil h_ne
      obtain ⟨rfl, -⟩ := List.cons.inj h_gap
      exact absurd List.mem_cons_self h_space
    | cons c gap =>
      obtain ⟨rfl, h_ds⟩ := List.cons.inj h_gap
      exact .inr ⟨gap, rfl, h_ds⟩
  · -- `cs` ends behind the front: not inside the word, where no space stands
    rcases List.append_eq_append_iff.1 h_word with ⟨rest', rfl, h_rest⟩ | ⟨tail, rfl, h_tail⟩
    · exact .inl ⟨rest', h_rest, rfl⟩
    · cases tail with
      | nil =>
        refine .inl ⟨[], h_tail.symm, ?_⟩
        rw [List.append_nil, List.append_nil]
      | cons c tail =>
        obtain ⟨rfl, -⟩ := List.cons.inj h_tail
        exact absurd (List.mem_append_right gap List.mem_cons_self) h_space

section Join

variable {k : List Char × TokenType} {front rest cs ds : List Char}

theorem KeywordAt.join_left (h : KeywordAt k front rest cs) (ds : List Char) :
    KeywordAt k front (rest ++ ' ' :: ds) (cs ++ ' ' :: ds) where
  mem := h.mem
  split := by simp only [h.split, List.append_assoc]
  opens := h.opens
  closes := by
    rw [isBoundary, isWordSide_head?_append_space]
    exact h.closes

theorem KeywordAt.join_right (h : KeywordAt k front rest ds) (cs : List Char) :
    KeywordAt k (cs ++ ' ' :: front) rest (cs ++ ' ' :: ds) where
  mem := h.mem
  split := by simp only [h.split, List.append_assoc, List.cons_append]
  opens := by
    rw [isBoundary, isWordSide_getLast?_append_space]
    exact h.opens
  closes := h.closes

/-- A keyword stands in `cs ++ ' ' :: ds` exactly where one stands in `cs` or in `ds`. -/
theorem keywordAt_join_iff :
    KeywordAt k front rest (cs ++ ' ' :: ds) ↔
      (∃ rest', rest = rest' ++ ' ' :: ds ∧ KeywordAt k front rest' cs) ∨
        ∃ front', front = cs ++ ' ' :: front' ∧ KeywordAt k front' rest ds := by
  constructor
  · intro h
    obtain ⟨-, -, h_space⟩ := keyword_sides k h.mem
    have h_opens := h.opens
    have h_closes := h.closes
    rcases split_at_space (keyword_ne_nil h.mem) h_space h.split with
      ⟨rest', rfl, h_split⟩ | ⟨front', rfl, h_split⟩
    · rw [isBoundary, isWordSide_head?_append_space] at h_closes
      exact .inl ⟨rest', rfl, h.mem, h_split, h_opens, h_closes⟩
    · rw [isBoundary, isWordSide_getLast?_append_space] at h_opens
      exact .inr ⟨front', rfl, h.mem, h_split, h_opens, h_closes⟩
  · rintro (⟨rest', rfl, h⟩ | ⟨front', rfl, h⟩)
    · exact h.join_left ds
    · exact h.join_right cs

theorem LeftmostFrom.join_left (h : LeftmostFrom 0 k front rest cs) (ds : List Char) :
    LeftmostFrom 0 k front (rest ++ ' ' :: ds) (cs ++ ' ' :: ds) := by
  refine ⟨h.toKeywordAt.join_left ds, Nat.zero_le _, ?_⟩
  intro k' front' rest' h' _
  rcases keywordAt_join_iff.1 h' with ⟨rest'', rfl, h_left⟩ | ⟨front'', rfl, -⟩
  · exact h.least h_left (Nat.zero_le _)
  · have := h.length_lt
    rw [List.length_append]
    omega

theorem LeftmostFrom.join_right (h : LeftmostFrom 0 k front rest ds) (h_none : ¬ HasKeyword cs) :
    LeftmostFrom 0 k (cs ++ ' ' :: front) rest (cs ++ ' ' :: ds) := by
  refine ⟨h.toKeywordAt.join_right cs, Nat.zero_le _, ?_⟩
  intro k' front' rest' h' _
  rcases keywordAt_join_iff.1 h' with ⟨rest'', -, h_left⟩ | ⟨front'', rfl, h_right⟩
  · exact absurd ⟨k', front', rest'', h_left⟩ h_none
  · have := h.least h_right (Nat.zero_le _)
    rw [List.length_append, List.length_append, List.length_cons, List.length_cons]
    omega

/-- `ds` is searched only if `cs` has no keyword. -/
theorem firstKeyword_join (cs ds : List Char) :
    firstKeyword none (cs ++ ' ' :: ds) = (firstKeyword none cs).or (firstKeyword none ds) := by
  cases h_cs : firstKeyword none cs with
  | some t =>
    obtain ⟨k, front, rest, h, h_kind⟩ := firstKeyword_eq_some_iff.1 h_cs
    exact firstKeyword_eq_some_iff.2 ⟨k, front, _, h.join_left ds, h_kind⟩
  | none =>
    have h_not := firstKeyword_eq_none_iff.1 h_cs
    rw [Option.none_or]
    cases h_ds : firstKeyword none ds with
    | some t =>
      obtain ⟨k, front, rest, h, h_kind⟩ := firstKeyword_eq_some_iff.1 h_ds
      exact firstKeyword_eq_some_iff.2 ⟨k, _, rest, h.join_right h_not, h_kind⟩
    | none =>
      rw [firstKeyword_eq_none_iff] at h_ds ⊢
      rintro ⟨k, front, rest, h⟩
      -- no keyword lies across the space
      rcases keywordAt_join_iff.1 h with ⟨rest', -, h_left⟩ | ⟨front', -, h_right⟩
      · exact h_not ⟨k, front, rest', h_left⟩
      · exact h_ds ⟨k, front', rest, h_right⟩

end Join

/-! ## Stacks -/

namespace ScopeStack

/-- The text in front of a scope in `display`, for the scopes `outer` around it. -/
def leadChars (outer : ScopeStack) : List Char :=
  outer.flatMap fun s => s.chars ++ [' ']

/-- The text behind a scope in `display`, for the scopes `inner` in it. -/
def trailChars (inner : ScopeStack) : List Char :=
  inner.flatMap fun s => ' ' :: s.chars

theorem displayChars_singleton (s : ScopeName) : displayChars [s] = s.chars := by
  simp [displayChars]

theorem displayChars_cons_cons (s r : ScopeName) (stack : ScopeStack) :
    displayChars (s :: r :: stack) = s.chars ++ ' ' :: displayChars (r :: stack) := by
  simp [displayChars, List.intercalate]

theorem leadChars_cons (s : ScopeName) (outer : ScopeStack) :
    leadChars (s :: outer) = s.chars ++ ' ' :: leadChars outer := by
  simp [leadChars]

theorem trailChars_cons (s : ScopeName) (inner : ScopeStack) :
    trailChars (s :: inner) = ' ' :: displayChars (s :: inner) := by
  induction inner generalizing s with
  | nil => simp [trailChars, displayChars_singleton]
  | cons r inner ih =>
    rw [displayChars_cons_cons, ← ih r]
    simp [trailChars]

/-- A keyword stands in `stack.displayChars` exactly where one stands in a scope of `stack`. -/
theorem keywordAt_displayChars_iff {k : List Char × TokenType} {front rest : List Char}
    {stack : ScopeStack} :
    KeywordAt k front rest stack.displayChars ↔
      ∃ outer s inner front' rest', stack = outer ++ s :: inner ∧
        front = leadChars outer ++ front' ∧ rest = rest' ++ trailChars inner ∧
        KeywordAt k front' rest' s.chars := by
  induction stack generalizing front with
  | nil =>
    constructor
    · intro h
      exact absurd h.length_lt (Nat.not_lt_zero _)
    · rintro ⟨outer, s, inner, front', rest', h_stack, -⟩
      exact absurd h_stack.symm (by simp)
  | cons s stack ih =>
    cases stack with
    | nil =>
      rw [displayChars_singleton]
      constructor
      · intro h
        exact ⟨[], s, [], front, rest, rfl, rfl, (List.append_nil rest).symm, h⟩
      · rintro ⟨outer, s', inner, front', rest', h_stack, rfl, rfl, h⟩
        cases outer with
        | nil =>
          obtain ⟨rfl, rfl⟩ := List.cons.inj h_stack
          rw [trailChars, List.flatMap_nil, List.append_nil]
          exact h
        | cons r outer => simp at h_stack
    | cons r stack =>
      -- the keyword stands on one side of the space behind `s`: in `s`, or by `ih` further in
      rw [displayChars_cons_cons, keywordAt_join_iff]
      constructor
      · rintro (⟨rest', rfl, h⟩ | ⟨front', rfl, h⟩)
        · refine ⟨[], s, r :: stack, front, rest', rfl, rfl, ?_, h⟩
          rw [trailChars_cons]
        · obtain ⟨outer, s', inner, front'', rest', h_stack, rfl, rfl, h'⟩ := ih.1 h
          refine ⟨s :: outer, s', inner, front'', rest', ?_, ?_, rfl, h'⟩
          · rw [h_stack, List.cons_append]
          · rw [leadChars_cons, List.append_assoc, List.cons_append]
      · rintro ⟨outer, s', inner, front', rest', h_stack, rfl, rfl, h⟩
        cases outer with
        | nil =>
          obtain ⟨rfl, rfl⟩ := List.cons.inj h_stack
          exact .inl ⟨rest', by rw [trailChars_cons], h⟩
        | cons r' outer =>
          obtain ⟨rfl, h_inner⟩ := List.cons.inj h_stack
          refine .inr ⟨leadChars outer ++ front', ?_, ?_⟩
          · rw [leadChars_cons, List.append_assoc, List.cons_append]
          · exact ih.2 ⟨outer, s', inner, front', rest', h_inner, rfl, rfl, h⟩

end ScopeStack

open ScopeStack

/-- The search of `stack.displayChars` goes scope by scope, from the outermost in. -/
theorem firstKeyword_displayChars (stack : ScopeStack) :
    firstKeyword none stack.displayChars = stack.findSome? fun s => firstKeyword none s.chars := by
  induction stack with
  | nil => rfl
  | cons s stack ih =>
    cases stack with
    | nil =>
      rw [displayChars_singleton]
      cases h : firstKeyword none s.chars <;> simp [h]
    | cons r stack =>
      rw [displayChars_cons_cons, firstKeyword_join, ih]
      cases h : firstKeyword none s.chars <;> simp [h]

theorem findSome?_firstKeyword (stack : ScopeStack) :
    (stack.findSome? fun s => firstKeyword none s.chars) =
      (stack.find? fun s => HasKeyword s.chars).bind fun s => firstKeyword none s.chars := by
  induction stack with
  | nil => rfl
  | cons s stack ih =>
    cases h : firstKeyword none s.chars with
    | some t =>
      have h_has : HasKeyword s.chars := isSome_firstKeyword_iff.1 (by rw [h]; rfl)
      simp [h, h_has]
    | none =>
      have h_not := firstKeyword_eq_none_iff.1 h
      simp [h, h_not, ih]

/-- Joined or not, the names of a stack are searched as the text that `display` writes. -/
theorem classify_eq_classifyText (stack : ScopeStack) :
    classify stack = classifyText stack.display := by
  match stack with
  | [] =>
    rw [classify_nil]
    decide
  | [s] =>
    rw [display, displayChars_singleton, ScopeName.chars, String.ofList_toList]
    rfl
  | s :: r :: stack =>
    show classifyText (" ".intercalate ((s :: r :: stack).map ScopeName.name)) = _
    apply congrArg
    rw [← String.toList_inj, String.toList_intercalate, List.map_map]
    exact String.toList_ofList.symm

theorem classify_eq_find? (stack : ScopeStack) :
    classify stack =
      ((stack.find? fun s => HasKeyword s.chars).map fun s => classifyText s.name).getD .other := by
  rw [classify_eq_classifyText, classifyText, display, String.toList_ofList,
    firstKeyword_displayChars, findSome?_firstKeyword]
  cases stack.find? fun s => HasKeyword s.chars <;> rfl

/-! ## The kind of a text -/

theorem LeftmostFrom.classifyText_eq {k : List Char × TokenType} {front rest : List Char}
    {s : String} (h : LeftmostFrom 0 k front rest s.toList) : classifyText s = k.2 := by
  have h_first := firstKeyword_eq_some_iff.2 ⟨k, front, rest, h, rfl⟩
  rw [classifyText, h_first, Option.getD_some]

theorem classifyText_of_not_hasKeyword {s : String} (h : ¬ HasKeyword s.toList) :
    classifyText s = .other := by
  rw [classifyText, firstKeyword_eq_none_iff.2 h, Option.getD_none]

/-- `classifyText s` is the kind `k.2` of the leftmost keyword `k` that stands in `s` as a whole
    word (`LeftmostFrom 0`), of which there is one if there is a keyword at all, and `other` without
    one. Of `xs ++ ys`, `xs` decides if one of its scopes has a keyword, and else `ys`; so
    `classify` answers for a stack what `classifyText` answers for the first of its scopes that has
    a keyword. The keywords of `xs.displayChars` are those of its scopes, each where it stands in
    its scope, and `classify xs` is `classifyText xs.display`, however many scopes there are. -/
theorem classify_append_and_outermost (xs ys : ScopeStack) :
    classify (xs ++ ys) = (if ∃ s ∈ xs, HasKeyword s.chars then classify xs else classify ys) ∧
    classify xs =
      ((xs.find? fun s => HasKeyword s.chars).map fun s => classifyText s.name).getD .other ∧
    (∀ s : String,
      (∀ k front rest, LeftmostFrom 0 k front rest s.toList → classifyText s = k.2) ∧
      (HasKeyword s.toList → ∃ k front rest, LeftmostFrom 0 k front rest s.toList) ∧
      (¬ HasKeyword s.toList → classifyText s = .other)) ∧
    (∀ k front rest, KeywordAt k front rest xs.displayChars ↔
      ∃ outer s inner front' rest', xs = outer ++ s :: inner ∧
        front = leadChars outer ++ front' ∧ rest = rest' ++ trailChars inner ∧
        KeywordAt k front' rest' s.chars) ∧
    classify xs = classifyText xs.display := by
  refine ⟨?_, classify_eq_find? xs, fun s => ⟨fun _ _ _ h => h.classifyText_eq,
    HasKeyword.exists_leftmost, classifyText_of_not_hasKeyword⟩,
    fun _ _ _ => keywordAt_displayChars_iff, classify_eq_classifyText xs⟩
  -- the outermost scope with a keyword is one of `xs` if there is one
  rw [classify_eq_find? (xs ++ ys), List.find?_append]
  split
  · rename_i h_some
    obtain ⟨s, h_s, h_has⟩ := h_some
    have h_find : (xs.find? fun s => HasKeyword s.chars).isSome = true :=
      List.find?_isSome.2 ⟨s, h_s, decide_eq_true h_has⟩
    rw [Option.or_of_isSome h_find, ← classify_eq_find?]
  · rename_i h_none
    have h_find : (xs.find? fun s => HasKeyword s.chars) = none := by
      apply List.find?_eq_none.2
      intro s h_s h_has
      exact h_none ⟨s, h_s, of_decide_eq_true h_has⟩
    rw [h_find, Option.none_or, ← classify_eq_find?]

/-- `meta.embedded` ends the search: neither it nor the string within it is taken for a string. -/
example : classify (.ofStrings ["text.html", "meta.embedded.js", "string.quoted.js"]) = .other := by
  decide

end ScopeTokens
