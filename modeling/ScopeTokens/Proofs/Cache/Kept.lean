/-
  ScopeTokens.Proofs.Cache.Kept

  What is kept of a grammar's answer. For any `raw` tokens, in any order and with
  any ends, `kept` starts with offset zero, and its starts ascend strictly below
  the length of the line (`exists_kept`). As marks turned into ends, they have no
  `fault` (`fault_keptMarks`). So on a line within the offset range `build` never
  fails, and its answer is `keptTokens` (`build_eq`).
-/

import ScopeTokens.Cache.Entry
import ScopeTokens.Proofs.Token.Partition
import ScopeTokens.Proofs.Token.Words

namespace ScopeTokens

namespace LineLexer

variable {σ : Type}

/-! ## Starts -/

/-- The starts ascend strictly from above `above`, and are less than `length`. -/
def Climbs (length : Nat) : Nat → List (Nat × ScopeStack) → Prop
  | _, [] => True
  | above, k :: ks => above < k.1 ∧ k.1 < length ∧ Climbs length k.1 ks

/-- Behind a kept start, `starts` keeps only what climbs. -/
theorem climbs_starts (length above : Nat) (raw : List RawToken) :
    Climbs length above (starts length (some above) raw) := by
  induction raw generalizing above with
  | nil => trivial
  | cons t ts ih =>
    rw [starts]
    split
    · exact ih above
    · dsimp only
      split
      · exact ih above
      · exact ⟨by omega, by omega, ih (min t.start length)⟩

theorem starts_none_cases (length : Nat) (raw : List RawToken) :
    starts length none raw = [] ∨
      ∃ scopes ks, starts length none raw = (0, scopes) :: ks ∧ Climbs length 0 ks := by
  induction raw with
  | nil => exact .inl rfl
  | cons t ts ih =>
    rw [starts]
    split
    · exact ih
    · exact .inr ⟨t.scopes, _, rfl, climbs_starts length 0 ts⟩

/-- `kept` is a token at offset `0` and others that climb from there. -/
theorem exists_kept (own : ScopeName) (length : Nat) (raw : List RawToken) :
    ∃ scopes ks, kept own length raw = (0, scopes) :: ks ∧ Climbs length 0 ks := by
  rw [kept]
  rcases starts_none_cases length (sortRaw raw) with h_nil | ⟨scopes, ks, h_cons, h_climbs⟩
  · rw [h_nil]
    exact ⟨[own], [], rfl, trivial⟩
  · rw [h_cons]
    exact ⟨scopes, ks, rfl, h_climbs⟩

theorem Climbs.lt_length {length above : Nat} {ks : List (Nat × ScopeStack)}
    (h : Climbs length above ks) : ∀ k ∈ ks, above < k.1 ∧ k.1 < length := by
  induction ks generalizing above with
  | nil => exact fun k h_k => absurd h_k List.not_mem_nil
  | cons k' ks ih =>
    obtain ⟨h_above, h_length, h_rest⟩ := h
    refine List.forall_mem_cons.2 ⟨⟨h_above, h_length⟩, ?_⟩
    intro k h_k
    have := ih h_rest k h_k
    omega

/-- Of starts that climb, exactly one is the last at or before an `offset` of the line. -/
theorem Climbs.exists_last_le {length offset : Nat} {k : Nat × ScopeStack}
    {ks : List (Nat × ScopeStack)} (h : Climbs length k.1 ks) (h_k : k.1 ≤ offset)
    (h_offset : offset < length) :
    ∃ i k', (k :: ks)[i]? = some k' ∧ k'.1 ≤ offset ∧
      offset < (((k :: ks)[i + 1]?).map Prod.fst).getD length ∧
      ∀ j ∈ k :: ks, j.1 ≤ offset → j.1 ≤ k'.1 := by
  induction ks generalizing k with
  | nil =>
    refine ⟨0, k, rfl, h_k, h_offset, ?_⟩
    intro j h_j _
    rw [List.mem_singleton.1 h_j]
  | cons k' ks ih =>
    obtain ⟨h_above, h_length, h_rest⟩ := h
    by_cases h_next : k'.1 ≤ offset
    · obtain ⟨i, l, h_i, h_l, h_end, h_last⟩ := ih h_rest h_next
      refine ⟨i + 1, l, h_i, h_l, h_end, List.forall_mem_cons.2 ⟨?_, h_last⟩⟩
      intro _
      have := h_last k' List.mem_cons_self h_next
      omega
    -- the next start is behind the offset, and so are all others
    · refine ⟨0, k, rfl, h_k, Nat.not_le.1 h_next, ?_⟩
      intro j h_j h_le
      rcases List.mem_cons.1 h_j with rfl | h_j
      · exact Nat.le_refl _
      · rcases List.mem_cons.1 h_j with rfl | h_j
        · exact absurd h_le h_next
        · have := h_rest.lt_length j h_j
          omega

/-! ## Marks -/

/-- The marks of `ks`, with the start of each token in the place of its end. -/
def startMarks (lx : LineLexer σ) (ks : List (Nat × ScopeStack)) : List Mark :=
  ks.map fun k => ⟨k.1, lx.metadataFor k.2⟩

theorem tiles_startMarks (lx : LineLexer σ) {length : Nat} {k : Nat × ScopeStack}
    {ks : List (Nat × ScopeStack)} (h_k : k.1 < length) (h : Climbs length k.1 ks) :
    TokenLine.Tiles length k.1 (TokenLine.endsOfStarts length (lx.startMarks (k :: ks))) := by
  induction ks generalizing k with
  | nil => exact ⟨h_k, rfl⟩
  | cons k' ks ih =>
    obtain ⟨h_above, h_length, h_rest⟩ := h
    exact ⟨h_above, ih h_length h_rest⟩

/-- `startMarks` of what is kept of `raw`. -/
def keptMarks (lx : LineLexer σ) (own : ScopeName) (length : Nat) (raw : List RawToken) :
    List Mark :=
  lx.startMarks (kept own length raw)

theorem length_keptMarks (lx : LineLexer σ) (own : ScopeName) (length : Nat)
    (raw : List RawToken) : (lx.keptMarks own length raw).length = (kept own length raw).length :=
  List.length_map _

/-- Turned into ends, the kept marks are a partition of the line. -/
theorem fault_keptMarks (lx : LineLexer σ) (own : ScopeName) (length : Nat)
    (raw : List RawToken) :
    TokenLine.fault (TokenLine.endsOfStarts length (lx.keptMarks own length raw)) length =
      none := by
  obtain ⟨scopes, ks, h_kept, h_climbs⟩ := exists_kept own length raw
  rw [keptMarks, h_kept, TokenLine.fault_eq_none_iff]
  rcases Nat.eq_zero_or_pos length with rfl | h_pos
  -- no start lies within an empty line, so the first is the only one
  · cases ks with
    | nil => exact .inr ⟨rfl, lx.metadataFor scopes, rfl⟩
    | cons k ks => exact absurd h_climbs.2.1 (Nat.not_lt_zero k.1)
  · refine .inl ⟨?_, tiles_startMarks lx (k := (0, scopes)) h_pos h_climbs⟩
    rw [← List.length_pos_iff, TokenLine.length_endsOfStarts]
    exact Nat.zero_lt_succ _

/-- The tokens that `build` makes of `raw`: the kept starts turned into ends, and the scopes of
    these. -/
def keptTokens (lx : LineLexer σ) (own : ScopeName) (text : String) (raw : List RawToken) :
    ScopedTokens where
  line := .assemble (TokenLine.endsOfStarts text.length (lx.keptMarks own text.length raw)) text
  scopes := (kept own text.length raw).map Prod.snd

theorem ofMarks_keptMarks (lx : LineLexer σ) (own : ScopeName) (text : String)
    (raw : List RawToken) :
    TokenLine.ofMarks (TokenLine.endsOfStarts text.length (lx.keptMarks own text.length raw)) text =
      .ok (lx.keptTokens own text raw).line := by
  rw [TokenLine.ofMarks, fault_keptMarks]
  rfl

/-! ## Tokens -/

theorem count_keptTokens (lx : LineLexer σ) (own : ScopeName) (text : String)
    (raw : List RawToken) :
    (lx.keptTokens own text raw).line.count = (kept own text.length raw).length := by
  rw [keptTokens, TokenLine.count_assemble, TokenLine.length_endsOfStarts, length_keptMarks]

theorem partitions_keptTokens (lx : LineLexer σ) (own : ScopeName) (text : String)
    (raw : List RawToken) : (lx.keptTokens own text raw).line.Partitions text :=
  TokenLine.partitions_of_ofMarks (ofMarks_keptMarks lx own text raw)

theorem endOffset_keptTokens (lx : LineLexer σ) (own : ScopeName) (text : String)
    (raw : List RawToken) {i : Nat} (h : i < (kept own text.length raw).length) :
    (lx.keptTokens own text raw).line.endOffset i =
      ((kept own text.length raw)[i + 1]?.map Prod.fst).getD text.length := by
  have h_marks : i < (lx.keptMarks own text.length raw).length := by
    rw [length_keptMarks]
    exact h
  rw [keptTokens, TokenLine.endOffset_assemble, TokenLine.stop_endsOfStarts _ h_marks, keptMarks,
    startMarks, List.getElem?_map, Option.map_map]
  rfl

theorem startOffset_keptTokens (lx : LineLexer σ) (own : ScopeName) (text : String)
    (raw : List RawToken) {i : Nat} {k : Nat × ScopeStack}
    (h : (kept own text.length raw)[i]? = some k) :
    (lx.keptTokens own text raw).line.startOffset i = k.1 := by
  cases i with
  | zero =>
    obtain ⟨scopes, ks, h_kept, -⟩ := exists_kept own text.length raw
    rw [h_kept] at h
    obtain rfl := Option.some.inj h
    rfl
  | succ i =>
    obtain ⟨h_lt, -⟩ := List.getElem?_eq_some_iff.1 h
    rw [TokenLine.startOffset, endOffset_keptTokens lx own text raw (Nat.lt_of_succ_lt h_lt), h]
    rfl

/-- The buffer that `build` reads the line from. -/
def keptWords (lx : LineLexer σ) (own : ScopeName) (length : Nat) (raw : List RawToken) :
    List UInt32 :=
  TokenLine.wordsOfMarks (lx.keptMarks own length raw)

/-- On a line within the offset range, the buffer stands for the kept marks. -/
theorem marksOfWords_keptWords (lx : LineLexer σ) (own : ScopeName) {length : Nat}
    (raw : List RawToken) (h : length < UInt32.size) :
    TokenLine.marksOfWords (lx.keptWords own length raw) = lx.keptMarks own length raw := by
  apply TokenLine.marksOfWords_wordsOfMarks
  intro mark h_mark
  obtain ⟨k, h_k, rfl⟩ := List.mem_map.1 h_mark
  obtain ⟨scopes, ks, h_kept, h_climbs⟩ := exists_kept own length raw
  rw [h_kept] at h_k
  show k.1 < UInt32.size
  rcases List.mem_cons.1 h_k with rfl | h_k
  · exact Nat.zero_lt_of_lt h
  · have := h_climbs.lt_length k h_k
    omega

/-- `ofStarts` accepts the buffer, and reads `keptTokens` from it. -/
theorem ofStarts_keptWords (lx : LineLexer σ) (own : ScopeName) {text : String}
    (raw : List RawToken) (h : text.length < UInt32.size) :
    TokenLine.ofStarts (lx.keptWords own text.length raw) text =
      .ok (lx.keptTokens own text raw).line := by
  have h_even : (lx.keptWords own text.length raw).length % 2 ≠ 1 := by
    rw [keptWords, TokenLine.length_wordsOfMarks]
    omega
  rw [TokenLine.ofStarts, TokenLine.guardLength_of_lt h, if_neg h_even,
    marksOfWords_keptWords lx own raw h, ofMarks_keptMarks]

theorem build_eq_ofStarts (lx : LineLexer σ) (own : ScopeName) (text : String)
    (raw : List RawToken) :
    lx.build own text raw =
      (TokenLine.ofStarts (lx.keptWords own text.length raw) text).map
        fun line => ⟨line, (kept own text.length raw).map Prod.snd⟩ := by
  rw [build, keptWords, keptMarks, startMarks, TokenLine.wordsOfMarks, List.flatMap_map]
  dsimp only
  cases TokenLine.ofStarts _ text <;> rfl

/-- `build` succeeds on every line within the offset range. -/
theorem build_eq (lx : LineLexer σ) (own : ScopeName) {text : String} (raw : List RawToken)
    (h : text.length < UInt32.size) :
    lx.build own text raw = .ok (lx.keptTokens own text raw) := by
  rw [build_eq_ofStarts, ofStarts_keptWords lx own raw h]
  rfl

/-- `build` succeeds on no other line, and has no other answer. -/
theorem eq_keptTokens_of_build {lx : LineLexer σ} {own : ScopeName} {text : String}
    {raw : List RawToken} {tokens : ScopedTokens} (h : lx.build own text raw = .ok tokens) :
    text.length < UInt32.size ∧ tokens = lx.keptTokens own text raw := by
  have h_text : text.length < UInt32.size := by
    apply Nat.lt_of_not_le
    intro h_le
    rw [build_eq_ofStarts, TokenLine.ofStarts, TokenLine.guardLength_of_le h_le] at h
    cases h
  rw [build_eq lx own raw h_text] at h
  exact ⟨h_text, (Except.ok.inj h).symm⟩

end LineLexer

end ScopeTokens
