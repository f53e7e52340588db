/-
  ScopeTokens.Proofs.Token.Starts

  Lines read from the starts of their tokens. A line written as starts is read
  back (`Constructible.ofStarts_toStartWords`). `ofStarts` accepts a buffer if its
  starts, but for the first, climb from above zero to below the length of the text
  (`exists_ofStarts_iff`); the first is not looked at, so one pair is a line of
  every short text, the empty one included. `readStarts` converts the buffer in
  place: each offset is overwritten by the next one, which no earlier step has
  touched (`getElem?_shiftOffsets`), and the last by the length. The result is
  `endWordsOfStarts` (`toEndsInPlace_eq`).
-/

import Mathlib.Data.Set.Monotone
import ScopeTokens.Proofs.Token.Search

namespace ScopeTokens

namespace TokenLine

/-! ## Starts in a buffer -/

/-- Word `2 * i`, where token `i` starts. -/
def startAt (words : List UInt32) (i : Nat) : Nat :=
  (words[2 * i]?.getD 0).toNat

/-- `words` are pairs, and the starts from index 1 on climb strictly between `0` and `length`. -/
structure StartsWithin (words : List UInt32) (length : Nat) : Prop where
  even : words.length % 2 = 0
  ne_nil : words ≠ []
  climbs : StrictMonoOn (startAt words) (Set.Ico 1 (words.length / 2))
  within : ∀ i ∈ Set.Ico 1 (words.length / 2), 0 < startAt words i ∧ startAt words i < length

/-- The buffer of pairs `start, metadata` of `a`. -/
def toStartWords (a : TokenLine) : List UInt32 :=
  (List.range a.count).flatMap fun i => [UInt32.ofNat (a.startOffset i), (a.metadata i).bits]

/-! ## In place -/

/-- The buffer after the first `n` offsets were overwritten, each by the next one; `none` if a word
    is read past the end. -/
def shiftOffsets (words : List UInt32) : Nat → Option (List UInt32)
  | 0 => some words
  | n + 1 =>
    match shiftOffsets words n with
    | none => none
    | some ws => ws[(n + 1) * 2]?.map fun next => ws.set (n * 2) next

/-- Turns starts into ends, in place. -/
def toEndsInPlace (length : UInt32) (words : List UInt32) : Option (List UInt32) :=
  let count := words.length / 2
  if count = 0 then some words
  else (shiftOffsets words (count - 1)).map fun ws => ws.set ((count - 1) * 2) length

/-- After `n` steps, the first `n` offsets are those of the next tokens, and all other words are
    untouched. -/
theorem getElem?_shiftOffsets {words : List UInt32} {n : Nat} (h : n < words.length / 2) :
    ∃ ws, shiftOffsets words n = some ws ∧ ws.length = words.length ∧
      ∀ j, ws[j]? = if j % 2 = 0 ∧ j / 2 < n then words[j + 2]? else words[j]? := by
  induction n with
  | zero => exact ⟨words, rfl, rfl, fun j => (if_neg (by omega)).symm⟩
  | succ n ih =>
    obtain ⟨ws, h_ws, h_length, h_get⟩ := ih (by omega)
    -- the next offset is still the one that it was at first
    have h_next : ws[(n + 1) * 2]? = words[(n + 1) * 2]? := by
      rw [h_get, if_neg (by omega)]
    obtain ⟨next, h_some⟩ : ∃ next, words[(n + 1) * 2]? = some next :=
      ⟨_, getElem?_pos words ((n + 1) * 2) (by omega)⟩
    refine ⟨ws.set (n * 2) next, ?_, by rw [List.length_set, h_length], ?_⟩
    · rw [shiftOffsets, h_ws]
      dsimp only
      rw [h_next, h_some]
      rfl
    · intro j
      by_cases h_j : n * 2 = j
      · subst h_j
        rw [List.getElem?_set_self (by omega), if_pos (by omega), ← h_some]
        congr 1
        omega
      · rw [List.getElem?_set_ne h_j, h_get]
        exact if_congr (by omega) rfl rfl

/-- Word `j` of `endWordsOfStarts`: the next offset, or `length` for the last one; metadata stay. -/
theorem getElem?_endWordsOfStarts (length : UInt32) (words : List UInt32) (j : Nat) :
    (endWordsOfStarts length words)[j]? =
      if j % 2 = 0 ∧ j / 2 + 1 < words.length / 2 then words[j + 2]?
      else if j % 2 = 0 ∧ j / 2 + 1 = words.length / 2 then some length
      else words[j]? := by
  fun_induction endWordsOfStarts length words generalizing j with
  | case1 start m start' m' ws ih =>
    have h_count : (start :: m :: start' :: m' :: ws).length / 2 =
        (start' :: m' :: ws).length / 2 + 1 := by
      rw [List.length_cons, List.length_cons]
      omega
    have h_pos : 0 < (start' :: m' :: ws).length / 2 := by
      rw [List.length_cons, List.length_cons]
      omega
    rw [h_count]
    rcases j with _ | _ | j
    · rw [if_pos (by omega)]
      rfl
    · rfl
    -- behind the first pair the lists are shifted by it
    · show (endWordsOfStarts length (start' :: m' :: ws))[j]? = _
      rw [ih]
      exact if_congr (by omega) rfl (if_congr (by omega) rfl rfl)
  -- there is one token, and behind it at most a word without a partner
  | case2 start m ws h_short =>
    have h_length := length_le_one_of_short h_short
    have h_count : (start :: m :: ws).length / 2 = 1 := by
      rw [List.length_cons, List.length_cons]
      omega
    rw [h_count, if_neg (by omega)]
    cases j with
    | zero => rfl
    | succ j =>
      rw [if_neg (by omega)]
      rfl
  | case3 ws _ h_short =>
    have h_length := length_le_one_of_short h_short
    rw [if_neg (by omega), if_neg (by omega)]

theorem toEndsInPlace_eq (length : UInt32) (words : List UInt32) :
    toEndsInPlace length words = some (endWordsOfStarts length words) := by
  rw [toEndsInPlace]
  by_cases h_count : words.length / 2 = 0
  · rw [if_pos h_count, Option.some.injEq]
    apply List.ext_getElem?
    intro j
    rw [getElem?_endWordsOfStarts, if_neg (by omega), if_neg (by omega)]
  · have h_last : words.length / 2 - 1 < words.length / 2 := by omega
    obtain ⟨ws, h_ws, h_length, h_get⟩ := getElem?_shiftOffsets h_last
    rw [if_neg h_count, h_ws, Option.map_some, Option.some.injEq]
    apply List.ext_getElem?
    intro j
    rw [getElem?_endWordsOfStarts]
    -- the slot of the last offset is the only one that the loop leaves to be written
    by_cases h_j : (words.length / 2 - 1) * 2 = j
    · subst h_j
      rw [List.getElem?_set_self (by omega), if_neg (by omega), if_pos (by omega)]
    · rw [List.getElem?_set_ne h_j, h_get]
      refine if_congr (by omega) rfl ?_
      rw [if_neg (by omega)]

/-- Reads a buffer of starts: converts it in place and reads the ends in one pass. -/
def readStarts (words : List UInt32) (text : String) : Option (Except PartitionError TokenLine) :=
  if UInt32.size ≤ text.length then some (.error (.textTooLong text.length))
  else if words.length % 2 ≠ 0 then some (.error (.oddLength words.length))
  else (toEndsInPlace (UInt32.ofNat text.length) words).map fun ends => readEnds ends text

/-- No word is read past the end of `words`, and the line is that of `ofStarts`. -/
theorem readStarts_eq (words : List UInt32) (text : String) :
    readStarts words text = some (ofStarts words text) := by
  rw [readStarts]
  rcases Nat.lt_or_ge text.length UInt32.size with h | h
  · rw [if_neg (Nat.not_le.2 h)]
    by_cases h_odd : words.length % 2 = 1
    · rw [if_pos (by omega), ofStarts, guardLength_of_lt h, if_pos h_odd]
    · rw [if_neg (by omega), toEndsInPlace_eq, Option.map_some, readEnds_eq, ofStarts_eq_ofEnds]
  · rw [if_pos h, ofStarts, guardLength_of_le h]

/-! ## Which buffers are lines -/

variable {words : List UInt32} {length : Nat} {text : String} {a : TokenLine}

/-- Mark `i` stops at start `i + 1`, and the last one at `length`. -/
theorem stop_endsOfStarts_marksOfWords (length : Nat) {i : Nat} (h : i < words.length / 2) :
    (endsOfStarts length (marksOfWords words))[i]?.map Mark.stop =
      some (if i + 1 < words.length / 2 then startAt words (i + 1) else length) := by
  have h_marks := length_marksOfWords words
  rw [stop_endsOfStarts length (by omega)]
  by_cases h_next : i + 1 < words.length / 2
  · obtain ⟨m, h_m⟩ := getElem?_marksOfWords h_next
    rw [if_pos h_next, h_m]
    rfl
  · rw [if_neg h_next, List.getElem?_eq_none (by omega)]
    rfl

theorem ofStarts_of_even (h : words.length % 2 = 0) (text : String) :
    ofStarts words text =
      guardLength text (ofMarks (endsOfStarts text.length (marksOfWords words)) text) := by
  rw [ofStarts, if_neg (by omega)]

/-- What `ofStarts` accepts is short, even, and has marks without a fault once they are ends. -/
theorem ofMarks_of_ofStarts (h : ofStarts words text = .ok a) :
    text.length < UInt32.size ∧ words.length % 2 = 0 ∧
      ofMarks (endsOfStarts text.length (marksOfWords words)) text = .ok a := by
  obtain ⟨h_text, h_ok⟩ := guardLength_eq_ok_iff.1 h
  split at h_ok
  · exact absurd h_ok nofun
  · exact ⟨h_text, by omega, h_ok⟩

theorem stopBefore_endsOfStarts (length : Nat) {i : Nat} (h : i < words.length / 2) :
    stopBefore 0 (endsOfStarts length (marksOfWords words)) i =
      if i = 0 then 0 else startAt words i := by
  cases i with
  | zero => rfl
  | succ i =>
    rw [stopBefore, stop_endsOfStarts_marksOfWords length (Nat.lt_of_succ_lt h), if_pos h]
    rfl

namespace StartsWithin

/-- With starts within the line, no token is empty, unless it is the only one of an empty line. -/
theorem start_lt_stop (h : StartsWithin words length) (h_room : 0 < length ∨ 1 < words.length / 2)
    {i : Nat} (h_i : i < words.length / 2) :
    (if i = 0 then 0 else startAt words i) <
      if i + 1 < words.length / 2 then startAt words (i + 1) else length := by
  by_cases h_zero : i = 0
  · subst h_zero
    rw [if_pos rfl]
    by_cases h_next : 0 + 1 < words.length / 2
    · rw [if_pos h_next]
      exact (h.within 1 ⟨Nat.le_refl 1, h_next⟩).1
    · rw [if_neg h_next]
      omega
  · have h_one : 1 ≤ i := Nat.one_le_iff_ne_zero.2 h_zero
    rw [if_neg h_zero]
    by_cases h_next : i + 1 < words.length / 2
    · rw [if_pos h_next]
      exact h.climbs ⟨h_one, h_i⟩ ⟨by omega, h_next⟩ (Nat.lt_succ_self i)
    · rw [if_neg h_next]
      exact (h.within i ⟨h_one, h_i⟩).2

/-- Starts within the line become ends that tile it. -/
theorem tiles (h : StartsWithin words length) (h_room : 0 < length ∨ 1 < words.length / 2) :
    Tiles length 0 (endsOfStarts length (marksOfWords words)) := by
  have h_pos := half_length_pos h.even h.ne_nil
  have h_count : (endsOfStarts length (marksOfWords words)).length = words.length / 2 := by
    rw [length_endsOfStarts, length_marksOfWords]
  rw [tiles_iff 0]
  constructor
  -- each end is above the one before it
  · apply firstEmpty_eq_none
    intro i k h_k
    have h_i : i < words.length / 2 := by
      rw [← h_count]
      exact (List.getElem?_eq_some_iff.1 h_k).1
    have h_stop := stop_endsOfStarts_marksOfWords length h_i
    rw [h_k, Option.map_some, Option.some.injEq] at h_stop
    rw [stopBefore_endsOfStarts length h_i, h_stop]
    exact h.start_lt_stop h_room h_i
  -- and the last of them is the length, whatever the buffer has
  · have h_last : words.length / 2 - 1 < words.length / 2 := by omega
    rw [List.getLast?_eq_getElem?, h_count, stop_endsOfStarts_marksOfWords length h_last,
      if_neg (by omega), Option.getD_some]

theorem fault_eq_none (h : StartsWithin words length) :
    fault (endsOfStarts length (marksOfWords words)) length = none := by
  have h_pos := half_length_pos h.even h.ne_nil
  have h_count := length_marksOfWords words
  rw [fault_eq_none_iff]
  by_cases h_room : 0 < length ∨ 1 < words.length / 2
  · refine .inl ⟨?_, h.tiles h_room⟩
    apply List.ne_nil_of_length_pos
    rw [length_endsOfStarts]
    omega
  -- one token on the empty line
  · obtain ⟨k, h_k⟩ := List.length_eq_one_iff.1 (show (marksOfWords words).length = 1 by omega)
    obtain rfl : length = 0 := by omega
    rw [h_k]
    exact .inr ⟨rfl, k.metadata, rfl⟩

end StartsWithin

/-- The line has the starts of the buffer, with `0` in place of the first, and its metadata. -/
theorem startOffset_of_ofStarts (h : ofStarts words text = .ok a) :
    words.length % 2 = 0 ∧ words ≠ [] ∧ a.text = text ∧ a.count = words.length / 2 ∧
      ∀ i < a.count, a.startOffset i = (if i = 0 then 0 else startAt words i) ∧
        words[2 * i + 1]? = some (a.metadata i).bits := by
  obtain ⟨-, h_even, h_marks⟩ := ofMarks_of_ofStarts h
  obtain ⟨rfl, h_ne⟩ := eq_assemble_of_ofMarks h_marks
  have h_count : (assemble (endsOfStarts text.length (marksOfWords words)) text).count =
      words.length / 2 := by
    rw [count_assemble, length_endsOfStarts, length_marksOfWords]
  refine ⟨h_even, ?_, rfl, h_count, ?_⟩
  · rintro rfl
    exact h_ne rfl
  intro i h_i
  constructor
  · -- a token starts where the one in front of it ends, which is the start that was given for it
    cases i with
    | zero => rfl
    | succ i =>
      show (assemble _ text).endOffset i = startAt words (i + 1)
      rw [endOffset_assemble, stop_endsOfStarts_marksOfWords text.length (by omega),
        if_pos (by omega), Option.getD_some]
  · rw [h_count] at h_i
    obtain ⟨m, h_m⟩ := getElem?_marksOfWords h_i
    have h_mark := getElem?_endsOfStarts text.length (marksOfWords words) i
    rw [h_m, Option.map_some, ← List.getElem?_toArray] at h_mark
    have h_metadata := metadata_of_getElem?
      (a := assemble (endsOfStarts text.length (marksOfWords words)) text) h_mark
    rw [getElem?_metadata_marksOfWords, h_m, h_metadata]
    rfl

namespace Partitions

/-- If there are several tokens, none is empty. -/
theorem start_lt_of_many (h : a.Partitions text) (h_many : 1 < a.count) {i : Nat}
    (h_i : i < a.count) : a.startOffset i < a.endOffset i := by
  rcases h.start_lt i h_i with h_lt | ⟨-, h_one⟩
  · exact h_lt
  · omega

theorem strictMonoOn_startOffset (h : a.Partitions text) :
    StrictMonoOn a.startOffset (Set.Ico 1 a.count) := by
  apply strictMonoOn_of_lt_succ Set.ordConnected_Ico
  intro i _ h_i _
  exact h.start_lt_of_many (Nat.lt_of_le_of_lt h_i.1 h_i.2) h_i.2

/-- All tokens but the first start strictly within the line. -/
theorem startOffset_within (h : a.Partitions text) {i : Nat} (h_i : i ∈ Set.Ico 1 a.count) :
    0 < a.startOffset i ∧ a.startOffset i < text.length := by
  obtain ⟨h_one, h_lt⟩ := h_i
  have h_many : 1 < a.count := by omega
  have h_first : 0 < a.startOffset 1 := h.start_lt_of_many h_many h.describes.count_pos
  have h_mono := h.startOffset_le h_one (Nat.le_of_lt h_lt)
  have h_token := h.start_lt_of_many h_many h_lt
  have h_stop := h.endOffset_le_length h_lt
  exact ⟨by omega, by omega⟩

end Partitions

/-- What `ofStarts` accepts has its starts within the text. -/
theorem startsWithin_of_ofStarts (h : ofStarts words text = .ok a) :
    StartsWithin words text.length := by
  obtain ⟨h_even, h_ne, -, h_count, h_starts⟩ := startOffset_of_ofStarts h
  have h_partitions : a.Partitions text := partitions_of_ofMarks (ofMarks_of_ofStarts h).2.2
  have h_start : Set.EqOn a.startOffset (startAt words) (Set.Ico 1 a.count) := by
    intro i h_i
    rw [(h_starts i h_i.2).1, if_neg (Nat.one_le_iff_ne_zero.1 h_i.1)]
  refine ⟨h_even, h_ne, ?_, ?_⟩
  · rw [← h_count]
    exact h_partitions.strictMonoOn_startOffset.congr h_start
  · rw [← h_count]
    intro i h_i
    rw [← h_start h_i]
    exact h_partitions.startOffset_within h_i

theorem exists_ofStarts_iff (words : List UInt32) (text : String) :
    (∃ a, ofStarts words text = .ok a) ↔
      text.length < UInt32.size ∧ StartsWithin words text.length := by
  constructor
  · rintro ⟨a, h_ok⟩
    exact ⟨(ofMarks_of_ofStarts h_ok).1, startsWithin_of_ofStarts h_ok⟩
  · rintro ⟨h_text, h⟩
    refine ⟨assemble (endsOfStarts text.length (marksOfWords words)) text, ?_⟩
    rw [ofStarts_of_even h.even, guardLength_of_lt h_text, ofMarks, h.fault_eq_none]

/-! ## There and back -/

/-- The marks of `a` with the start of each token in the place of its end. -/
def startMarks (a : TokenLine) : List Mark :=
  (List.range a.count).map fun i => ⟨a.startOffset i, a.metadata i⟩

theorem toStartWords_eq (a : TokenLine) : a.toStartWords = wordsOfMarks a.startMarks := by
  rw [toStartWords, wordsOfMarks, startMarks, List.flatMap_map]

theorem getElem?_startMarks {i : Nat} (h : i < a.count) :
    a.startMarks[i]? = some ⟨a.startOffset i, a.metadata i⟩ := by
  rw [startMarks, List.getElem?_map, List.getElem?_range h, Option.map_some]

theorem length_startMarks (a : TokenLine) : a.startMarks.length = a.count := by
  rw [startMarks, List.length_map, List.length_range]

/-- The next start is the end of token `i`, and `text.length` for the last one. -/
theorem Partitions.stop_startMarks (h : a.Partitions text) {i : Nat} (h_i : i < a.count) :
    (a.startMarks[i + 1]?.map Mark.stop).getD text.length = a.endOffset i := by
  by_cases h_next : i + 1 < a.count
  · rw [getElem?_startMarks h_next]
    rfl
  · obtain rfl : i = a.count - 1 := by omega
    have h_none : a.startMarks[a.count - 1 + 1]? = none := by
      apply List.getElem?_eq_none
      rw [length_startMarks]
      omega
    rw [h_none, h.last]
    rfl

namespace Constructible

theorem endsOfStarts_startMarks (h : a.Constructible) :
    endsOfStarts a.text.length a.startMarks = a.marks.toList := by
  apply List.ext_getElem?
  intro i
  have h_marks : a.marks.toList[i]? = a.marks[i]? := Array.getElem?_toList
  rw [getElem?_endsOfStarts, h_marks]
  by_cases h_i : i < a.count
  · rw [getElem?_startMarks h_i, Option.map_some, h.partitions.stop_startMarks h_i,
      getElem?_marks h_i]
  · have h_past : a.count ≤ i := Nat.not_lt.1 h_i
    have h_none : a.startMarks[i]? = none := by
      apply List.getElem?_eq_none
      rwa [length_startMarks]
    rw [h_none, Array.getElem?_eq_none h_past]
    rfl

theorem ofStarts_toStartWords (h : a.Constructible) :
    ofStarts a.toStartWords a.text = .ok a := by
  have h_fits : ∀ k ∈ a.startMarks, k.stop < UInt32.size := by
    intro k h_k
    obtain ⟨i, h_i, rfl⟩ := List.mem_map.1 h_k
    have h_lt : i < a.count := List.mem_range.1 h_i
    have h_start := h.partitions.start_le h_lt
    have h_stop := h.partitions.endOffset_le_length h_lt
    have h_length := h.exists_ofEnds.1
    show a.startOffset i < UInt32.size
    omega
  have h_even : a.toStartWords.length % 2 = 0 := by
    rw [toStartWords_eq, length_wordsOfMarks]
    omega
  rw [ofStarts_of_even h_even, guardLength_of_lt h.exists_ofEnds.1, toStartWords_eq,
    marksOfWords_wordsOfMarks h_fits, h.endsOfStarts_startMarks, h.ofMarks_toList]

theorem readStarts_toStartWords (h : a.Constructible) :
    readStarts a.toStartWords a.text = some (.ok a) := by
  rw [readStarts_eq, h.ofStarts_toStartWords]

end Constructible

/-- `ofStarts` reads `a.toStartWords` back as `a`, for any line `a` that can be had. A buffer
    `words` is accepted exactly if `text` is within the offset range and the starts, from index 1
    on, climb strictly between `0` and `text.length` (`StartsWithin`). The line then has the starts
    of `words`, with `0` in place of the first, and its metadata word for word. A text past the
    offset range is refused as `textTooLong`. `readStarts`, which converts the buffer in place and
    validates afterwards, never reads past its end and gives the same answer. -/
theorem ofStarts_toStartWords_and_exists_ofStarts_iff {a : TokenLine} (h : a.Constructible) :
    (ofStarts a.toStartWords a.text = .ok a ∧
      readStarts a.toStartWords a.text = some (.ok a)) ∧
    ∀ words text,
      ((∃ b, ofStarts words text = .ok b) ↔
        text.length < UInt32.size ∧ StartsWithin words text.length) ∧
      (UInt32.size ≤ text.length → ofStarts words text = .error (.textTooLong text.length)) ∧
      (∀ b, ofStarts words text = .ok b → b.text = text ∧ b.count = words.length / 2 ∧
        ∀ i < b.count, b.startOffset i = (if i = 0 then 0 else startAt words i) ∧
          words[2 * i + 1]? = some (b.metadata i).bits) ∧
      readStarts words text = some (ofStarts words text) := by
  refine ⟨⟨h.ofStarts_toStartWords, h.readStarts_toStartWords⟩, ?_⟩
  intro words text
  refine ⟨exists_ofStarts_iff words text, ?_, ?_, readStarts_eq words text⟩
  · intro h_long
    exact guardLength_of_le h_long _
  · intro b h_ok
    exact (startOffset_of_ofStarts h_ok).2.2

/-- A line of three tokens, the second of them a comment. -/
def threeTokens : TokenLine :=
  assemble [⟨2, ⟨1⟩⟩, ⟨4, ⟨257⟩⟩, ⟨5, ⟨1⟩⟩] "añ€de"

/-- The first start may be anything. -/
theorem ofStarts_toStartWords_and_exists_ofStarts_iff_threeTokens :
    threeTokens.Constructible ∧ threeTokens.toStartWords = [0, 1, 2, 257, 4, 1] ∧
    ofStarts threeTokens.toStartWords "añ€de" = .ok threeTokens ∧
    ofStarts [9, 1, 2, 257, 4, 1] "añ€de" = .ok threeTokens ∧
    threeTokens.startOffset 2 = 4 ∧
    StartsWithin [9, 1, 2, 257, 4, 1] "añ€de".length ∧
    ¬ StartsWithin [0, 1, 2, 257, 5, 1] "añ€de".length ∧
    readStarts [9, 1, 2, 257, 4, 1] "añ€de" = some (.ok threeTokens) := by
  have h_ends : ofEnds [2, 1, 4, 257, 5, 1] "añ€de" = .ok threeTokens := by decide
  have h_fits : "añ€de".length < UInt32.size := by decide
  have h_line : threeTokens.Constructible := .ends h_ends
  obtain ⟨⟨h_again, -⟩, h_buffers⟩ := ofStarts_toStartWords_and_exists_ofStarts_iff h_line
  obtain ⟨h_iff, -, h_starts, h_read⟩ := h_buffers [9, 1, 2, 257, 4, 1] "añ€de"
  obtain ⟨h_iff', -⟩ := h_buffers [0, 1, 2, 257, 5, 1] "añ€de"
  have h_ok : ofStarts [9, 1, 2, 257, 4, 1] "añ€de" = .ok threeTokens := by decide
  have h_error : ofStarts [0, 1, 2, 257, 5, 1] "añ€de" = .error (.nonIncreasing 2 5 5) := by
    decide
  obtain ⟨-, -, h_offsets⟩ := h_starts threeTokens h_ok
  refine ⟨h_line, by decide, h_again, h_ok, (h_offsets 2 (by decide)).1.trans (by decide),
    (h_iff.1 ⟨_, h_ok⟩).2, ?_, h_read.trans (congrArg some h_ok)⟩
  intro h_within
  obtain ⟨b, h_b⟩ := h_iff'.2 ⟨h_fits, h_within⟩
  rw [h_error] at h_b
  exact absurd h_b nofun

/-- One pair of words has its starts within every text, but a text of `UInt32.size` characters is
    refused. -/
theorem startsWithin_and_not_ok_letters :
    StartsWithin [0, 1] (letters UInt32.size).length ∧
    ¬ ∃ a, ofStarts [0, 1] (letters UInt32.size) = .ok a := by
  refine ⟨⟨by decide, by decide, ?_, ?_⟩, ?_⟩
  -- there is no start from the second on
  · rintro i ⟨h_one, h_lt⟩
    exact absurd (Nat.lt_of_le_of_lt h_one h_lt) (Nat.lt_irrefl 1)
  · rintro i ⟨h_one, h_lt⟩
    exact absurd (Nat.lt_of_le_of_lt h_one h_lt) (Nat.lt_irrefl 1)
  · rintro ⟨a, h_ok⟩
    have h_text := (guardLength_eq_ok_iff.1 h_ok).1
    rw [length_letters] at h_text
    exact Nat.lt_irrefl _ h_text

end TokenLine

end ScopeTokens
