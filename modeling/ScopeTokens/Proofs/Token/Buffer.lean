/-
  ScopeTokens.Proofs.Token.Buffer

  Which buffers `ofEnds` accepts, and the error for the others. A buffer either
  fills a line of the given length (`Fills`, `FillsEmpty`) or has a first fault
  (`FirstFault`), and not both (`accepted_or_firstFault`). `ofEnds` gives the line
  in the first case and the fault in the second
  (`exists_ofEnds_iff_and_error_iff`). `readEnds`, one pass over the words that
  sums up `lineMetadata` and `types` as it checks the order, gives the same answer
  (`readEnds_eq`).
-/

import Mathlib.Data.List.Basic
import Mathlib.Data.Nat.Find
import Mathlib.Data.Nat.SuccPred
import Mathlib.Order.Interval.Set.OrdConnected
import Mathlib.Order.SuccPred.Archimedean
import ScopeTokens.Proofs.Token.Partition
import ScopeTokens.Proofs.Token.Words

namespace ScopeTokens

namespace TokenLine

/-! ## Ends in a buffer -/

/-- Word `2 * i`, where token `i` ends. -/
def endIn (words : List UInt32) (i : Nat) : Nat :=
  (words[2 * i]?.getD 0).toNat

/-- Where token `i` starts: the end of the token before it, `0` for the first. -/
def startIn (words : List UInt32) : Nat → Nat
  | 0 => 0
  | i + 1 => endIn words i

/-- `words` is one token of length zero, on an empty line. -/
structure FillsEmpty (words : List UInt32) (length : Nat) : Prop where
  single : words.length = 2
  stop_eq : endIn words 0 = 0
  length_eq : length = 0

/-- The ends in `words` climb strictly from above `0` to `length`. -/
structure Fills (words : List UInt32) (length : Nat) : Prop where
  even : words.length % 2 = 0
  ne_nil : words ≠ []
  first : 0 < endIn words 0
  climbs : StrictMonoOn (endIn words) (Set.Iio (words.length / 2))
  last : endIn words (words.length / 2 - 1) = length

/-- The error of a buffer, by precedence: odd length, no words, the first `i` with an end that is
    not above its start, a last end that is not `length`. -/
inductive FirstFault (words : List UInt32) (length : Nat) : PartitionError → Prop
  | oddLength : words.length % 2 = 1 → FirstFault words length (.oddLength words.length)
  | empty : words = [] → FirstFault words length .empty
  | nonIncreasing (i : Nat) : words.length % 2 = 0 → ¬ FillsEmpty words length →
      i < words.length / 2 → endIn words i ≤ startIn words i →
      (∀ j < i, startIn words j < endIn words j) →
      FirstFault words length (.nonIncreasing i (startIn words i) (endIn words i))
  | endMismatch : words.length % 2 = 0 → words ≠ [] →
      (∀ i < words.length / 2, startIn words i < endIn words i) →
      endIn words (words.length / 2 - 1) ≠ length →
      FirstFault words length (.endMismatch (endIn words (words.length / 2 - 1)) length)

variable {words : List UInt32} {length : Nat}

/-- The ends climb strictly from above `0` exactly if every token ends behind its start. -/
theorem climbs_iff (h_ne : 0 < words.length / 2) :
    (∀ i < words.length / 2, startIn words i < endIn words i) ↔
      0 < endIn words 0 ∧ StrictMonoOn (endIn words) (Set.Iio (words.length / 2)) := by
  constructor
  · intro h
    refine ⟨h 0 h_ne, ?_⟩
    apply strictMonoOn_of_lt_succ Set.ordConnected_Iio
    intro i _ _ h_next
    exact h (i + 1) h_next
  · rintro ⟨h_first, h_mono⟩ i h_i
    cases i with
    | zero => exact h_first
    | succ i => exact h_mono (Nat.lt_of_succ_lt h_i) h_i (Nat.lt_succ_self i)

theorem half_length_pos (h_even : words.length % 2 = 0) (h_ne : words ≠ []) :
    0 < words.length / 2 := by
  have h_length := List.length_pos_iff.2 h_ne
  omega

/-- If not all tokens end behind their start, there is a first one that does not. -/
theorem exists_first_of_not_climbs
    (h : ¬ ∀ i < words.length / 2, startIn words i < endIn words i) :
    ∃ i < words.length / 2, endIn words i ≤ startIn words i ∧
      ∀ j < i, startIn words j < endIn words j := by
  have h_some : ∃ i, i < words.length / 2 ∧ endIn words i ≤ startIn words i := by
    simpa using h
  obtain ⟨h_lt, h_le⟩ := Nat.find_spec h_some
  refine ⟨Nat.find h_some, h_lt, h_le, ?_⟩
  intro j h_j
  have h_not := Nat.find_min h_some h_j
  apply Nat.lt_of_not_le
  intro h_stop
  exact h_not ⟨Nat.lt_trans h_j h_lt, h_stop⟩

/-- Every buffer fills a line of `length` characters or has a first fault. -/
theorem accepted_or_firstFault (words : List UInt32) (length : Nat) :
    (Fills words length ∨ FillsEmpty words length) ∨ ∃ e, FirstFault words length e := by
  by_cases h_nil : words = []
  · exact .inr ⟨_, .empty h_nil⟩
  rcases Nat.mod_two_eq_zero_or_one words.length with h_even | h_odd
  · by_cases h_empty : FillsEmpty words length
    · exact .inl (.inr h_empty)
    by_cases h_climbs : ∀ i < words.length / 2, startIn words i < endIn words i
    · by_cases h_last : endIn words (words.length / 2 - 1) = length
      · obtain ⟨h_first, h_mono⟩ := (climbs_iff (half_length_pos h_even h_nil)).1 h_climbs
        exact .inl (.inl ⟨h_even, h_nil, h_first, h_mono, h_last⟩)
      · exact .inr ⟨_, .endMismatch h_even h_nil h_climbs h_last⟩
    · obtain ⟨i, h_lt, h_le, h_before⟩ := exists_first_of_not_climbs h_climbs
      exact .inr ⟨_, .nonIncreasing i h_even h_empty h_lt h_le h_before⟩
  · exact .inr ⟨_, .oddLength h_odd⟩

/-! ## Marks of a buffer -/

theorem getElem?_marksOfWords {i : Nat} (h : i < words.length / 2) :
    ∃ m, (marksOfWords words)[i]? = some ⟨endIn words i, m⟩ := by
  rw [← length_marksOfWords] at h
  fun_induction marksOfWords words generalizing i with
  | case1 stop m ws ih =>
    cases i with
    | zero => exact ⟨⟨m⟩, rfl⟩
    | succ i =>
      obtain ⟨m', h_some⟩ := ih (Nat.lt_of_succ_lt_succ h)
      exact ⟨m', h_some⟩
  | case2 words h_short => exact absurd h (Nat.not_lt_zero i)

/-- Where mark `i` starts, if the first mark starts at `start`. -/
def stopBefore (start : Nat) (marks : List Mark) : Nat → Nat
  | 0 => start
  | i + 1 => (marks[i]?.map Mark.stop).getD 0

theorem stopBefore_cons (start : Nat) (k : Mark) (ks : List Mark) (i : Nat) :
    stopBefore start (k :: ks) (i + 1) = stopBefore k.stop ks i := by
  cases i <;> rfl

/-- `firstEmpty` finds mark `i` if it is the first that does not end behind its start. -/
theorem firstEmpty_of_first {index start i : Nat} {k : Mark} {marks : List Mark}
    (h_k : marks[i]? = some k) (h_le : k.stop ≤ stopBefore start marks i)
    (h_before : ∀ j < i, ∀ k', marks[j]? = some k' → stopBefore start marks j < k'.stop) :
    firstEmpty index start marks = some (index + i, stopBefore start marks i, k.stop) := by
  induction marks generalizing index start i with
  | nil => exact absurd h_k nofun
  | cons k' ks ih =>
    rw [firstEmpty]
    cases i with
    | zero =>
      obtain rfl : k' = k := by simpa using h_k
      exact if_pos h_le
    | succ i =>
      have h_lt : start < k'.stop := h_before 0 (Nat.zero_lt_succ i) k' rfl
      rw [if_neg (Nat.not_le.2 h_lt), stopBefore_cons, ih h_k]
      · rw [Nat.add_right_comm, Nat.add_assoc]
      · rwa [stopBefore_cons] at h_le
      · intro j h_j k'' h_k''
        have h_next := h_before (j + 1) (Nat.succ_lt_succ h_j) k'' h_k''
        rwa [stopBefore_cons] at h_next

theorem firstEmpty_eq_none {index start : Nat} {marks : List Mark}
    (h : ∀ j k, marks[j]? = some k → stopBefore start marks j < k.stop) :
    firstEmpty index start marks = none := by
  induction marks generalizing index start with
  | nil => rfl
  | cons k ks ih =>
    have h_lt : start < k.stop := h 0 k rfl
    rw [firstEmpty, if_neg (Nat.not_le.2 h_lt)]
    apply ih
    intro j k' h_k'
    have h_next := h (j + 1) k' h_k'
    rwa [stopBefore_cons] at h_next

/-! ## Reading a buffer -/

theorem stopBefore_marksOfWords {i : Nat} (h : i < words.length / 2) :
    stopBefore 0 (marksOfWords words) i = startIn words i := by
  cases i with
  | zero => rfl
  | succ i =>
    obtain ⟨m, h_i⟩ := getElem?_marksOfWords (Nat.lt_of_succ_lt h)
    rw [stopBefore, h_i]
    rfl

theorem ofEnds_of_even (h : words.length % 2 = 0) (text : String) :
    ofEnds words text = guardLength text (ofMarks (marksOfWords words) text) := by
  rw [ofEnds, if_neg (by omega)]

/-- The last mark of a buffer that has one. -/
theorem getLast?_marksOfWords (h : 0 < words.length / 2) :
    ∃ m, (marksOfWords words).getLast? = some ⟨endIn words (words.length / 2 - 1), m⟩ := by
  rw [List.getLast?_eq_getElem?, length_marksOfWords]
  exact getElem?_marksOfWords (by omega)

/-- The exemption in `fault` is `FillsEmpty`. -/
theorem fillsEmpty_iff (h : words.length % 2 = 0) {last : Mark}
    (h_last : (marksOfWords words).getLast? = some last) :
    FillsEmpty words length ↔
      length = 0 ∧ (marksOfWords words).length = 1 ∧ last.stop = 0 := by
  rw [length_marksOfWords]
  have h_stop (h_one : words.length / 2 = 1) : last.stop = endIn words 0 := by
    have h_count : 0 < words.length / 2 := by omega
    obtain ⟨m, h_m⟩ := getLast?_marksOfWords h_count
    rw [h_last, h_one] at h_m
    obtain rfl := Option.some.inj h_m
    rfl
  constructor
  · rintro ⟨h_two, h_end, h_length⟩
    have h_one : words.length / 2 = 1 := by omega
    exact ⟨h_length, h_one, (h_stop h_one).trans h_end⟩
  · rintro ⟨h_length, h_one, h_end⟩
    exact ⟨by omega, (h_stop h_one).symm.trans h_end, h_length⟩

theorem firstEmpty_eq_none_of_climbs
    (h : ∀ i < words.length / 2, startIn words i < endIn words i) :
    firstEmpty 0 0 (marksOfWords words) = none := by
  apply firstEmpty_eq_none
  intro j k h_k
  have h_j : j < words.length / 2 := by
    rw [← length_marksOfWords]
    exact (List.getElem?_eq_some_iff.1 h_k).1
  obtain ⟨m, h_m⟩ := getElem?_marksOfWords h_j
  obtain rfl := Option.some.inj (h_k.symm.trans h_m)
  rw [stopBefore_marksOfWords h_j]
  exact h j h_j

theorem fault_of_fills (h : Fills words length) : fault (marksOfWords words) length = none := by
  have h_count := half_length_pos h.even h.ne_nil
  obtain ⟨m, h_last⟩ := getLast?_marksOfWords h_count
  have h_none := firstEmpty_eq_none_of_climbs ((climbs_iff h_count).2 ⟨h.first, h.climbs⟩)
  rw [fault, h_last, h_none]
  simp [h.last]

theorem fault_of_fillsEmpty (h : FillsEmpty words length) :
    fault (marksOfWords words) length = none := by
  have h_even : words.length % 2 = 0 := by rw [h.single]
  have h_count : 0 < words.length / 2 := by
    rw [h.single]
    decide
  obtain ⟨m, h_last⟩ := getLast?_marksOfWords h_count
  rw [fault, h_last]
  exact if_pos ((fillsEmpty_iff h_even h_last).1 h)

theorem ofEnds_of_accepted {text : String} (h_text : text.length < UInt32.size)
    (h : Fills words text.length ∨ FillsEmpty words text.length) :
    ofEnds words text = .ok (assemble (marksOfWords words) text) := by
  have h_even : words.length % 2 = 0 := by
    rcases h with h | h
    · exact h.even
    · rw [h.single]
  have h_fault : fault (marksOfWords words) text.length = none :=
    h.elim fault_of_fills fault_of_fillsEmpty
  rw [ofEnds_of_even h_even, guardLength_of_lt h_text, ofMarks, h_fault]

theorem ofEnds_of_firstFault {text : String} {e : PartitionError}
    (h_text : text.length < UInt32.size) (h : FirstFault words text.length e) :
    ofEnds words text = .error e := by
  rw [ofEnds, guardLength_of_lt h_text]
  cases h with
  | oddLength h_odd => exact if_pos h_odd
  | empty h_nil =>
    rw [h_nil]
    rfl
  | nonIncreasing i h_even h_empty h_i h_le h_before =>
    have h_count : 0 < words.length / 2 := by omega
    obtain ⟨m, h_last⟩ := getLast?_marksOfWords h_count
    obtain ⟨m', h_k⟩ := getElem?_marksOfWords h_i
    -- the scan stops at the first token that does not climb, and `h_before` says that this is `i`
    have h_first : firstEmpty 0 0 (marksOfWords words) =
        some (0 + i, stopBefore 0 (marksOfWords words) i, endIn words i) := by
      apply firstEmpty_of_first h_k
      · rwa [stopBefore_marksOfWords h_i]
      · intro j h_j k' h_k'
        have h_lt := Nat.lt_trans h_j h_i
        obtain ⟨m'', h_m⟩ := getElem?_marksOfWords h_lt
        obtain rfl := Option.some.inj (h_k'.symm.trans h_m)
        rw [stopBefore_marksOfWords h_lt]
        exact h_before j h_j
    rw [fillsEmpty_iff h_even h_last] at h_empty
    rw [if_neg (by omega), ofMarks, fault, h_last, h_first, stopBefore_marksOfWords h_i,
      Nat.zero_add]
    dsimp only
    rw [if_neg h_empty]
  | endMismatch h_even h_ne h_climbs h_stop =>
    have h_count := half_length_pos h_even h_ne
    obtain ⟨m, h_last⟩ := getLast?_marksOfWords h_count
    have h_none := firstEmpty_eq_none_of_climbs h_climbs
    -- the one token of an empty line does not climb
    have h_empty : ¬ FillsEmpty words text.length := by
      intro h_fills
      have h_first := h_climbs 0 h_count
      rw [h_fills.stop_eq] at h_first
      exact Nat.not_lt_zero _ h_first
    rw [fillsEmpty_iff h_even h_last] at h_empty
    rw [if_neg (by omega), ofMarks, fault, h_last, h_none]
    dsimp only
    rw [if_neg h_empty, if_neg h_stop]

/-! ## One pass over the words -/

/-- What the pass keeps of the tokens so far: the last end, the union of their metadata, and a bit
    for each kind. -/
structure Tally where
  stop : UInt32
  metadata : UInt32
  types : UInt8

namespace Tally

def add (p : Tally) (stop m : UInt32) : Tally where
  stop := stop
  metadata := p.metadata ||| m
  types := p.types ||| (1 : UInt8) <<< (TokenMetadata.mk m).tokenType.bits.toUInt8

/-- The tally behind all tokens of the buffer. -/
def after (p : Tally) : List UInt32 → Tally
  | stop :: m :: ws => (p.add stop m).after ws
  | _ => p

/-- The low four bits of `types` as a `TypeSet`. -/
def typeSet (p : Tally) : TypeSet :=
  p.types.toBitVec.setWidth 4

end Tally

/-- Goes over the tokens from `index` on. An end has to be above the one before it; the one token of
    an empty line may end at zero. -/
def passFrom (emptyLine : Bool) (index : Nat) (p : Tally) :
    List UInt32 → Except PartitionError Tally
  | stop :: m :: ws =>
    if stop ≤ p.stop ∧ ¬ (emptyLine = true ∧ stop = 0) then
      .error (.nonIncreasing index p.stop.toNat stop.toNat)
    else passFrom emptyLine (index + 1) (p.add stop m) ws
  | _ => .ok p

/-- The line of `words`, if the last end is the length of `text`. -/
def Tally.close (p : Tally) (words : List UInt32) (text : String) :
    Except PartitionError TokenLine :=
  let length := UInt32.ofNat text.length
  if p.stop ≠ length then .error (.endMismatch p.stop.toNat length.toNat)
  else .ok
    { marks := (marksOfWords words).toArray
      text := text
      length := length.toNat
      lineMetadata := ⟨p.metadata⟩
      types := p.typeSet }

/-- Reads a buffer of ends in one pass. -/
def readEnds (words : List UInt32) (text : String) : Except PartitionError TokenLine :=
  if UInt32.size ≤ text.length then .error (.textTooLong text.length)
  else if words.length % 2 ≠ 0 then .error (.oddLength words.length)
  else if words.isEmpty then .error .empty
  else
    (passFrom (words.length / 2 == 1 && UInt32.ofNat text.length == 0) 0 ⟨0, 0, 0⟩ words).bind
      fun p => p.close words text

namespace Tally

theorem after_of_short {p : Tally} (h : ∀ stop m ws, words = stop :: m :: ws → False) :
    p.after words = p := by
  unfold after
  split
  · rename_i stop m ws
    exact absurd rfl (h stop m ws)
  · rfl

theorem toNat_stop_after (p : Tally) (words : List UInt32) :
    (p.after words).stop.toNat =
      ((marksOfWords words).getLast?.map Mark.stop).getD p.stop.toNat := by
  fun_induction after p words with
  | case1 p stop m ws ih =>
    rw [ih, marksOfWords]
    cases marksOfWords ws with
    | nil => rfl
    | cons k ks => simp [List.getLast?_eq_some_getLast]
  | case2 p words h_short =>
    rw [marksOfWords_of_short h_short]
    rfl

theorem metadata_after (p : Tally) (words : List UInt32) :
    TokenMetadata.mk (p.after words).metadata =
      (marksOfWords words).foldl (fun m k => m.union k.metadata) ⟨p.metadata⟩ := by
  fun_induction after p words with
  | case1 p stop m ws ih =>
    rw [ih]
    rfl
  | case2 p words h_short =>
    rw [marksOfWords_of_short h_short]
    rfl

theorem typeSet_add (p : Tally) (stop m : UInt32) :
    (p.add stop m).typeSet = p.typeSet.insert (TokenMetadata.mk m).tokenType := by
  rw [typeSet, add, TypeSet.insert, UInt8.toBitVec_or, BitVec.setWidth_or]
  cases (TokenMetadata.mk m).tokenType <;> rfl

theorem typeSet_after (p : Tally) (words : List UInt32) :
    (p.after words).typeSet =
      (marksOfWords words).foldl (fun s k => s.insert k.metadata.tokenType) p.typeSet := by
  fun_induction after p words with
  | case1 p stop m ws ih =>
    rw [ih, typeSet_add]
    rfl
  | case2 p words h_short =>
    rw [marksOfWords_of_short h_short]
    rfl

/-- The tally is what `assemble` computes of the line. -/
theorem close_after {text : String} (h : text.length < UInt32.size) {last : Mark}
    (h_last : (marksOfWords words).getLast? = some last) :
    ((⟨0, 0, 0⟩ : Tally).after words).close words text =
      if last.stop = text.length then .ok (assemble (marksOfWords words) text)
      else .error (.endMismatch last.stop text.length) := by
  have h_length : (UInt32.ofNat text.length).toNat = text.length := UInt32.toNat_ofNat_of_lt' h
  have h_stop := toNat_stop_after ⟨0, 0, 0⟩ words
  rw [h_last, Option.map_some, Option.getD_some] at h_stop
  have h_iff : ((⟨0, 0, 0⟩ : Tally).after words).stop = UInt32.ofNat text.length ↔
      last.stop = text.length := by
    rw [← UInt32.toNat_inj, h_stop, h_length]
  rw [close]
  by_cases h_same : last.stop = text.length
  · rw [if_neg (not_not_intro (h_iff.2 h_same)), if_pos h_same, h_length, metadata_after,
      typeSet_after]
    rfl
  · rw [if_pos (fun h_eq => h_same (h_iff.1 h_eq)), if_neg h_same, h_stop, h_length]

end Tally

theorem passFrom_false (index : Nat) (p : Tally) (words : List UInt32) :
    passFrom false index p words =
      match firstEmpty index p.stop.toNat (marksOfWords words) with
      | some (i, start, stop) => .error (.nonIncreasing i start stop)
      | none => .ok (p.after words) := by
  fun_induction passFrom false index p words with
  | case1 index p stop m ws h =>
    rw [marksOfWords, firstEmpty, if_pos (UInt32.le_iff_toNat_le.1 h.1)]
  | case2 index p stop m ws h ih =>
    have h_not : ¬ stop.toNat ≤ p.stop.toNat := by
      intro h_le
      exact h ⟨UInt32.le_iff_toNat_le.2 h_le, by simp⟩
    rw [marksOfWords, firstEmpty, if_neg h_not, Tally.after]
    exact ih
  | case3 index p words h_short =>
    rw [marksOfWords_of_short h_short, Tally.after_of_short h_short]
    rfl

/-- The one end of an empty line passes, and is compared with the length by `close`. -/
theorem bind_passFrom_emptyLine (stop m : UInt32) {text : String} (h : text.length = 0) :
    ((passFrom true 0 ⟨0, 0, 0⟩ [stop, m]).bind fun p => p.close [stop, m] text) =
      ofMarks (marksOfWords [stop, m]) text := by
  -- the flag lets an end of 0 pass, and any other end climbs
  have h_pass : passFrom true 0 ⟨0, 0, 0⟩ [stop, m] =
      .ok ((⟨0, 0, 0⟩ : Tally).after [stop, m]) := by
    rw [passFrom, if_neg]
    · rfl
    · rintro ⟨h_le, h_not⟩
      have h_zero : stop = 0 := by
        apply UInt32.toNat_inj.1
        exact Nat.le_zero.1 (UInt32.le_iff_toNat_le.1 h_le)
      exact h_not ⟨rfl, h_zero⟩
  have h_last : (marksOfWords [stop, m]).getLast? = some ⟨stop.toNat, ⟨m⟩⟩ := rfl
  have h_close := Tally.close_after (by rw [h]; decide) h_last
  rw [h_pass, Except.bind, h_close, h, ofMarks, h]
  -- what is left on both sides is whether the end is the length of the line
  by_cases h_stop : stop.toNat = 0
  · have h_fault : fault (marksOfWords [stop, m]) 0 = none := if_pos ⟨rfl, rfl, h_stop⟩
    rw [if_pos h_stop, h_fault]
  · have h_fault : fault (marksOfWords [stop, m]) 0 = some (.endMismatch stop.toNat 0) := by
      have h_first : firstEmpty 0 0 (marksOfWords [stop, m]) = none :=
        if_neg (Nat.not_le.2 (Nat.pos_of_ne_zero h_stop))
      show (if _ then none else _) = _
      rw [if_neg (fun h' => h_stop h'.2.2), h_first]
      exact if_neg h_stop
    rw [if_neg h_stop, h_fault]

/-- On other lines the pass stops at the first token that is empty, if there is one. -/
theorem bind_passFrom {text : String} (h : text.length < UInt32.size)
    (h_count : 0 < words.length / 2) (h_not : ¬ (words.length / 2 = 1 ∧ text.length = 0)) :
    ((passFrom false 0 ⟨0, 0, 0⟩ words).bind fun p => p.close words text) =
      ofMarks (marksOfWords words) text := by
  obtain ⟨m, h_last⟩ := getLast?_marksOfWords h_count
  have h_marks := length_marksOfWords words
  have h_close := Tally.close_after h h_last
  have h_pass := passFrom_false 0 ⟨0, 0, 0⟩ words
  have h_zero : (⟨0, 0, 0⟩ : Tally).stop.toNat = 0 := rfl
  rw [h_zero] at h_pass
  rw [h_pass, ofMarks, fault, h_last]
  dsimp only at h_close ⊢
  rw [if_neg (by omega)]
  -- an empty token stops both with the same error, and without one both look at the last end
  cases h_first : firstEmpty 0 0 (marksOfWords words) with
  | some found => rfl
  | none =>
    dsimp only [Except.bind]
    rw [h_close]
    by_cases h_stop : endIn words (words.length / 2 - 1) = text.length
    · rw [if_pos h_stop, if_pos h_stop]
    · rw [if_neg h_stop, if_neg h_stop]

/-- The exemption of the empty line is decided on words: `text.length` is zero if its word is. -/
theorem emptyLine_flag {text : String} (h : text.length < UInt32.size) :
    (words.length / 2 == 1 && UInt32.ofNat text.length == 0) =
      decide (words.length / 2 = 1 ∧ text.length = 0) := by
  have h_zero : UInt32.ofNat text.length = 0 ↔ text.length = 0 := by
    rw [← UInt32.toNat_inj, UInt32.toNat_ofNat_of_lt' h]
    rfl
  rw [Bool.eq_iff_iff]
  simp only [Bool.and_eq_true, beq_iff_eq, decide_eq_true_eq, h_zero]

/-- The pass reads what `ofEnds` reads, error or not. -/
theorem readEnds_eq (words : List UInt32) (text : String) :
    readEnds words text = ofEnds words text := by
  rw [readEnds, ofEnds]
  rcases Nat.lt_or_ge text.length UInt32.size with h | h
  · rw [if_neg (Nat.not_le.2 h), guardLength_of_lt h]
    by_cases h_odd : words.length % 2 = 1
    · rw [if_pos (by omega), if_pos h_odd]
    rw [if_neg (by omega), if_neg h_odd]
    by_cases h_nil : words = []
    · rw [h_nil]
      rfl
    rw [if_neg (by simpa using h_nil), emptyLine_flag h]
    -- the flag of the pass is set for one token on a text without characters, and only then
    by_cases h_empty : words.length / 2 = 1 ∧ text.length = 0
    · obtain ⟨stop, m, rfl⟩ := List.length_eq_two.1 (show words.length = 2 by omega)
      rw [decide_eq_true h_empty]
      exact bind_passFrom_emptyLine stop m h_empty.2
    · rw [decide_eq_false h_empty]
      exact bind_passFrom h (half_length_pos (by omega) h_nil) h_empty
  · rw [if_pos h, guardLength_of_le h]

/-! ## Accepted buffers -/

/-- What `ofEnds` accepts is short, even, and has marks without a fault. -/
theorem ofMarks_of_ofEnds {text : String} {a : TokenLine} (h : ofEnds words text = .ok a) :
    text.length < UInt32.size ∧ words.length % 2 = 0 ∧
      ofMarks (marksOfWords words) text = .ok a := by
  obtain ⟨h_text, h_ok⟩ := guardLength_eq_ok_iff.1 h
  split at h_ok
  · exact absurd h_ok nofun
  · exact ⟨h_text, by omega, h_ok⟩

theorem toWords_of_ofEnds {text : String} {a : TokenLine} (h : ofEnds words text = .ok a) :
    a.toWords = words ∧ a.text = text := by
  obtain ⟨-, h_even, h_marks⟩ := ofMarks_of_ofEnds h
  obtain ⟨rfl, -⟩ := eq_assemble_of_ofMarks h_marks
  exact ⟨wordsOfMarks_marksOfWords h_even, rfl⟩

/-- `ofEnds` accepts `words` exactly if they fill `text` (`Fills`) or are the one token of an empty
    one (`FillsEmpty`); the line then has this buffer and this text. It fails with `e` exactly if
    `e` is the first fault (`FirstFault`). The one-pass `readEnds` gives the same answer. -/
theorem exists_ofEnds_iff_and_error_iff (words : List UInt32) (text : String)
    (h : text.length < UInt32.size) :
    ((∃ a, ofEnds words text = .ok a) ↔
      Fills words text.length ∨ FillsEmpty words text.length) ∧
    (∀ a, ofEnds words text = .ok a → a.toWords = words ∧ a.text = text) ∧
    (∀ e, ofEnds words text = .error e ↔ FirstFault words text.length e) ∧
    readEnds words text = ofEnds words text := by
  -- words are accepted or have a first fault, and each of the two fixes the answer
  refine ⟨?_, fun _ => toWords_of_ofEnds, ?_, readEnds_eq words text⟩
  · constructor
    · rintro ⟨a, h_ok⟩
      rcases accepted_or_firstFault words text.length with h_accepted | ⟨e, h_fault⟩
      · exact h_accepted
      · exact absurd (h_ok.symm.trans (ofEnds_of_firstFault h h_fault)) nofun
    · intro h_accepted
      exact ⟨_, ofEnds_of_accepted h h_accepted⟩
  · intro e
    constructor
    · intro h_error
      rcases accepted_or_firstFault words text.length with h_accepted | ⟨e', h_fault⟩
      · exact absurd (h_error.symm.trans (ofEnds_of_accepted h h_accepted)) nofun
      · obtain rfl := Except.error.inj (h_error.symm.trans (ofEnds_of_firstFault h h_fault))
        exact h_fault
    · exact ofEnds_of_firstFault h

/-- The second end is below the first, and the last is not the length of the text. -/
def unsortedEnds : List UInt32 :=
  [3, 1, 2, 1, 9, 1]

theorem exists_ofEnds_iff_and_error_iff_unsortedEnds :
    "añ€d".length < UInt32.size ∧
    FirstFault unsortedEnds "añ€d".length (.nonIncreasing 1 3 2) ∧
    readEnds unsortedEnds "añ€d" = .error (.nonIncreasing 1 3 2) := by
  have h_length : "añ€d".length < UInt32.size := by decide
  obtain ⟨-, -, h_error, h_read⟩ := exists_ofEnds_iff_and_error_iff unsortedEnds "añ€d" h_length
  have h_fault : ofEnds unsortedEnds "añ€d" = .error (.nonIncreasing 1 3 2) := by decide
  exact ⟨h_length, (h_error _).1 h_fault, h_read.trans h_fault⟩

/-! ## Lines that can be had -/

/-- `a` is an answer of `ofEnds`, `ofStarts` or `single`, the ways to a line from outside. -/
inductive Constructible : TokenLine → Prop
  | ends {words : List UInt32} {text : String} {a : TokenLine} :
      ofEnds words text = .ok a → Constructible a
  | starts {words : List UInt32} {text : String} {a : TokenLine} :
      ofStarts words text = .ok a → Constructible a
  | single {text : String} {metadata : TokenMetadata} {a : TokenLine} :
      single text metadata = .ok a → Constructible a

/-- `single` is `ofEnds` of a buffer of two words. -/
theorem single_eq_ofEnds (text : String) (metadata : TokenMetadata) :
    single text metadata = ofEnds [UInt32.ofNat text.length, metadata.bits] text := by
  have h_even : [UInt32.ofNat text.length, metadata.bits].length % 2 = 0 := Nat.mod_self 2
  rw [single, ofEnds_of_even h_even]
  rcases Nat.lt_or_ge text.length UInt32.size with h | h
  · rw [marksOfWords, UInt32.toNat_ofNat_of_lt' h]
    rfl
  · rw [guardLength_of_le h, guardLength_of_le h]

namespace Constructible

variable {a : TokenLine}

/-- Every constructible line is an answer of `ofEnds`, and is within the offset range. -/
theorem exists_ofEnds (h : a.Constructible) :
    a.text.length < UInt32.size ∧ ∃ words, ofEnds words a.text = .ok a := by
  obtain ⟨words, text, h_ok⟩ : ∃ words text, ofEnds words text = .ok a := by
    cases h with
    | ends h_ok => exact ⟨_, _, h_ok⟩
    | starts h_ok =>
      rw [ofStarts_eq_ofEnds] at h_ok
      exact ⟨_, _, h_ok⟩
    | single h_ok =>
      rw [single_eq_ofEnds] at h_ok
      exact ⟨_, _, h_ok⟩
  obtain ⟨-, rfl⟩ := toWords_of_ofEnds h_ok
  exact ⟨(ofMarks_of_ofEnds h_ok).1, words, h_ok⟩

/-- The marks of a constructible line have no fault. -/
theorem ofMarks_toList (h : a.Constructible) : ofMarks a.marks.toList a.text = .ok a := by
  obtain ⟨-, words, h_ok⟩ := h.exists_ofEnds
  obtain ⟨-, -, h_marks⟩ := ofMarks_of_ofEnds h_ok
  have h_toList : a.marks.toList = marksOfWords words := by
    rw [(eq_assemble_of_ofMarks h_marks).1, assemble]
  rw [h_toList, h_marks]

/-- What a constructible line keeps beside its marks is what `assemble` computes. -/
theorem assemble_toList (h : a.Constructible) : assemble a.marks.toList a.text = a :=
  (eq_assemble_of_ofMarks h.ofMarks_toList).1.symm

theorem partitions (h : a.Constructible) : a.Partitions a.text :=
  partitions_of_ofMarks h.ofMarks_toList

theorem length_lt (h : a.Constructible) : a.length < UInt32.size := by
  rw [h.partitions.length_eq]
  exact h.exists_ofEnds.1

end Constructible

end TokenLine

end ScopeTokens
