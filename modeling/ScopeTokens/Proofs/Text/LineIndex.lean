/-
  ScopeTokens.Proofs.Text.LineIndex

  Lines by an index of their starts. `starts` has offset `0` and every offset
  behind the last character of a break; `endingLength` looks back from the end of
  a line for its break. Both are independent of `Line.split`, which reads from the
  front. On every text they agree with it: there is one line more than there are
  breaks, `stretch` cuts out the lines with their breaks (`stretch_eq`),
  `endingLength` is the length of the break (`endingLength_whole`), and the lines
  with their breaks concatenate to the text (`lines_lossless`).
-/

import ScopeTokens.Proofs.Text.Resolution
import ScopeTokens.Text.Document

namespace ScopeTokens

/-- `cs` is one line break. -/
def IsBreak (cs : List Char) : Prop :=
  cs = ['\r', '\n'] ∨ ∃ c, isLineBreak c = true ∧ cs = [c]

namespace LineIndex

/-- `cs[i]` is the last character of a break. -/
def endsBreak (cs : List Char) (i : Nat) : Bool :=
  match cs[i]? with
  | none => false
  | some c => isLineBreak c && !(c == '\r' && cs[i + 1]? == some '\n')

/-- The offsets at which lines start. -/
def starts (cs : List Char) : List Nat :=
  0 :: ((List.range cs.length).filter (endsBreak cs)).map (· + 1)

/-- Number of lines, by `starts`. -/
def lineCount (cs : List Char) : Nat :=
  (starts cs).length

/-- Offset at which `line` starts, `cs.length` past the last one. -/
def start (cs : List Char) (line : Nat) : Nat :=
  (starts cs)[line]?.getD cs.length

/-- The characters of `line`, its break included. -/
def stretch (cs : List Char) (line : Nat) : List Char :=
  (cs.take (start cs (line + 1))).drop (start cs line)

/-- Length of the break at the end of `l`, by its last two characters. -/
def endingLength (l : List Char) : Nat :=
  match l.getLast? with
  | none => 0
  | some last =>
    if isLineBreak last then
      if last == '\n' && 2 ≤ l.length && l[l.length - 2]? == some '\r' then 2 else 1
    else 0

/-- Number of characters of `line` without its break, `0` past the last one. -/
def lineLength (cs : List Char) (line : Nat) : Nat :=
  if lineCount cs ≤ line then 0
  else (stretch cs line).length - endingLength (stretch cs line)

/-- The characters of `line` without its break, `[]` past the last one. -/
def lineContent (cs : List Char) (line : Nat) : List Char :=
  if lineCount cs ≤ line then []
  else (stretch cs line).take ((stretch cs line).length - endingLength (stretch cs line))

/-- The break at the end of `line`. -/
def lineEnding (cs : List Char) (line : Nat) : List Char :=
  (stretch cs line).drop ((stretch cs line).length - endingLength (stretch cs line))

end LineIndex

/-! ## Lines with their breaks -/

namespace Line

/-- The characters of `l`, its break included. -/
def whole (l : Line) : List Char :=
  l.content ++ l.ending

theorem length_whole (l : Line) : l.whole.length = l.size :=
  List.length_append

theorem totalSize_cons (l : Line) (ls : List Line) : totalSize (l :: ls) = l.size + totalSize ls :=
  rfl

theorem consFirst_cons (c : Char) (l : Line) (ls : List Line) :
    consFirst c (l :: ls) = ⟨c :: l.content, l.ending⟩ :: ls := rfl

theorem size_cons_content (c : Char) (l : Line) :
    (⟨c :: l.content, l.ending⟩ : Line).size = l.size + 1 := by
  simp only [size, List.length_cons]
  omega

/-- `Line.split` loses nothing. -/
theorem flatMap_whole_split (cs : List Char) : (split cs).flatMap whole = cs := by
  fun_induction split cs with
  | case1 => rfl
  | case2 cs ih => rw [List.flatMap_cons, ih]; rfl
  | case3 c cs h_crlf h_break ih => rw [List.flatMap_cons, ih]; rfl
  | case4 c cs h_crlf h_break ih =>
    obtain ⟨l, ls, h_split⟩ := List.exists_cons_of_ne_nil (split_ne_nil cs)
    rw [h_split] at ih ⊢
    rw [consFirst_cons, List.flatMap_cons, whole, List.cons_append, List.cons_append]
    rw [List.flatMap_cons, whole] at ih
    rw [ih]

/-- The content of a line holds no break. -/
theorem not_break_of_mem_content {cs : List Char} {l : Line} (h : l ∈ split cs) :
    ∀ c ∈ l.content, isLineBreak c = false := by
  fun_induction split cs generalizing l with
  | case1 =>
    obtain rfl : l = ⟨[], []⟩ := by simpa using h
    simp
  | case2 cs ih =>
    rcases List.mem_cons.1 h with rfl | h
    · simp
    · exact ih h
  | case3 c cs h_crlf h_break ih =>
    rcases List.mem_cons.1 h with rfl | h
    · simp
    · exact ih h
  | case4 c cs h_crlf h_break ih =>
    obtain ⟨l', ls, h_split⟩ := List.exists_cons_of_ne_nil (split_ne_nil cs)
    rw [h_split] at ih h
    rw [consFirst_cons] at h
    rcases List.mem_cons.1 h with rfl | h
    -- the first line is the one that `c` was put in front of
    · intro d h_d
      rcases List.mem_cons.1 h_d with rfl | h_d
      · simpa using h_break
      · exact ih List.mem_cons_self d h_d
    · exact ih (List.mem_cons_of_mem l' h)

/-- All lines but the last end in a break, and the last has none. -/
theorem split_eq_append (cs : List Char) :
    ∃ ls content, split cs = ls ++ [⟨content, []⟩] ∧ ∀ l ∈ ls, IsBreak l.ending := by
  fun_induction split cs with
  | case1 => exact ⟨[], [], rfl, by simp⟩
  | case2 cs ih =>
    obtain ⟨ls, content, h_split, h_breaks⟩ := ih
    refine ⟨⟨[], ['\r', '\n']⟩ :: ls, content, ?_, ?_⟩
    · rw [h_split, List.cons_append]
    · rw [List.forall_mem_cons]
      exact ⟨.inl rfl, h_breaks⟩
  | case3 c cs h_crlf h_break ih =>
    obtain ⟨ls, content, h_split, h_breaks⟩ := ih
    refine ⟨⟨[], [c]⟩ :: ls, content, ?_, ?_⟩
    · rw [h_split, List.cons_append]
    · rw [List.forall_mem_cons]
      exact ⟨.inr ⟨c, h_break, rfl⟩, h_breaks⟩
  | case4 c cs h_crlf h_break ih =>
    obtain ⟨ls, content, h_split, h_breaks⟩ := ih
    rw [h_split]
    -- the first line may be the last one
    cases ls with
    | nil => exact ⟨[], c :: content, rfl, h_breaks⟩
    | cons l ls =>
      refine ⟨⟨c :: l.content, l.ending⟩ :: ls, content, rfl, ?_⟩
      rw [List.forall_mem_cons] at h_breaks ⊢
      exact h_breaks

/-! ## Where lines start -/

/-- The starts of the lines `ls`, by the sizes of the lines above. -/
def starts (ls : List Line) : List Nat :=
  (List.range ls.length).map fun n => totalSize (ls.take n)

theorem starts_cons (l : Line) (ls : List Line) :
    starts (l :: ls) = 0 :: (starts ls).map (l.size + ·) := by
  rw [starts, List.length_cons, List.range_succ_eq_map, List.map_cons, List.map_map, starts,
    List.map_map]
  rfl

/-- Line `n` of a concatenation of lines is found between the sizes of the lines above it and of
    those up to it. -/
theorem drop_take_flatMap_whole {ls : List Line} {n : Nat} {l : Line} (h : ls[n]? = some l) :
    ((ls.flatMap whole).take (totalSize (ls.take (n + 1)))).drop (totalSize (ls.take n)) =
      l.whole := by
  induction ls generalizing n with
  | nil => simp at h
  | cons l' ls ih =>
    cases n with
    | zero =>
      obtain rfl : l' = l := by simpa using h
      have h_size : totalSize ((l' :: ls).take 1) = l'.whole.length := by
        rw [length_whole]
        rfl
      rw [Nat.zero_add, h_size, List.flatMap_cons, List.take_left, List.take_zero]
      rfl
    | succ n =>
      rw [List.getElem?_cons_succ] at h
      rw [List.take_succ_cons, List.take_succ_cons, totalSize_cons, totalSize_cons,
        List.flatMap_cons, ← length_whole, List.take_length_add_append,
        List.drop_length_add_append, ih h]

end Line

namespace LineIndex

theorem endsBreak_cons_succ (c : Char) (cs : List Char) (i : Nat) :
    endsBreak (c :: cs) (i + 1) = endsBreak cs i := by
  rw [endsBreak, List.getElem?_cons_succ, List.getElem?_cons_succ, endsBreak]

theorem endsBreak_cons_zero_iff {c : Char} {cs : List Char} :
    endsBreak (c :: cs) 0 = true ↔ isLineBreak c = true ∧ ¬ Joins [c] cs := by
  rw [joins_singleton, List.head?_eq_getElem?, not_and_or]
  simp [endsBreak]

/-- To put `c` in front moves all starts by one. The start `0` of `cs` stays as `1` only if `c` ends
    a break. -/
theorem starts_cons (c : Char) (cs : List Char) :
    starts (c :: cs) =
      0 :: (if endsBreak (c :: cs) 0 then starts cs else (starts cs).tail).map (· + 1) := by
  have h_rest : endsBreak (c :: cs) ∘ Nat.succ = endsBreak cs :=
    funext fun i => endsBreak_cons_succ c cs i
  rw [starts, List.length_cons, List.range_succ_eq_map, List.filter_cons, List.filter_map, h_rest]
  split
  · rfl
  · rfl

/-- The index finds the starts of the lines of `Line.split`. -/
theorem starts_eq (cs : List Char) : starts cs = Line.starts (Line.split cs) := by
  fun_induction Line.split cs with
  | case1 => rfl
  | case2 cs ih =>
    -- the carriage return completes no break, the line feed does
    have h_cr : ¬ endsBreak ('\r' :: '\n' :: cs) 0 = true := Bool.false_ne_true
    have h_lf : endsBreak ('\n' :: cs) 0 = true := rfl
    have h_two : (fun n : Nat => n + 1) ∘ (fun n : Nat => n + 1) =
        ((⟨[], ['\r', '\n']⟩ : Line).size + ·) := funext fun n => Nat.add_comm n 2
    rw [starts_cons, if_neg h_cr, starts_cons, if_pos h_lf, List.tail_cons, List.map_map, h_two, ih,
      Line.starts_cons]
  | case3 c cs h_crlf h_break ih =>
    have h_ends := endsBreak_cons_zero_iff.2 ⟨h_break, not_joins_singleton_iff.2 h_crlf⟩
    have h_one : (fun n : Nat => n + 1) = ((⟨[], [c]⟩ : Line).size + ·) :=
      funext fun n => Nat.add_comm n 1
    rw [starts_cons, if_pos h_ends, h_one, ih, Line.starts_cons]
  | case4 c cs h_crlf h_break ih =>
    have h_ends : ¬ endsBreak (c :: cs) 0 = true := fun h => h_break (endsBreak_cons_zero_iff.1 h).1
    obtain ⟨l, ls, h_split⟩ := List.exists_cons_of_ne_nil (Line.split_ne_nil cs)
    rw [h_split] at ih ⊢
    have h_one : (fun n : Nat => n + 1) ∘ (l.size + ·) =
        ((⟨c :: l.content, l.ending⟩ : Line).size + ·) := funext fun n => by
      rw [Line.size_cons_content]
      show l.size + n + 1 = l.size + 1 + n
      omega
    rw [starts_cons, if_neg h_ends, ih, Line.starts_cons, List.tail_cons, List.map_map, h_one,
      Line.consFirst_cons, Line.starts_cons]

theorem lineCount_eq (cs : List Char) : lineCount cs = (Line.split cs).length := by
  rw [lineCount, starts_eq, Line.starts, List.length_map, List.length_range]

theorem start_eq (cs : List Char) (line : Nat) :
    start cs line = Line.totalSize ((Line.split cs).take line) := by
  rw [start, starts_eq, Line.starts, List.getElem?_map]
  rcases Nat.lt_or_ge line (Line.split cs).length with h | h
  · rw [List.getElem?_range h]
    rfl
  · rw [List.getElem?_eq_none (by rwa [List.length_range]), List.take_of_length_le h,
      Line.totalSize_split]
    rfl

theorem stretch_eq {cs : List Char} {line : Nat} {l : Line}
    (h : (Line.split cs)[line]? = some l) : stretch cs line = l.whole := by
  have h_cut := Line.drop_take_flatMap_whole h
  rw [Line.flatMap_whole_split] at h_cut
  rw [stretch, start_eq, start_eq, h_cut]

/-! ## Looking back -/

/-- `endingLength` is the length of the break of a line. -/
theorem endingLength_whole {l : Line} (h_content : ∀ c ∈ l.content, isLineBreak c = false)
    (h_ending : l.ending = [] ∨ IsBreak l.ending) : endingLength l.whole = l.ending.length := by
  obtain ⟨content, ending⟩ := l
  rcases h_ending with rfl | rfl | ⟨c, h_break, rfl⟩
  · rw [Line.whole, List.append_nil, endingLength]
    cases h_last : content.getLast? with
    | none => rfl
    | some last => simp [h_content last (List.mem_of_getLast? h_last)]
  · simp [Line.whole, endingLength, isLineBreak]
  · have h_last : (Line.whole ⟨content, [c]⟩).getLast? = some c := List.getLast?_concat
    have h_alone : ¬ (c == '\n' && 2 ≤ (Line.whole ⟨content, [c]⟩).length &&
        (Line.whole ⟨content, [c]⟩)[(Line.whole ⟨content, [c]⟩).length - 2]? ==
          some '\r') = true := by
      rw [Line.whole, List.length_append, List.length_singleton, Bool.and_eq_true,
        Bool.and_eq_true, decide_eq_true_eq, beq_iff_eq, beq_iff_eq]
      rintro ⟨⟨-, h_two⟩, h_cr⟩
      -- the character in front of `c` is on the line, which has no breaks
      rw [List.getElem?_append_left (by omega)] at h_cr
      exact absurd (h_content _ (List.mem_of_getElem? h_cr)) (by decide)
    rw [endingLength, h_last]
    dsimp only
    rw [if_pos h_break, if_neg h_alone]
    rfl

section

variable {cs : List Char} {line : Nat} {l : Line} (h : (Line.split cs)[line]? = some l)

include h

theorem ending_of_getElem? :
    if line + 1 = (Line.split cs).length then l.ending = [] else IsBreak l.ending := by
  obtain ⟨ls, content, h_split, h_closed⟩ := Line.split_eq_append cs
  rw [h_split] at h ⊢
  rw [List.length_append, List.length_singleton]
  rcases Nat.lt_or_ge line ls.length with h_lt | h_ge
  · rw [List.getElem?_append_left h_lt] at h
    rw [if_neg (by omega)]
    exact h_closed l (List.mem_of_getElem? h)
  · rw [List.getElem?_append_right h_ge, List.getElem?_singleton] at h
    split at h
    · rw [if_pos (by omega), ← Option.some.inj h]
    · exact absurd h nofun

theorem endingLength_stretch : endingLength (stretch cs line) = l.ending.length := by
  rw [stretch_eq h]
  refine endingLength_whole (Line.not_break_of_mem_content (List.mem_of_getElem? h)) ?_
  have h_ending := ending_of_getElem? h
  split at h_ending
  · exact .inl h_ending
  · exact .inr h_ending

/-- Less its break, a `stretch` has the length of the content. -/
theorem length_stretch_sub : (stretch cs line).length - endingLength (stretch cs line) =
    l.content.length := by
  rw [endingLength_stretch h, stretch_eq h, Line.length_whole, Line.size, Nat.add_sub_cancel]

theorem not_lineCount_le : ¬ lineCount cs ≤ line := by
  rw [lineCount_eq]
  exact Nat.not_le.2 (List.getElem?_eq_some_iff.1 h).1

theorem lineLength_eq : lineLength cs line = l.content.length := by
  rw [lineLength, if_neg (not_lineCount_le h), length_stretch_sub h]

theorem lineContent_eq : lineContent cs line = l.content := by
  rw [lineContent, if_neg (not_lineCount_le h), length_stretch_sub h, stretch_eq h, Line.whole,
    List.take_left]

theorem lineEnding_eq : lineEnding cs line = l.ending := by
  rw [lineEnding, length_stretch_sub h, stretch_eq h, Line.whole, List.drop_left]

end

end LineIndex

/-! ## Documents -/

namespace Document

open LineIndex hiding lineCount lineLength

variable (d : Document)

theorem lineCount_le_of_none {line : Nat} (h : d.lines[line]? = none) :
    LineIndex.lineCount d.text.toList ≤ line := by
  rwa [LineIndex.lineCount_eq, ← List.getElem?_eq_none_iff]

theorem toList_lineText {line : Nat} {l : Line} (h : d.lines[line]? = some l) :
    (d.lineText line).toList = l.content := by
  rw [lineText, h]
  exact String.toList_ofList

/-- `lineText` of a document is `lineContent` of its text. -/
theorem toList_lineText_eq_lineContent (line : Nat) :
    (d.lineText line).toList = lineContent d.text.toList line := by
  cases h : d.lines[line]? with
  | none =>
    rw [lineText, h, lineContent, if_pos (d.lineCount_le_of_none h)]
    rfl
  | some l => rw [lineContent_eq h, d.toList_lineText h]

theorem lineLength_eq_lineIndex (line : Nat) :
    d.lineLength line = LineIndex.lineLength d.text.toList line := by
  cases h : d.lines[line]? with
  | none =>
    rw [lineLength, h, LineIndex.lineLength, if_pos (d.lineCount_le_of_none h)]
    rfl
  | some l =>
    rw [lineLength, h, LineIndex.lineLength_eq h]
    rfl

/-- `lineText` and `lineEnding` of all lines, in order, are the text. -/
theorem flatMap_lineText :
    ((List.range d.lineCount).flatMap fun line =>
      (d.lineText line).toList ++ lineEnding d.text.toList line) = d.text.toList := by
  have h_map : ((List.range d.lineCount).map fun line =>
      (d.lineText line).toList ++ lineEnding d.text.toList line) = d.lines.map Line.whole := by
    apply List.ext_getElem
    · rw [List.length_map, List.length_map, List.length_range, lineCount]
    · intro line h_line h_lt
      rw [List.length_map] at h_lt
      have h := List.getElem?_eq_getElem h_lt
      rw [List.getElem_map, List.getElem_map, List.getElem_range, d.toList_lineText h,
        lineEnding_eq h, Line.whole]
  rw [List.flatMap_def, h_map, ← List.flatMap_def, lines, Line.flatMap_whole_split]

/-- `lineCount` is `countBreaks` plus one. On every line, `lineText` holds no break and has
    `lineLength` characters; `lineEnding` is a break on every line but the last, where it is empty.
    The texts and endings of all lines, in order, concatenate to the text. Past the last line
    `lineText` is empty and `lineLength` is `0`. `d.lineCount`, `lineText` and `lineLength`, which
    come from `Line.split`, agree with `LineIndex.lineCount`, `lineContent` and `lineLength`, which
    come from `starts` and of looking back with `endingLength`. -/
theorem lines_lossless :
    d.lineCount = countBreaks d.text.toList + 1 ∧
    (∀ line < d.lineCount,
      (∀ c ∈ (d.lineText line).toList, isLineBreak c = false) ∧
      d.lineLength line = (d.lineText line).length ∧
      if line + 1 = d.lineCount then lineEnding d.text.toList line = []
      else IsBreak (lineEnding d.text.toList line)) ∧
    ((List.range d.lineCount).flatMap fun line =>
      (d.lineText line).toList ++ lineEnding d.text.toList line) = d.text.toList ∧
    (∀ line, d.lineCount ≤ line → d.lineText line = "" ∧ d.lineLength line = 0) ∧
    d.lineCount = LineIndex.lineCount d.text.toList ∧
    ∀ line, (d.lineText line).toList = lineContent d.text.toList line ∧
      d.lineLength line = LineIndex.lineLength d.text.toList line := by
  refine ⟨Line.length_split _, fun line h_line => ?_, d.flatMap_lineText, fun line h_line => ?_,
    (LineIndex.lineCount_eq _).symm,
    fun line => ⟨d.toList_lineText_eq_lineContent line, d.lineLength_eq_lineIndex line⟩⟩
  · have h := List.getElem?_eq_getElem h_line
    refine ⟨?_, ?_, ?_⟩
    · rw [d.toList_lineText h]
      exact Line.not_break_of_mem_content (List.mem_of_getElem? h)
    · rw [← String.length_toList, d.toList_lineText h, lineLength, h]
      rfl
    · rw [lineEnding_eq h]
      exact ending_of_getElem? h
  · rw [lineText, lineLength, List.getElem?_eq_none h_line]
    exact ⟨rfl, rfl⟩

/-- `\r\n` is one break, but only with nothing in between. -/
example : (List.range 5).map (lineEnding ['\r', '\r', '\n', '\n', '\r']) =
    [['\r'], ['\r', '\n'], ['\n'], ['\r'], []] := by decide

end Document

end ScopeTokens
