/-
  ScopeTokens.Text.Line

  The lines of a text. `Line.split` keeps each line with the break that ends it,
  so the text is the concatenation of its lines. The last line has no break, and
  is empty if the text ends in one. A text with `n` breaks has `n + 1` lines
  (`length_split`).
-/

import ScopeTokens.Text.LineBreak

namespace ScopeTokens

/-- One line: its characters, and the break that ends it (`[]` on the last line). -/
structure Line where
  content : List Char
  ending : List Char
  deriving DecidableEq, Repr

namespace Line

/-- Number of characters of `l`, its break included. -/
def size (l : Line) : Nat :=
  l.content.length + l.ending.length

/-- `l.content` as a string. -/
def text (l : Line) : String :=
  String.ofList l.content

/-- Puts `c` in front of the first line. -/
def consFirst (c : Char) : List Line → List Line
  | [] => [⟨[c], []⟩]
  | l :: ls => ⟨c :: l.content, l.ending⟩ :: ls

/-- The lines of a text, in order. `\r\n` is one break. -/
def split : List Char → List Line
  | [] => [⟨[], []⟩]
  | '\r' :: '\n' :: cs => ⟨[], ['\r', '\n']⟩ :: split cs
  | c :: cs => if isLineBreak c then ⟨[], [c]⟩ :: split cs else consFirst c (split cs)

/-! ## Splitting -/

theorem length_consFirst (c : Char) {ls : List Line} (h : ls ≠ []) :
    (consFirst c ls).length = ls.length := by
  cases ls with
  | nil => exact absurd rfl h
  | cons l ls => rfl

theorem split_ne_nil (cs : List Char) : split cs ≠ [] := by
  fun_induction split cs with
  | case1 => simp
  | case2 => simp
  | case3 => simp
  | case4 c cs _ _ ih =>
    cases h : split cs with
    | nil => exact absurd h ih
    | cons l ls => simp [consFirst]

/-- A text has one line more than it has breaks. -/
theorem length_split (cs : List Char) : (split cs).length = countBreaks cs + 1 := by
  fun_induction split cs with
  | case1 => rfl
  | case2 cs ih => simp [countBreaks, ih]
  | case3 c cs h_crlf h ih =>
    rw [countBreaks.eq_3 _ _ h_crlf, if_pos h, List.length_cons, ih]
  | case4 c cs h_crlf h ih =>
    rw [countBreaks.eq_3 _ _ h_crlf, if_neg h, length_consFirst c (split_ne_nil cs), ih]

end Line

end ScopeTokens
