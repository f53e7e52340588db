/-
  ScopeTokens.Text.LineBreak

  Line breaks. Seven characters end a line (`isLineBreak`): line feed, vertical
  tab, form feed, carriage return, next line (U+0085), line separator (U+2028) and
  paragraph separator (U+2029). A carriage return directly before a line feed is
  one break with it (`countBreaks`).
-/

namespace ScopeTokens

/-- `c` ends a line: LF, VT, FF, CR, NEL, LS or PS. -/
def isLineBreak (c : Char) : Bool :=
  c == '\n' || c == '\x0b' || c == '\x0c' || c == '\r' || c == '\u0085' || c == '\u2028' ||
    c == '\u2029'

/-- Number of line breaks in a text; `\r\n` counts once. -/
def countBreaks : List Char → Nat
  | [] => 0
  | '\r' :: '\n' :: cs => countBreaks cs + 1
  | c :: cs => if isLineBreak c then countBreaks cs + 1 else countBreaks cs

theorem countBreaks_nil : countBreaks [] = 0 := rfl

theorem countBreaks_crlf (cs : List Char) :
    countBreaks ('\r' :: '\n' :: cs) = countBreaks cs + 1 := rfl

/-- A `c` with `isLineBreak c = false` leaves the count alone. -/
theorem countBreaks_cons_of_not_break {c : Char} (h : isLineBreak c = false) (cs : List Char) :
    countBreaks (c :: cs) = countBreaks cs := by
  cases cs with
  | nil => simp [countBreaks, h]
  | cons d ds =>
    by_cases h_cr : c = '\r'
    · subst h_cr; simp [isLineBreak] at h
    · simp [countBreaks, h, h_cr]

end ScopeTokens
