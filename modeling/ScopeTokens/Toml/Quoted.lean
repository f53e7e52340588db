/-
  ScopeTokens.Toml.Quoted

  The four kinds of TOML string. Double quotes take escapes and single quotes take
  none; three quotes in a row open a string over several lines, and a break right
  behind them is dropped. In such a string one or two quotes stand for themselves,
  also right before the closing three; and in double quotes a backslash at the end
  of a line joins it to the next text.
-/

namespace ScopeTokens.Toml

/-- `c` may stand in a string or comment as itself: a tab, or no control character. -/
def isPlainChar (c : Char) : Bool :=
  c == '\t' || (0x20 ≤ c.toNat && c.toNat != 0x7f)

/-- `c` is a blank within a line. -/
def isLineBlank (c : Char) : Bool :=
  c == ' ' || c == '\t'

/-- The value of `c` as a digit of `base`, which is at most sixteen. -/
def digitValue? (base : Nat) (c : Char) : Option Nat :=
  let v :=
    if c.isDigit then c.toNat - '0'.toNat
    else if 'a' ≤ c && c ≤ 'f' then c.toNat - 'a'.toNat + 10
    else if 'A' ≤ c && c ≤ 'F' then c.toNat - 'A'.toNat + 10
    else 16
  if v < base then some v else none

/-- The number with the digits `cs` in `base`. -/
def numberOf? (base : Nat) (cs : List Char) : Option Nat :=
  cs.foldlM (fun n c => (digitValue? base c).map (n * base + ·)) 0

/-- The character with the code point `cs`, in hexadecimal; it must be a Unicode scalar value. -/
def charOfHex? (cs : List Char) : Option Char := do
  let n ← numberOf? 16 cs
  if n.isValidChar then some (Char.ofNat n) else none

/-- The character that a one-letter escape stands for. -/
def escaped? : Char → Option Char
  | 'b' => some '\x08'
  | 't' => some '\t'
  | 'n' => some '\n'
  | 'f' => some '\x0c'
  | 'r' => some '\r'
  | 'e' => some '\x1b'
  | '"' => some '"'
  | '\\' => some '\\'
  | _ => none

/-- Reads an escape behind its backslash: its character, and the text behind it. -/
def readEscape : List Char → Option (Char × List Char)
  | 'x' :: a :: b :: cs => (charOfHex? [a, b]).map (·, cs)
  | 'u' :: a :: b :: c :: d :: cs => (charOfHex? [a, b, c, d]).map (·, cs)
  | 'U' :: a :: b :: c :: d :: e :: f :: g :: h :: cs =>
    (charOfHex? [a, b, c, d, e, f, g, h]).map (·, cs)
  | c :: cs => (escaped? c).map (·, cs)
  | [] => none

theorem length_of_readEscape {cs rest : List Char} {c : Char}
    (h : readEscape cs = some (c, rest)) : rest.length < cs.length := by
  unfold readEscape at h
  split at h
  case h_5 => cases h
  all_goals
    obtain ⟨_, _, h_pair⟩ := Option.map_eq_some_iff.1 h
    cases h_pair
    simp only [List.length_cons]
    omega

/-- Reads `\n` or `\r\n`, with the text behind it. -/
def readBreak : List Char → Option (List Char × List Char)
  | '\n' :: cs => some (['\n'], cs)
  | '\r' :: '\n' :: cs => some (['\r', '\n'], cs)
  | _ => none

theorem length_of_readBreak {cs nl rest : List Char} (h : readBreak cs = some (nl, rest)) :
    rest.length < cs.length := by
  unfold readBreak at h
  split at h
  case h_3 => cases h
  all_goals
    cases h
    simp only [List.length_cons]
    omega

/-- `cs` without the break at its front, if there is one. -/
def dropBreak (cs : List Char) : List Char :=
  match readBreak cs with
  | some (_, rest) => rest
  | none => cs

/-- Drops blanks and breaks. -/
def dropBlankLines : List Char → List Char
  | ' ' :: cs => dropBlankLines cs
  | '\t' :: cs => dropBlankLines cs
  | '\n' :: cs => dropBlankLines cs
  | '\r' :: '\n' :: cs => dropBlankLines cs
  | cs => cs

theorem length_dropBlankLines_le (cs : List Char) : (dropBlankLines cs).length ≤ cs.length := by
  fun_induction dropBlankLines cs with
  | case5 => exact Nat.le_refl _
  | _ => simp only [List.length_cons]; omega

theorem length_dropWhile_le {α : Type} (p : α → Bool) (cs : List α) :
    (cs.dropWhile p).length ≤ cs.length :=
  (List.dropWhile_sublist p).length_le

/-- Puts `front` in front of a string that was read. -/
def prepend (front : List Char) (r : Option (List Char × List Char)) :
    Option (List Char × List Char) :=
  r.map fun (s, rest) => (front ++ s, rest)

/-- Reads a string in double quotes behind the first quote: its characters, and the text behind
    it. -/
def readBasic (cs : List Char) : Option (List Char × List Char) :=
  match cs with
  | [] => none
  | '"' :: rest => some ([], rest)
  | '\\' :: rest =>
    match h : readEscape rest with
    | some (c, rest') =>
      have := length_of_readEscape h
      prepend [c] (readBasic rest')
    | none => none
  | c :: rest => if isPlainChar c then prepend [c] (readBasic rest) else none
termination_by cs.length
decreasing_by all_goals (simp only [List.length_cons]; omega)

/-- Reads a string in single quotes behind the first quote. -/
def readLiteral : List Char → Option (List Char × List Char)
  | [] => none
  | '\'' :: rest => some ([], rest)
  | c :: rest => if isPlainChar c then prepend [c] (readLiteral rest) else none

/-- Reads a string in three double quotes, behind these and the break that may follow them. -/
def readLongBasic (cs : List Char) : Option (List Char × List Char) :=
  match cs with
  | [] => none
  | '"' :: '"' :: '"' :: '"' :: '"' :: rest => some (['"', '"'], rest)
  | '"' :: '"' :: '"' :: '"' :: rest => some (['"'], rest)
  | '"' :: '"' :: '"' :: rest => some ([], rest)
  | '\\' :: rest =>
    match h : readEscape rest with
    | some (c, rest') =>
      have := length_of_readEscape h
      prepend [c] (readLongBasic rest')
    | none =>
      match h_nl : readBreak (rest.dropWhile isLineBlank) with
      | some (_, rest') =>
        have := length_of_readBreak h_nl
        have := length_dropWhile_le isLineBlank rest
        have := length_dropBlankLines_le rest'
        readLongBasic (dropBlankLines rest')
      | none => none
  | '\r' :: '\n' :: rest => prepend ['\r', '\n'] (readLongBasic rest)
  | c :: rest =>
    if c == '\n' || isPlainChar c then prepend [c] (readLongBasic rest) else none
termination_by cs.length
decreasing_by all_goals (simp only [List.length_cons]; omega)

/-- Reads a string in three single quotes, behind these and the break that may follow them. -/
def readLongLiteral : List Char → Option (List Char × List Char)
  | [] => none
  | '\'' :: '\'' :: '\'' :: '\'' :: '\'' :: rest => some (['\'', '\''], rest)
  | '\'' :: '\'' :: '\'' :: '\'' :: rest => some (['\''], rest)
  | '\'' :: '\'' :: '\'' :: rest => some ([], rest)
  | '\r' :: '\n' :: rest => prepend ['\r', '\n'] (readLongLiteral rest)
  | c :: rest => if c == '\n' || isPlainChar c then prepend [c] (readLongLiteral rest) else none

/-- Reads a string of any of the four kinds. -/
def readString : List Char → Option (List Char × List Char)
  | '"' :: '"' :: '"' :: rest => readLongBasic (dropBreak rest)
  | '"' :: rest => readBasic rest
  | '\'' :: '\'' :: '\'' :: rest => readLongLiteral (dropBreak rest)
  | '\'' :: rest => readLiteral rest
  | _ => none

end ScopeTokens.Toml
