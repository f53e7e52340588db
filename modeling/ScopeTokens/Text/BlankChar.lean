/-
  ScopeTokens.Text.BlankChar

  White space, which separates the words of a selector: the twenty-five code
  points with the Unicode property `White_Space`. `wordsOf` splits a text at them.
-/

import ScopeTokens.Text.CharRanges

namespace ScopeTokens

/-- Code point ranges, in ascending order, of white space. -/
def blankRanges : List (Nat × Nat) :=
  [(0x9, 0xD), (0x20, 0x20), (0x85, 0x85), (0xA0, 0xA0), (0x1680, 0x1680), (0x2000, 0x200A),
   (0x2028, 0x2029), (0x202F, 0x202F), (0x205F, 0x205F), (0x3000, 0x3000)]

/-- `c` has the Unicode property `White_Space`. -/
def isBlankChar (c : Char) : Bool :=
  Char.inRanges c blankRanges

/-- The pieces of a text between the characters with `isBlankChar`, empty pieces included. -/
def blankPieces : List Char → List (List Char)
  | [] => [[]]
  | c :: cs =>
    if isBlankChar c then [] :: blankPieces cs
    else match blankPieces cs with
      | [] => [[c]]
      | w :: ws => (c :: w) :: ws

/-- The words of `s`: its maximal runs of characters without `isBlankChar`, in order. -/
def wordsOf (s : String) : List String :=
  ((blankPieces s.toList).filter fun w => !w.isEmpty).map String.ofList

end ScopeTokens
