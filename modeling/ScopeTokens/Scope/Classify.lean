/-
  ScopeTokens.Scope.Classify

  The kind of token that a scope stack stands for. `classify` searches the names
  of the stack, joined by spaces, from the left for the first of five keywords
  that stands as a whole word: `comment`, `string`, `regex`, `regexp` and
  `meta.embedded`. An embedded region is of kind `other`, and still ends the
  search, so that what it holds is not taken for a comment or string of its host.
-/

import ScopeTokens.Scope.Name
import ScopeTokens.Text.WordChar
import ScopeTokens.Token.Type

namespace ScopeTokens

/-- The neighbour is a word character; `none` is an end of the text. -/
def isWordSide : Option Char → Bool
  | none => false
  | some c => isWordChar c

/-- There is a word boundary (`\b`) between two neighbours: exactly one of them is a word
    character. -/
def isBoundary (before after : Option Char) : Bool :=
  isWordSide before != isWordSide after

/-- The keywords with the kinds they stand for. `keywordHere` tries them in this order. -/
def typeKeywords : List (List Char × TokenType) :=
  [("comment".toList, .comment),
   ("string".toList, .string),
   ("regex".toList, .regex),
   ("regexp".toList, .regex),
   ("meta.embedded".toList, .other)]

/-- `cs` starts with `keyword`, and there is a word boundary behind it. -/
def startsWithKeyword (keyword cs : List Char) : Bool :=
  match keyword.isPrefixOf? cs with
  | some rest => isBoundary keyword.getLast? rest.head?
  | none => false

/-- The kind of the keyword at the front of `cs`, if one stands there as a whole word; `before` is
    the character in front of `cs`. -/
def keywordHere (before : Option Char) (cs : List Char) : Option TokenType :=
  if isBoundary before cs.head? then
    (typeKeywords.find? fun k => startsWithKeyword k.1 cs).map Prod.snd
  else none

/-- The kind of the leftmost keyword in `cs`; `before` is the character in front of `cs`. -/
def firstKeyword (before : Option Char) : List Char → Option TokenType
  | [] => none
  | c :: cs =>
    match keywordHere before (c :: cs) with
    | some t => some t
    | none => firstKeyword (some c) cs

/-- The kind of the leftmost keyword in `s`, `other` if there is none. -/
def classifyText (s : String) : TokenType :=
  (firstKeyword none s.toList).getD .other

/-- The kind of a list of scope names. A single name is searched as it stands, and only from two on
    are they joined by spaces. -/
def classifyNames : List String → TokenType
  | [] => .other
  | [name] => classifyText name
  | names => classifyText (" ".intercalate names)

/-- The kind of a token under `stack`: `classifyNames` of the names of its scopes. -/
def classify (stack : ScopeStack) : TokenType :=
  classifyNames (stack.map ScopeName.name)

/-- The empty stack is of kind `other`. -/
theorem classify_nil : classify [] = .other := rfl

end ScopeTokens
