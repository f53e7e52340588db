/-
  ScopeTokens.Scope.Selector

  Scope selectors, lists of parts separated by white space. A selector matches a
  stack if every part, in order, starts some scope further in than the part before
  it. `matchParts` takes the first scope that a part starts, and never goes back.
-/

import ScopeTokens.Scope.Name
import ScopeTokens.Text.BlankChar

namespace ScopeTokens

/-- The parts of a selector, in order. -/
structure ScopeSelector where
  parts : List String
  deriving DecidableEq, Repr

namespace ScopeSelector

/-- Reads a selector: its parts are the words of `s`. -/
def parse (s : String) : ScopeSelector :=
  ⟨wordsOf s⟩

/-- The selector has no parts. -/
def isEmpty (sel : ScopeSelector) : Bool :=
  sel.parts.isEmpty

/-- The text of `scope` starts with `part`; the part may end inside a segment. -/
def partFits (part : String) (scope : ScopeName) : Bool :=
  part.toList.isPrefixOf scope.chars

/-- The parts start scopes of the stack, in order. A part takes the first scope that it starts, and
    what is left of the parts is matched against the scopes behind it. -/
def matchParts : List String → ScopeStack → Bool
  | [], _ => true
  | _ :: _, [] => false
  | p :: ps, s :: ss => if partFits p s then matchParts ps ss else matchParts (p :: ps) ss

/-- `sel` matches `stack`. -/
def admits (sel : ScopeSelector) (stack : ScopeStack) : Bool :=
  matchParts sel.parts stack

theorem matchParts_nil (stack : ScopeStack) : matchParts [] stack = true := by
  cases stack <;> rfl

/-- A selector without parts matches every stack. -/
theorem admits_of_isEmpty {sel : ScopeSelector} (h : sel.isEmpty = true) (stack : ScopeStack) :
    sel.admits stack = true := by
  unfold admits
  rw [List.isEmpty_iff.1 h, matchParts_nil]

end ScopeSelector

/-- The selector written as `selector` matches `stack`. -/
def matchScope (selector : String) (stack : ScopeStack) : Bool :=
  (ScopeSelector.parse selector).admits stack

end ScopeTokens
