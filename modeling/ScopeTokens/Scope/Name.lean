/-
  ScopeTokens.Scope.Name

  Scope names and scope stacks. A `ScopeName` is a list of segments joined by
  dots, such as `string.quoted.double`. A `ScopeStack` has the scopes of one token
  from the outermost to the innermost; `display` writes them with spaces in
  between.
-/

namespace ScopeTokens

/-- A scope name, such as `string.quoted.double`. -/
structure ScopeName where
  name : String
  deriving DecidableEq, Repr, Inhabited

namespace ScopeName

/-- The characters of the name. -/
def chars (s : ScopeName) : List Char :=
  s.name.toList

/-- `s` is `prefixName`, or continues it with a dot and further segments. -/
def hasSegmentPrefix (s : ScopeName) (prefixName : String) : Bool :=
  match prefixName.toList.isPrefixOf? s.chars with
  | some [] => true
  | some (c :: _) => c == '.'
  | none => false

end ScopeName

/-- The scopes of a token, outermost first. -/
abbrev ScopeStack := List ScopeName

namespace ScopeStack

/-- A stack of the given names, outermost first. -/
def ofStrings (names : List String) : ScopeStack :=
  names.map ScopeName.mk

/-- The characters of `stack.display`. -/
def displayChars (stack : ScopeStack) : List Char :=
  [' '].intercalate (stack.map ScopeName.chars)

/-- The names of `stack`, joined by spaces. -/
def display (stack : ScopeStack) : String :=
  String.ofList stack.displayChars

/-- The last scope of `stack`, which is the most specific one. -/
def innermost (stack : ScopeStack) : Option ScopeName :=
  stack.getLast?

end ScopeStack

end ScopeTokens
