/-
  ScopeTokens.Language.Grammar

  Grammars, as the cache uses them. `tokenizeLine` is given a line and the state
  in which the line above it ended, `none` for the first line, and answers with
  raw tokens and the state for the line below. Raw tokens may overlap, leave gaps,
  come in any order and lie outside the line.
-/

import ScopeTokens.Scope.Name

namespace ScopeTokens

/-- The characters from `start` up to `stop`, and their scopes. Neither end is checked. -/
structure RawToken where
  start : Nat
  stop : Nat
  scopes : ScopeStack
  deriving DecidableEq, Repr

/-- Answer of a grammar to a line: its tokens, and the state for the line below. -/
structure LineTokenization (σ : Type) where
  tokens : List RawToken
  endState : σ
  deriving DecidableEq, Repr

/-- What can go wrong with a grammar. -/
inductive GrammarError where
  /-- The grammar `scope` failed on a line. -/
  | tokenizeFailed (scope : ScopeName) (reason : String)
  /-- The grammar `scope` exists and could not be loaded. -/
  | loadFailed (scope : ScopeName) (reason : String)
  deriving DecidableEq, Repr

/-- Text of an error, with its scope and reason. -/
def GrammarError.message : GrammarError → String
  | tokenizeFailed scope reason =>
    "grammar " ++ scope.name ++ " failed to tokenize line: " ++ reason
  | loadFailed scope reason => "failed to load grammar " ++ scope.name ++ ": " ++ reason

/-- A grammar with states of type `σ`. `tokenizeLine text above` is given `none` as `above` for the
    first line of a document. -/
structure Grammar (σ : Type) where
  /-- The root scope. It names the grammar in errors, and is the scope of a line without usable
      tokens. -/
  scopeName : ScopeName
  tokenizeLine : String → Option σ → Except GrammarError (LineTokenization σ)

end ScopeTokens
