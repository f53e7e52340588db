/-
  ScopeTokens.Token.Run

  Runs of one language. `runAt offset` is the longest stretch of adjacent tokens
  of one language with the token at `offset` in it. Indices and offsets of a
  `TokenRun` are counted from its start, so that it reads as a line of its own.
-/

import ScopeTokens.Token.Slice

namespace ScopeTokens

/-- The tokens of `line` from `first` up to, and without, `last`; `firstChar` and `lastChar` are the
    offsets in `line` where they start and end. -/
structure TokenRun where
  line : TokenLine
  language : LanguageId
  first : Nat
  last : Nat
  firstChar : Nat
  lastChar : Nat
  deriving DecidableEq, Repr

namespace TokenLine

/-- `languageId` of each token of `a`, in order. -/
def languages (a : TokenLine) : List LanguageId :=
  a.marks.toList.map fun k => k.metadata.languageId

/-- The run around `offset`: the token there, and its neighbours to both sides for as long as they
    are in its language. -/
def runAt (a : TokenLine) (offset : Nat) : TokenRun :=
  let i := a.indexOf offset
  let language := a.languageId i
  let first := i - ((a.languages.take i).reverse.takeWhile (· == language)).length
  let last := i + 1 + ((a.languages.drop (i + 1)).takeWhile (· == language)).length
  { line := a
    language := language
    first := first
    last := last
    firstChar := a.startOffset first
    lastChar := a.endOffset (last - 1) }

end TokenLine

namespace TokenRun

/-- The text between `r.firstChar` and `r.lastChar`. -/
def content (r : TokenRun) : String :=
  r.line.slice r.firstChar r.lastChar

/-- Number of tokens of the run. -/
def count (r : TokenRun) : Nat :=
  r.last - r.first

/-- Index within `r` of the token that holds `offset`, which is counted from `r.firstChar`. An
    offset past the run belongs to its last token. -/
def indexOf (r : TokenRun) (offset : Nat) : Nat :=
  max r.first (min (r.line.indexOf (offset + r.firstChar)) (r.last - 1)) - r.first

/-- Kind of token `i` of the run. -/
def tokenType (r : TokenRun) (i : Nat) : TokenType :=
  r.line.tokenType (i + r.first)

/-- Where token `i` of the run starts, counted from `r.firstChar`. -/
def startOffset (r : TokenRun) (i : Nat) : Nat :=
  r.line.startOffset (i + r.first) - r.firstChar

/-- Where token `i` of the run ends, counted from `r.firstChar`. -/
def endOffset (r : TokenRun) (i : Nat) : Nat :=
  r.line.endOffset (i + r.first) - r.firstChar

end TokenRun

end ScopeTokens
