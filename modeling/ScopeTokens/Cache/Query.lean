/-
  ScopeTokens.Cache.Query

  Queries to a token cache. Each of them first validates the lines that it is
  about, so that the answer describes the text as it is.
-/

import ScopeTokens.Cache.Heal
import ScopeTokens.Text.Position
import ScopeTokens.Token.Run

namespace ScopeTokens

/-- A token as a query answers with it. -/
structure TokenInfo where
  range : TextRange
  text : String
  scopes : ScopeStack
  tokenType : TokenType
  metadata : TokenMetadata
  deriving DecidableEq, Repr

namespace TokenInfo

/-- Language of the token, as packed in its metadata. -/
def languageId (t : TokenInfo) : LanguageId :=
  t.metadata.languageId

/-- The token is of kind `comment`. -/
def isComment (t : TokenInfo) : Bool :=
  t.tokenType == .comment

/-- Token `i` of line `line`. -/
def ofTokens (line : Nat) (tokens : ScopedTokens) (i : Nat) : TokenInfo where
  range := .onLine line (tokens.line.startOffset i) (tokens.line.endOffset i)
  text := tokens.line.tokenText i
  scopes := tokens.scopes[i]?.getD []
  tokenType := (tokens.line.metadata i).tokenType
  metadata := tokens.line.metadata i

/-- The empty token at `p`, where the document has no line. -/
def emptyAt (p : Position) (language : LanguageId) : TokenInfo where
  range := .point p
  text := ""
  scopes := []
  tokenType := .other
  metadata := .defaultFor language

end TokenInfo

namespace TokenCache

variable {σ : Type} [DecidableEq σ]

/-! ## What the entries say -/

/-- The token at `p`, as cached. A column past the end of its line gives the line's last token. -/
def tokenIn (c : TokenCache σ) (p : Position) : TokenInfo :=
  match c.lines[p.line]? with
  | none => .emptyAt p c.languageId
  | some e => .ofTokens p.line e.tokens (e.tokens.line.indexOf p.column)

/-- All tokens of line `line`, as cached; `[]` if there is no such line. -/
def tokensIn (c : TokenCache σ) (line : Nat) : List TokenInfo :=
  match c.lines[line]? with
  | none => []
  | some e => (List.range e.tokens.line.count).map (TokenInfo.ofTokens line e.tokens)

/-- The tokens of the lines of `range` that exist, line by line, as cached. -/
def tokensOver (c : TokenCache σ) (range : LineRange) : List (List TokenInfo) :=
  let stop := min range.stop c.lineCount
  (List.range' range.start (stop - range.start)).map c.tokensIn

/-- The `TokenLine` of line `line`, as cached. -/
def arrayIn (c : TokenCache σ) (line : Nat) : Option TokenLine :=
  c.lines[line]?.map fun e => e.tokens.line

/-! ## Questions -/

/-- The token at `p`. Like all queries, this validates the lines that it reads first. -/
def tokenAt (c : TokenCache σ) (registry : Registry (Grammar σ)) (src : LineSource)
    (p : Position) : Reply σ TokenInfo :=
  (c.validateLine registry src p.line).andRead fun c => c.tokenIn p

/-- The kind of the token at `p`. -/
def tokenTypeAt (c : TokenCache σ) (registry : Registry (Grammar σ)) (src : LineSource)
    (p : Position) : Reply σ TokenType :=
  (c.validateLine registry src p.line).andRead fun c => (c.tokenIn p).tokenType

/-- The token at `p` is a comment. -/
def isCommentAt (c : TokenCache σ) (registry : Registry (Grammar σ)) (src : LineSource)
    (p : Position) : Reply σ Bool :=
  (c.validateLine registry src p.line).andRead fun c => (c.tokenIn p).isComment

/-- All tokens of line `line`. -/
def lineTokens (c : TokenCache σ) (registry : Registry (Grammar σ)) (src : LineSource)
    (line : Nat) : Reply σ (List TokenInfo) :=
  (c.validateLine registry src line).andRead fun c => c.tokensIn line

/-- The tokens of the lines of `range`, line by line. -/
def tokensForLines (c : TokenCache σ) (registry : Registry (Grammar σ)) (src : LineSource)
    (range : LineRange) : Reply σ (List (List TokenInfo)) :=
  (c.validateRange registry src range).andRead fun c => c.tokensOver range

/-- The tokens of all lines of `src`, line by line. -/
def allTokens (c : TokenCache σ) (registry : Registry (Grammar σ)) (src : LineSource) :
    Reply σ (List (List TokenInfo)) :=
  c.tokensForLines registry src ⟨0, src.lineCount⟩

/-- The `TokenLine` of line `line`, if the line exists. -/
def lineArray (c : TokenCache σ) (registry : Registry (Grammar σ)) (src : LineSource)
    (line : Nat) : Reply σ (Option TokenLine) :=
  (c.validateLine registry src line).andRead fun c => c.arrayIn line

/-- The run of one language around `p`, if its line exists. -/
def runAt (c : TokenCache σ) (registry : Registry (Grammar σ)) (src : LineSource)
    (p : Position) : Reply σ (Option TokenRun) :=
  (c.validateLine registry src p.line).andRead fun c =>
    (c.arrayIn p.line).map fun a => a.runAt p.column

end TokenCache

end ScopeTokens
