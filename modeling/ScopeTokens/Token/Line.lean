/-
  ScopeTokens.Token.Line

  The tokens of one line. They partition it: each token ends where the next one
  starts, the first starts at zero and the last ends at the length of the line,
  all counted in characters. A `TokenLine` is a list of marks, one for each token,
  with the end and the metadata of the token. No token is empty, except the only
  one of an empty line.

  `TokenLine.ofMarks` checks the partition, and its error is the first rule that
  is broken. The ways to a line from outside are `ofEnds` and `ofStarts`, which
  read the marks off a flat buffer of words, and `single`. Offsets are 32-bit
  words, so each of these first refuses a text of `UInt32.size` characters or more
  (`guardLength`), whatever else is wrong with the buffer.
-/

import ScopeTokens.Token.Metadata

namespace ScopeTokens

/-- Where a token ends, and its metadata. -/
structure Mark where
  stop : Nat
  metadata : TokenMetadata
  deriving DecidableEq, Repr, Inhabited

/-- Why a buffer is no partition of a line. -/
inductive PartitionError where
  /-- The buffer has a word without a partner. -/
  | oddLength (words : Nat)
  /-- There is no token. -/
  | empty
  /-- The token at `index` does not end after its start. -/
  | nonIncreasing (index start stop : Nat)
  /-- The last token does not end where the line does. -/
  | endMismatch (stop length : Nat)
  /-- The text has `length` characters, and `length` is not a 32-bit offset. -/
  | textTooLong (length : Nat)
  deriving DecidableEq, Repr

/-- The wording of a partition error. -/
def PartitionError.message : PartitionError → String
  | oddLength n => "token buffer has odd length " ++ toString n
  | empty => "token buffer is empty"
  | nonIncreasing i start stop =>
    "token " ++ toString i ++ " spans " ++ toString start ++ ".." ++ toString stop ++
      ", which is empty or reversed"
  | endMismatch stop length =>
    "last token ends at " ++ toString stop ++ " but the line has " ++ toString length ++ " chars"
  | textTooLong length =>
    "line of " ++ toString length ++ " chars exceeds the token offset range"

/-- A set of token kinds; bit `t.code` says whether `t` is in it. -/
abbrev TypeSet := BitVec 4

namespace TypeSet

def insert (s : TypeSet) (t : TokenType) : TypeSet :=
  s ||| BitVec.twoPow 4 t.code

def contains (s : TypeSet) (t : TokenType) : Bool :=
  s.getLsbD t.code

theorem contains_empty (t : TokenType) : contains (0#4) t = false := by
  simp [contains]

theorem contains_insert (s : TypeSet) (t u : TokenType) :
    (insert s t).contains u = (s.contains u || decide (t = u)) := by
  cases t <;> cases u <;> simp [contains, insert, TokenType.code]

end TypeSet

/-- The tokens of a line, with what `assemble` computes of the line as a whole: its `length` in
    characters, the union of all metadata words, and the set of kinds that occur. -/
structure TokenLine where
  marks : Array Mark
  text : String
  length : Nat
  lineMetadata : TokenMetadata
  types : TypeSet
  deriving DecidableEq, Repr

namespace TokenLine

/-! ## Construction -/

/-- The line with the given marks; whether they partition `text` is not checked. -/
def assemble (marks : List Mark) (text : String) : TokenLine where
  marks := marks.toArray
  text := text
  length := text.length
  lineMetadata := marks.foldl (fun m k => m.union k.metadata) ⟨0⟩
  types := marks.foldl (fun s k => s.insert k.metadata.tokenType) 0#4

/-- The first token that does not end after its start: its index, start and end. The head of the
    list is the token at `index`, which starts at `start`. -/
def firstEmpty (index start : Nat) : List Mark → Option (Nat × Nat × Nat)
  | [] => none
  | k :: ks =>
    if k.stop ≤ start then some (index, start, k.stop) else firstEmpty (index + 1) k.stop ks

/-- The first rule that `marks` break as a partition of `length` characters, `none` if they keep
    all. The one token of an empty line may be empty. -/
def fault (marks : List Mark) (length : Nat) : Option PartitionError :=
  match marks.getLast? with
  | none => some .empty
  | some last =>
    if length = 0 ∧ marks.length = 1 ∧ last.stop = 0 then none
    else match firstEmpty 0 0 marks with
      | some (i, start, stop) => some (.nonIncreasing i start stop)
      | none => if last.stop = length then none else some (.endMismatch last.stop length)

/-- The line with the given marks, or the `fault` of these. -/
def ofMarks (marks : List Mark) (text : String) : Except PartitionError TokenLine :=
  match fault marks text.length with
  | some e => .error e
  | none => .ok (assemble marks text)

/-- `tokens`, if `text.length` is a 32-bit offset; else `textTooLong`, whatever `tokens` is. -/
def guardLength (text : String) (tokens : Except PartitionError TokenLine) :
    Except PartitionError TokenLine :=
  if text.length < UInt32.size then tokens else .error (.textTooLong text.length)

theorem guardLength_of_lt {text : String} (h : text.length < UInt32.size)
    (tokens : Except PartitionError TokenLine) : guardLength text tokens = tokens :=
  if_pos h

theorem guardLength_of_le {text : String} (h : UInt32.size ≤ text.length)
    (tokens : Except PartitionError TokenLine) :
    guardLength text tokens = .error (.textTooLong text.length) :=
  if_neg (Nat.not_lt.2 h)

/-- `guardLength` lets an answer pass for short texts only. -/
theorem guardLength_eq_ok_iff {text : String} {tokens : Except PartitionError TokenLine}
    {a : TokenLine} :
    guardLength text tokens = .ok a ↔ text.length < UInt32.size ∧ tokens = .ok a := by
  rcases Nat.lt_or_ge text.length UInt32.size with h_lt | h_le
  · rw [guardLength_of_lt h_lt, and_iff_right h_lt]
  · rw [guardLength_of_le h_le]
    refine iff_of_false nofun ?_
    rintro ⟨h_lt, -⟩
    exact Nat.not_lt.2 h_le h_lt

/-- Pairs of neighbouring words, of which the first is the offset; a last word without a partner is
    left out. -/
def marksOfWords : List UInt32 → List Mark
  | offset :: metadata :: ws => ⟨offset.toNat, ⟨metadata⟩⟩ :: marksOfWords ws
  | _ => []

/-- Turns starts into ends: each mark gets the `stop` of the next one, and the last gets `length`.
    The first start is dropped. -/
def endsOfStarts (length : Nat) : List Mark → List Mark
  | [] => []
  | [k] => [⟨length, k.metadata⟩]
  | k :: k' :: ks => ⟨k'.stop, k.metadata⟩ :: endsOfStarts length (k' :: ks)

/-- `endsOfStarts` on a flat buffer of words; a last word without a partner stays in place. -/
def endWordsOfStarts (length : UInt32) : List UInt32 → List UInt32
  | _ :: m :: s :: m' :: ws => s :: m :: endWordsOfStarts length (s :: m' :: ws)
  | _ :: m :: ws => length :: m :: ws
  | ws => ws

/-- Reads a line from a buffer of pairs `end, metadata`. -/
def ofEnds (words : List UInt32) (text : String) : Except PartitionError TokenLine :=
  guardLength text <|
    if words.length % 2 = 1 then .error (.oddLength words.length)
    else ofMarks (marksOfWords words) text

/-- Reads a line from a buffer of pairs `start, metadata`. The first start is not looked at. -/
def ofStarts (words : List UInt32) (text : String) : Except PartitionError TokenLine :=
  guardLength text <|
    if words.length % 2 = 1 then .error (.oddLength words.length)
    else ofMarks (endsOfStarts text.length (marksOfWords words)) text

/-- `text` as one token, unchecked. -/
def whole (text : String) (metadata : TokenMetadata) : TokenLine :=
  assemble [⟨text.length, metadata⟩] text

/-- `text` as one token with `metadata`. -/
def single (text : String) (metadata : TokenMetadata) : Except PartitionError TokenLine :=
  guardLength text (ofMarks [⟨text.length, metadata⟩] text)

/-! ## Reading -/

/-- Number of tokens. -/
def count (a : TokenLine) : Nat :=
  a.marks.size

/-- The buffer of pairs `end, metadata` that `ofEnds` reads. -/
def toWords (a : TokenLine) : List UInt32 :=
  a.marks.toList.flatMap fun k => [UInt32.ofNat k.stop, k.metadata.bits]

/-- Where token `i` ends. Past the last token this is `a.length`. -/
def endOffset (a : TokenLine) (i : Nat) : Nat :=
  match a.marks[i]? with
  | some k => k.stop
  | none => a.length

/-- Where token `i` starts, which is where the token before it ends. -/
def startOffset (a : TokenLine) : Nat → Nat
  | 0 => 0
  | i + 1 => a.endOffset i

/-- Metadata of token `i`. Past the last token this is the metadata of the last one. -/
def metadata (a : TokenLine) (i : Nat) : TokenMetadata :=
  match a.marks[min i (a.count - 1)]? with
  | some k => k.metadata
  | none => ⟨0⟩

/-- Kind of token `i`. -/
def tokenType (a : TokenLine) (i : Nat) : TokenType :=
  (a.metadata i).tokenType

/-- Language of token `i`. -/
def languageId (a : TokenLine) (i : Nat) : LanguageId :=
  (a.metadata i).languageId

/-- Some token of `a` is of kind `t`. -/
def hasType (a : TokenLine) (t : TokenType) : Bool :=
  a.types.contains t

/-- Binary search between `low` and `high` for the first mark with `offset < stop`. -/
def search (marks : Array Mark) (offset low high : Nat) : Nat :=
  if low < high then
    let mid := low + (high - low) / 2
    match marks[mid]? with
    | none => low
    | some k =>
      if k.stop ≤ offset then search marks offset (mid + 1) high
      else search marks offset low mid
  else low
termination_by high - low
decreasing_by all_goals omega

/-- Index of the token that holds `offset`. A boundary belongs to the token after it, and an offset
    at or past `a.length` to the last token. -/
def indexOf (a : TokenLine) (offset : Nat) : Nat :=
  if a.length ≤ offset then a.count - 1 else search a.marks offset 0 (a.count - 1)

/-- `a` and `b` have the same text, and the same `n` marks from index `start` on. The answer is
    `false` if one of them has fewer tokens than that. -/
def equalsSlice (a b : TokenLine) (start n : Nat) : Bool :=
  a.text == b.text && start + n ≤ a.count && start + n ≤ b.count &&
    (a.marks.toList.drop start).take n == (b.marks.toList.drop start).take n

/-- A token as an interval, with its metadata. -/
structure Span where
  start : Nat
  stop : Nat
  metadata : TokenMetadata
  deriving DecidableEq, Repr

/-- The spans of `marks`, the first of which starts at `start`. -/
def spansFrom (start : Nat) : List Mark → List Span
  | [] => []
  | k :: ks => ⟨start, k.stop, k.metadata⟩ :: spansFrom k.stop ks

/-- All tokens of `a`, in order. -/
def spans (a : TokenLine) : List Span :=
  spansFrom 0 a.marks.toList

/-- Puts the range from `start` to `stop` in front of others, and joins it to the first if they
    touch. -/
def consRange (start stop : Nat) : List (Nat × Nat) → List (Nat × Nat)
  | (start', stop') :: rs =>
    if stop = start' then (start, stop') :: rs else (start, stop) :: (start', stop') :: rs
  | [] => [(start, stop)]

/-- The ranges of the non-empty spans of kind `t`, touching ones joined. -/
def rangesOf (t : TokenType) : List Span → List (Nat × Nat)
  | [] => []
  | s :: ss =>
    if s.start = s.stop ∨ s.metadata.tokenType ≠ t then rangesOf t ss
    else consRange s.start s.stop (rangesOf t ss)

/-- The maximal ranges of `a` whose tokens are of kind `t`. -/
def findRangesOf (a : TokenLine) (t : TokenType) : List (Nat × Nat) :=
  rangesOf t a.spans

end TokenLine

end ScopeTokens
