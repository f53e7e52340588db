/-
  ScopeTokens.Toml.Document

  TOML documents. A document is a list of statements, one to a line: a header, a
  header in double brackets, or a key with a value. `Toml.read` reads the
  statements in order and carries them out on the table that they describe
  (`Draft.step`). A reader takes the text from some point on, and answers with
  what it read and the rest of the text.
-/

import ScopeTokens.Toml.Scalar

namespace ScopeTokens.Toml

/-- One statement of a document. -/
inductive Statement where
  | header (path : List String)
  | nextTable (path : List String)
  | pair (path : List String) (value : Value)

/-- Values nested deeper than this many levels are refused. -/
def nestingLimit : Nat := 80

/-- Keys of more than this many parts are refused. -/
def keyLimit : Nat := 80

/-! ## Blanks, comments, ends of lines -/

def dropBlanks (cs : List Char) : List Char :=
  cs.dropWhile isLineBlank

/-- Drops the rest of a comment, up to the break of its line, which stays. -/
def dropComment : List Char → Option (List Char)
  | [] => some []
  | '\n' :: cs => some ('\n' :: cs)
  | '\r' :: '\n' :: cs => some ('\r' :: '\n' :: cs)
  | c :: cs => if isPlainChar c then dropComment cs else none

/-- Drops blanks, breaks and comments. The flag says that the text starts within a comment. -/
def dropFiller : Bool → List Char → Option (List Char)
  | _, [] => some []
  | _, '\n' :: cs => dropFiller false cs
  | _, '\r' :: '\n' :: cs => dropFiller false cs
  | true, c :: cs => if isPlainChar c then dropFiller true cs else none
  | false, '#' :: cs => dropFiller true cs
  | false, c :: cs => if isLineBlank c then dropFiller false cs else some (c :: cs)

/-- Drops what may follow a statement on its line, and the break of that line. -/
def dropLineEnd (cs : List Char) : Option (List Char) :=
  let atBreak : List Char → Option (List Char)
    | [] => some []
    | cs => (readBreak cs).map Prod.snd
  match dropBlanks cs with
  | '#' :: rest => (dropComment rest).bind atBreak
  | rest => atBreak rest

/-! ## Keys -/

/-- `c` can be part of a key without quotes. -/
def isBareKeyChar (c : Char) : Bool :=
  c.isAlphanum || c == '-' || c == '_'

/-- Reads one part of a key: bare, or a string in one pair of quotes. -/
def readKeyPart : List Char → Option (String × List Char)
  | '"' :: cs => (readBasic cs).map fun (s, rest) => (String.ofList s, rest)
  | '\'' :: cs => (readLiteral cs).map fun (s, rest) => (String.ofList s, rest)
  | cs =>
    match cs.takeWhile isBareKeyChar with
    | [] => none
    | part => some (String.ofList part, cs.dropWhile isBareKeyChar)

/-- Reads a key with points between its parts and the blanks behind it. The fuel is the number of
    parts that it may have. -/
def readKeyParts : Nat → List Char → Option (List String × List Char)
  | 0, _ => none
  | fuel + 1, cs => do
    let (part, rest) ← readKeyPart cs
    match dropBlanks rest with
    | '.' :: rest' =>
      let (parts, rest'') ← readKeyParts fuel (dropBlanks rest')
      some (part :: parts, rest'')
    | rest' => some ([part], rest')

/-- Reads a key of at most `keyLimit` parts. -/
def readKey (cs : List Char) : Option (List String × List Char) :=
  readKeyParts keyLimit cs

/-! ## Values -/

mutual

/-- Reads a value of at most `depth` levels. -/
def readValueIn : Nat → Nat → List Char → Option (Value × List Char)
  | 0, _, _ => none
  | fuel + 1, depth, cs =>
    match cs with
    | '[' :: rest =>
      if depth = 0 then none
      else (dropFiller false rest).bind fun rest => readItems fuel (depth - 1) [] rest
    | '{' :: rest =>
      if depth = 0 then none
      else (dropFiller false rest).bind fun rest => readPairs fuel (depth - 1) [] rest
    | '"' :: _ => (readString cs).map fun (s, rest) => (.string (String.ofList s), rest)
    | '\'' :: _ => (readString cs).map fun (s, rest) => (.string (String.ofList s), rest)
    | _ => readScalar cs

/-- Reads the members of an array up to its closing bracket. `items` are those before, last
    first. -/
def readItems : Nat → Nat → List Value → List Char → Option (Value × List Char)
  | 0, _, _, _ => none
  | _ + 1, _, items, ']' :: rest => some (.array items.reverse, rest)
  | fuel + 1, depth, items, cs => do
    let (v, rest) ← readValueIn fuel depth cs
    let rest ← dropFiller false rest
    match rest with
    | ',' :: rest' =>
      let rest' ← dropFiller false rest'
      readItems fuel depth (v :: items) rest'
    | ']' :: rest' => some (.array (v :: items).reverse, rest')
    | _ => none

/-- Reads the pairs of an inline table up to its closing brace, with breaks and comments anywhere
    between keys, signs and values. `es` holds what was assigned before. -/
def readPairs : Nat → Nat → Entries → List Char → Option (Value × List Char)
  | 0, _, _, _ => none
  | _ + 1, _, es, '}' :: rest => some (.table .inline es, rest)
  | fuel + 1, depth, es, cs => do
    let (path, rest) ← readKey cs
    match ← dropFiller false rest with
    | '=' :: rest' =>
      let rest' ← dropFiller false rest'
      let (v, rest') ← readValueIn fuel depth rest'
      let es ← Entries.assign v path es
      let rest' ← dropFiller false rest'
      match rest' with
      | ',' :: rest'' =>
        let rest'' ← dropFiller false rest''
        readPairs fuel depth es rest''
      | '}' :: rest'' => some (.table .inline es, rest'')
      | _ => none
    | _ => none

end

/-- Reads a value. Each step takes a character or goes one level down, and a level takes a
    character, so twice the length of `cs` is fuel enough. -/
def readValue (cs : List Char) : Option (Value × List Char) :=
  readValueIn (2 * cs.length + 1) nestingLimit cs

/-! ## Statements -/

/-- Reads a statement, up to the end of its line. -/
def readStatement (cs : List Char) : Option (Statement × List Char) :=
  match cs with
  | '[' :: '[' :: rest => do
    let (path, rest) ← readKey (dropBlanks rest)
    match rest with
    | ']' :: ']' :: rest' => (dropLineEnd rest').map (.nextTable path, ·)
    | _ => none
  | '[' :: rest => do
    let (path, rest) ← readKey (dropBlanks rest)
    match rest with
    | ']' :: rest' => (dropLineEnd rest').map (.header path, ·)
    | _ => none
  | _ => do
    let (path, rest) ← readKey cs
    match rest with
    | '=' :: rest' =>
      let (v, rest') ← readValue (dropBlanks rest')
      (dropLineEnd rest').map (.pair path v, ·)
    | _ => none

/-- Reads the statements from here to the end of the text. -/
def readStatements : Nat → List Char → Option (List Statement)
  | 0, _ => none
  | fuel + 1, cs => do
    match ← dropFiller false cs with
    | [] => some []
    | rest =>
      let (s, rest) ← readStatement rest
      (readStatements fuel rest).map (s :: ·)

/-- A document in the making: the whole table, and the path that the last header opened. -/
structure Draft where
  root : Entries
  opened : List String

/-- Carries out one statement. -/
def Draft.step (d : Draft) : Statement → Option Draft
  | .header path => (Entries.openHeader Entries.asTable path d.root).map (⟨·, path⟩)
  | .nextTable path =>
    (Entries.openHeader Entries.asNextTable path d.root).map (⟨·, path⟩)
  | .pair path v =>
    (Entries.inOpened (Entries.assign v path) d.opened d.root).map (⟨·, d.opened⟩)

/-- The table that `text` describes. A byte order mark at its front is not part of it. -/
def read (text : List Char) : Option Entries := do
  let cs := match text with
    | '\uFEFF' :: cs => cs
    | cs => cs
  let statements ← readStatements (cs.length + 1) cs
  let draft ← statements.foldlM Draft.step ⟨[], []⟩
  some draft.root

end ScopeTokens.Toml
