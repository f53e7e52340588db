/-
  ScopeTokens.Text.Document

  Open documents. A `Document` has an identity, a language name, a text, and a
  version that goes up with every change of the text. A cache does not read the
  document itself but a `LineSource`, the language name and the lines at one
  moment.
-/

import ScopeTokens.Text.Splice

namespace ScopeTokens

/-- Identity of an open document. -/
structure DocumentId where
  raw : UInt64
  deriving DecidableEq, Repr, Inhabited

/-- `id` as error messages name it, such as `doc#7`. -/
def DocumentId.display (id : DocumentId) : String :=
  "doc#" ++ toString id.raw.toNat

/-- What the cache reads of a document: its language name and its lines, without their breaks. -/
structure LineSource where
  language : String
  lines : List String
  deriving DecidableEq, Repr

namespace LineSource

/-- Number of lines. -/
def lineCount (src : LineSource) : Nat :=
  src.lines.length

/-- Text of line `line`, `""` past the last one. -/
def lineText (src : LineSource) (line : Nat) : String :=
  src.lines[line]?.getD ""

/-- Number of characters of line `line`, `0` past the last one. -/
def lineLength (src : LineSource) (line : Nat) : Nat :=
  (src.lineText line).length

end LineSource

/-- A text under a language name, with its version. -/
structure Document where
  id : DocumentId
  language : String
  text : String
  version : Nat
  deriving DecidableEq, Repr

namespace Document

/-- A document as first opened: its version is `1`. -/
def new (id : DocumentId) (language text : String) : Document :=
  ⟨id, language, text, 1⟩

/-- The lines of `d.text`, with their breaks (`Line.split`). -/
def lines (d : Document) : List Line :=
  Line.split d.text.toList

/-- Number of lines. A text that ends in a break counts the empty line after it. -/
def lineCount (d : Document) : Nat :=
  d.lines.length

/-- Text of line `line` without its break, `""` past the last line. -/
def lineText (d : Document) (line : Nat) : String :=
  (d.lines[line]?.map Line.text).getD ""

/-- Number of characters of line `line` without its break, `0` past the last line. -/
def lineLength (d : Document) (line : Nat) : Nat :=
  (d.lines[line]?.map fun l => l.content.length).getD 0

/-- `d` as a `LineSource`. -/
def source (d : Document) : LineSource :=
  ⟨d.language, d.lines.map Line.text⟩

/-- The character offset in `d.text` that `p` resolves to. -/
def charIndex (d : Document) (p : Position) : Nat :=
  ScopeTokens.charIndex d.text.toList p

/-- Carries out a batch of changes, all of whose ranges are resolved against `d.text` as it stands
    (`Splice.ofChange`); the version goes up by one for the whole batch. -/
def applyChanges (d : Document) (changes : List TextChange) : Document :=
  let cs := d.text.toList
  { d with
    text := String.ofList (Splice.applyAll (changes.map (Splice.ofChange cs)) cs)
    version := d.version + 1 }

/-- Replaces the whole text; no change list is recorded for it. -/
def replaceText (d : Document) (text : String) : Document :=
  { d with text := text, version := d.version + 1 }

/-- `d` under another language name; `text` and `version` stay. -/
def setLanguage (d : Document) (language : String) : Document :=
  { d with language := language }

/-! ## Reading lines -/

theorem lineCount_pos (d : Document) : 0 < d.lineCount := by
  simp [lineCount, lines, Line.length_split]

theorem lineCount_source (d : Document) : d.source.lineCount = d.lineCount := by
  simp [source, LineSource.lineCount, lineCount]

theorem lineText_source (d : Document) (line : Nat) :
    d.source.lineText line = d.lineText line := by
  simp [source, LineSource.lineText, lineText]

theorem lineLength_source (d : Document) (line : Nat) :
    d.source.lineLength line = d.lineLength line := by
  simp only [LineSource.lineLength, lineText_source, lineText, lineLength]
  cases d.lines[line]? <;> simp [Line.text]

end Document

end ScopeTokens
