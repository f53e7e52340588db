/-
  ScopeTokens.Token.Slice

  Slices of a line's text, by character offsets. The text is cut at byte offsets.
  Only if every character takes one byte has the text as many bytes as characters,
  and `byteOffset` can take the character offset for the byte offset; else it adds
  up the bytes in front.
-/

import ScopeTokens.Token.Line

namespace ScopeTokens

namespace TokenLine

/-- Number of bytes of `cs` in UTF-8. -/
def byteLength (cs : List Char) : Nat :=
  cs.foldr (fun c n => c.utf8Size + n) 0

/-- The byte offset of character offset `i`, at most the end of the text. A text with one byte a
    character is not walked through. -/
def byteOffset (a : TokenLine) (i : Nat) : Nat :=
  if a.text.utf8ByteSize = a.length then min i a.text.utf8ByteSize
  else byteLength (a.text.toList.take i)

/-- The characters from `start` up to `stop`, `""` if these are the wrong way round. -/
def slice (a : TokenLine) (start stop : Nat) : String :=
  let first := a.byteOffset start
  String.Pos.Raw.extract a.text ⟨first⟩ ⟨max (a.byteOffset stop) first⟩

/-- The text of token `i`. -/
def tokenText (a : TokenLine) (i : Nat) : String :=
  a.slice (a.startOffset i) (a.endOffset i)

end TokenLine

end ScopeTokens
