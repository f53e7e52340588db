/-
  ScopeTokens.Token.Metadata

  Token metadata, packed into a 32-bit word. From bit 0 on: eight bits of
  language, two of token kind, one that says whether the token takes part in
  bracket balancing, four of font style, nine of foreground and eight of
  background colour. `pack` drops what does not fit into its field, and reading a
  field ignores all others.
-/

import ScopeTokens.Language.Id
import ScopeTokens.Token.Type

namespace ScopeTokens

/-- Font style flags, one bit each. Packed metadata has room for the first four. -/
structure FontStyle where
  bits : UInt8
  deriving DecidableEq, Repr, Inhabited

namespace FontStyle

/-- No style. -/
def plain : FontStyle := ⟨0⟩

def italic : FontStyle := ⟨1⟩

def bold : FontStyle := ⟨2⟩

def underline : FontStyle := ⟨4⟩

def strikethrough : FontStyle := ⟨8⟩

/-- Overline, bit 4, which packed metadata drops. -/
def overline : FontStyle := ⟨16⟩

/-- All bits of `flag` are set in `style`. -/
def has (style flag : FontStyle) : Bool :=
  style.bits &&& flag.bits == flag.bits

end FontStyle

/-- A packed metadata word; the masks below say where its fields are. -/
structure TokenMetadata where
  bits : UInt32
  deriving DecidableEq, Repr, Inhabited

namespace TokenMetadata

/-- `foreground` of tokens without a theme. -/
def defaultForeground : UInt16 := 1

/-- `background` of tokens without a theme. -/
def defaultBackground : UInt16 := 2

/-! ## Fields

A field is given by its mask in the word and by the place of its lowest bit. -/

def languageMask : UInt32 := 0x000000ff

def typeMask : UInt32 := 0x00000300

def balancedMask : UInt32 := 0x00000400

def fontMask : UInt32 := 0x00007800

def foregroundMask : UInt32 := 0x00ff8000

def backgroundMask : UInt32 := 0xff000000

/-- Packs all fields. Each value is shifted to its field and masked, so bits without room are
    dropped. -/
def pack (language : LanguageId) (type : TokenType) (font : FontStyle) (balanced : Bool)
    (foreground background : UInt16) : TokenMetadata :=
  ⟨(language.raw.toUInt32 &&& languageMask) |||
    ((type.bits <<< 8) &&& typeMask) |||
    ((balanced.toUInt32 <<< 10) &&& balancedMask) |||
    ((font.bits.toUInt32 <<< 11) &&& fontMask) |||
    ((foreground.toUInt32 <<< 15) &&& foregroundMask) |||
    ((background.toUInt32 <<< 24) &&& backgroundMask)⟩

/-- Bits 0–7, the language of the token. -/
def languageId (m : TokenMetadata) : LanguageId :=
  ⟨(m.bits &&& languageMask).toUInt8⟩

/-- Bits 8–9, the kind of the token. -/
def tokenType (m : TokenMetadata) : TokenType :=
  .ofBits ((m.bits &&& typeMask) >>> 8)

/-- Bit 10: the token takes part in bracket balancing. -/
def balanced (m : TokenMetadata) : Bool :=
  m.bits &&& balancedMask != 0

/-- Bits 11–14, the font style without `overline`. -/
def fontStyle (m : TokenMetadata) : FontStyle :=
  ⟨((m.bits &&& fontMask) >>> 11).toUInt8⟩

/-- Bits 15–23, the foreground colour number. -/
def foreground (m : TokenMetadata) : UInt16 :=
  ((m.bits &&& foregroundMask) >>> 15).toUInt16

/-- Bits 24–31, the background colour number. -/
def background (m : TokenMetadata) : UInt16 :=
  ((m.bits &&& backgroundMask) >>> 24).toUInt16

/-- `m` with `language` in place of its own. -/
def withLanguageId (m : TokenMetadata) (language : LanguageId) : TokenMetadata :=
  ⟨(m.bits &&& ~~~languageMask) ||| language.raw.toUInt32⟩

/-- `m` with `type` in place of its own. -/
def withTokenType (m : TokenMetadata) (type : TokenType) : TokenMetadata :=
  ⟨(m.bits &&& ~~~typeMask) ||| (type.bits <<< 8)⟩

/-- Metadata of a token of which only `language` is known: kind `other`, balanced, default
    colours. -/
def defaultFor (language : LanguageId) : TokenMetadata :=
  pack language .other .plain true defaultForeground defaultBackground

/-- The bits set in `a` or in `b`. -/
def union (a b : TokenMetadata) : TokenMetadata :=
  ⟨a.bits ||| b.bits⟩

end TokenMetadata

end ScopeTokens
