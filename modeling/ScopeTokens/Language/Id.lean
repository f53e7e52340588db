/-
  ScopeTokens.Language.Id

  Language identifiers, one byte wide: `0` is no language, `1` is plain text, and
  further languages are numbered from `2` on.
-/

namespace ScopeTokens

/-- A language by its number. -/
structure LanguageId where
  raw : UInt8
  deriving DecidableEq, Repr, Inhabited

namespace LanguageId

/-- Number `0`, no language. -/
def none : LanguageId := ⟨0⟩

/-- Number `1`, plain text. -/
def plainText : LanguageId := ⟨1⟩

/-- `id` is `none`. -/
def isNone (id : LanguageId) : Bool :=
  id == none

/-- Text of `id`, such as `lang#2`. -/
def display (id : LanguageId) : String :=
  "lang#" ++ toString id.raw.toNat

end LanguageId

end ScopeTokens
