/-
  ScopeTokens.Token.Style

  Metadata for renderers and logs: a list of style sheet classes (`className`), an
  inline style (`inlineStyle`), and a record of all fields (`describe`).
-/

import ScopeTokens.Token.Metadata

namespace ScopeTokens

namespace TokenMetadata

/-- `text` if `style` has `flag`, else `""`. -/
def flagText (style flag : FontStyle) (text : String) : String :=
  if style.has flag then text else ""

/-- Style sheet classes: `mtk` with the foreground number, and one class for each font flag. -/
def className (m : TokenMetadata) : String :=
  "mtk" ++ toString m.foreground.toNat ++
    flagText m.fontStyle .italic " mtki" ++
    flagText m.fontStyle .bold " mtkb" ++
    flagText m.fontStyle .underline " mtku" ++
    flagText m.fontStyle .strikethrough " mtks"

/-- Value of `text-decoration`; `none` if neither flag is set. -/
def decoration (style : FontStyle) : Option String :=
  match style.has .underline, style.has .strikethrough with
  | true, true => some "underline line-through"
  | true, false => some "underline"
  | false, true => some "line-through"
  | false, false => none

/-- Inline style. The foreground is looked up in `colors`; a number past the end gives no colour. -/
def inlineStyle (m : TokenMetadata) (colors : List String) : String :=
  ((colors[m.foreground.toNat]?.map fun c => "color: " ++ c ++ ";").getD "") ++
    flagText m.fontStyle .italic "font-style: italic;" ++
    flagText m.fontStyle .bold "font-weight: bold;" ++
    ((decoration m.fontStyle).map fun d => "text-decoration: " ++ d ++ ";").getD ""

/-- Names of the flags set in `style`, from the lowest bit on. -/
def fontFlagNames (style : FontStyle) : List String :=
  [(FontStyle.italic, "ITALIC"), (FontStyle.bold, "BOLD"), (FontStyle.underline, "UNDERLINE"),
    (FontStyle.strikethrough, "STRIKETHROUGH")].filterMap fun f =>
      if style.has f.1 then some f.2 else none

/-- Name of a kind in `describe`. -/
def typeRecordName : TokenType → String
  | .other => "Other"
  | .comment => "Comment"
  | .string => "String"
  | .regex => "RegEx"

/-- All fields of `m`, by name. -/
def describe (m : TokenMetadata) : String :=
  let font := match fontFlagNames m.fontStyle with
    | [] => "0x0"
    | names => " | ".intercalate names
  "TokenMetadata \x7b language_id: " ++ toString m.languageId.raw.toNat ++
    ", token_type: " ++ typeRecordName m.tokenType ++
    ", balanced_brackets: " ++ toString m.balanced ++
    ", font_style: FontStyle(" ++ font ++
    "), foreground: " ++ toString m.foreground.toNat ++
    ", background: " ++ toString m.background.toNat ++ " \x7d"

end TokenMetadata

end ScopeTokens
