/-
  ScopeTokens.Token.Type

  The four coarse kinds of token, each with a two-bit `code`.
-/

namespace ScopeTokens

/-- What a token is taken for by bracket matching, comment detection and the like. -/
inductive TokenType where
  | other
  | comment
  | string
  | regex
  deriving DecidableEq, Repr, Inhabited

namespace TokenType

/-- All kinds, in ascending order of `code`. -/
def all : List TokenType :=
  [other, comment, string, regex]

/-- The two-bit code of a kind. -/
def code : TokenType → Nat
  | other => 0
  | comment => 1
  | string => 2
  | regex => 3

/-- `code` as a 32-bit word. -/
def bits (t : TokenType) : UInt32 :=
  UInt32.ofNat t.code

/-- The kind whose code is in the two low bits of `w`; the other bits are ignored. -/
def ofBits (w : UInt32) : TokenType :=
  match (w &&& 3).toNat with
  | 1 => comment
  | 2 => string
  | 3 => regex
  | _ => other

/-- Name of a kind. -/
def name : TokenType → String
  | other => "other"
  | comment => "comment"
  | string => "string"
  | regex => "regex"

theorem code_lt (t : TokenType) : t.code < 4 := by
  cases t <;> decide

theorem code_injective {s t : TokenType} (h : s.code = t.code) : s = t := by
  cases s <;> cases t <;> first | rfl | simp [code] at h

theorem mem_all (t : TokenType) : t ∈ all := by
  cases t <;> decide

theorem ofBits_bits (t : TokenType) : ofBits t.bits = t := by
  cases t <;> decide

end TokenType

end ScopeTokens
