/-
  ScopeTokens.Text.CharRanges

  Membership of a character in a list of inclusive code point ranges, the form
  in which the tables of Unicode properties are written down.
-/

namespace ScopeTokens

/-- The code point of `c` lies in one of `ranges`, whose ends are inclusive. -/
def Char.inRanges (c : Char) (ranges : List (Nat × Nat)) : Bool :=
  ranges.any fun r => r.1 ≤ c.toNat && c.toNat ≤ r.2

end ScopeTokens
