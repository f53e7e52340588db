/-
  ScopeTokens.Text.Quoted

  Quoted names, as error messages show them: in double quotes, with a backslash in
  front of a double quote or a backslash, the letters `t`, `n`, `r` and `0` for
  the common controls, and a hexadecimal code point in braces for every other
  hidden character (`isHiddenChar`).
-/

import ScopeTokens.Text.HiddenChar

namespace ScopeTokens

/-- `c` as it stands in quotes: itself, a backslash escape, or `\u` and its code point in
    hexadecimal, in braces, if `isHiddenChar c`. -/
def quotedChar (c : Char) : List Char :=
  if c = '"' then ['\\', '"']
  else if c = '\\' then ['\\', '\\']
  else if c = '\t' then ['\\', 't']
  else if c = '\n' then ['\\', 'n']
  else if c = '\r' then ['\\', 'r']
  else if c.toNat = 0 then ['\\', '0']
  else if isHiddenChar c then
    ['\\', 'u', '\x7b'] ++ Nat.toDigits 16 c.toNat ++ ['\x7d']
  else [c]

/-- `s` in double quotes. -/
def quoted (s : String) : String :=
  String.ofList ('"' :: s.toList.flatMap quotedChar ++ ['"'])

end ScopeTokens
