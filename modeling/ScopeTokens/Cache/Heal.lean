/-
  ScopeTokens.Cache.Heal

  Bringing entries up to date with text that changed unnoticed. `heal` computes a
  line anew if its entry was computed from another text, and goes on with the
  lines below it as long as the state handed down has changed or the next line is
  stale as well. `validateRange` heals the lines that edits touched first, and
  then the lines asked for; lines in between are left alone.
-/

import ScopeTokens.Cache.Basic

namespace ScopeTokens

namespace LineLexer

variable {σ : Type} [DecidableEq σ]

/-- What a line has to know of the line above it: the state that it ended in, whether it was redone,
    and whether that changed its end state. -/
structure Above (σ : Type) where
  state : Option σ
  redone : Bool
  changed : Bool

/-- What is above line 0. -/
def Above.top : Above σ := ⟨none, false, false⟩

/-- Whether line `line` is computed anew. Under a line that was redone, this depends on the state
    that it now starts in and on its text; elsewhere on its text only, and on whether `range` asks
    for it. -/
def Above.redoes (above : Above σ) (range : LineRange) (line : Nat) (e : LineEntry σ)
    (text : String) : Bool :=
  if above.redone then above.changed || e.isStale text
  else range.contains line && e.isStale text

/-- Entries after healing, the work that it took, and the error that stopped it, if any. -/
structure Healing (σ : Type) where
  entries : List (LineEntry σ)
  work : CacheStats
  failure : Option TokenizeError

/-- Heals the lines of `range`, and what depends on them below. `line` is the number of the first
    entry. -/
def heal (lx : LineLexer σ) (range : LineRange) (line : Nat) (above : Above σ) :
    List (LineEntry σ) → List String → Healing σ
  | e :: es, text :: texts =>
    if above.redoes range line e text then
      match lx.entry text above.state with
      | .error err => ⟨e :: es, .zero, some err⟩
      | .ok e' =>
        let rest := lx.heal range (line + 1)
          ⟨e'.endState, true, e'.endState != e.endState⟩ es texts
        ⟨e' :: rest.entries, e'.work + rest.work, rest.failure⟩
    else
      let rest := lx.heal range (line + 1) ⟨e.endState, false, false⟩ es texts
      ⟨e :: rest.entries, rest.work, rest.failure⟩
  | es, _ => ⟨es, .zero, none⟩

/-- Heals the lines of several ranges, one range after the other, up to the first error. -/
def healAll (lx : LineLexer σ) (texts : List String) :
    List LineRange → List (LineEntry σ) → Healing σ
  | [], es => ⟨es, .zero, none⟩
  | r :: rs, es =>
    let first := lx.heal r 0 .top es texts
    match first.failure with
    | some e => ⟨first.entries, first.work, some e⟩
    | none =>
      let rest := lx.healAll texts rs first.entries
      ⟨rest.entries, first.work + rest.work, rest.failure⟩

/-- Healing keeps the number of lines, also when it fails. -/
theorem length_heal (lx : LineLexer σ) (range : LineRange) (line : Nat) (above : Above σ)
    (es : List (LineEntry σ)) (texts : List String) :
    (lx.heal range line above es texts).entries.length = es.length := by
  induction es generalizing line above texts with
  | nil => cases texts <;> rfl
  | cons e es ih =>
    cases texts with
    | nil => rfl
    | cons text texts =>
      rw [heal]
      by_cases h : above.redoes range line e text = true
      · rw [if_pos h]
        cases lx.entry text above.state with
        | error => rfl
        | ok => simp [ih]
      · rw [if_neg h]
        simp [ih]

end LineLexer

namespace TokenCache

variable {σ : Type} [DecidableEq σ]

/-- Heals the logged ranges and then `range`, and empties the log. A cache with another number of
    lines than `src` is refreshed instead. -/
def validateRange (c : TokenCache σ) (registry : Registry (Grammar σ)) (src : LineSource)
    (range : LineRange) : Reply σ Unit :=
  if c.lineCount ≠ src.lineCount then c.refresh registry src
  else
    let healing := (c.lexer registry.languages).healAll src.lines (c.pending ++ [range]) c.lines
    let c' := { c.worked healing.work with lines := healing.entries, pending := [] }
    match healing.failure with
    | none => ⟨.ok (), c', registry⟩
    | some e => ⟨.error e, c'.degrade src, registry⟩

/-- Heals line `line`. -/
def validateLine (c : TokenCache σ) (registry : Registry (Grammar σ)) (src : LineSource)
    (line : Nat) : Reply σ Unit :=
  c.validateRange registry src ⟨line, line + 1⟩

/-- Heals all lines of `src`. -/
def validateDocument (c : TokenCache σ) (registry : Registry (Grammar σ)) (src : LineSource) :
    Reply σ Unit :=
  c.validateRange registry src ⟨0, src.lineCount⟩

end TokenCache

end ScopeTokens
