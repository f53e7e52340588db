/-
  ScopeTokens.Cache.Edit

  Following edits. `followAll` takes the changes of a batch by ascending start,
  each with its lines as they are after the whole batch; lines that earlier
  changes added or removed shift the later ones. `follow` computes the lines of a
  change anew, from the end state of the entry above. If this leaves the number of
  lines and the state below as they were, the entries below stay. Otherwise the
  edit cascades: all entries below are computed anew, and the rest of the batch
  with them. A change that does not fit the cached or the present lines makes the
  cache `outdated`, and so does a batch that leaves it with the wrong number of
  lines; `onEdit` then refreshes it.
-/

import ScopeTokens.Cache.Basic
import ScopeTokens.Text.Change

namespace ScopeTokens

/-- What `follow` and `followAll` come to, with the cache as it is then. -/
inductive EditOutcome (σ : Type) where
  /-- The lines of the changes were computed anew, and no others. -/
  | absorbed (cache : TokenCache σ)
  /-- All lines from `line` on were computed anew; the rest of the batch is covered by that. -/
  | cascaded (line : Nat) (cache : TokenCache σ)
  /-- The lines do not fit, and the cache has to be refreshed. -/
  | outdated (cache : TokenCache σ)
  /-- A line could not be computed; the entries before it are in the cache. -/
  | failed (error : TokenizeError) (cache : TokenCache σ)

/-- The cache of an outcome. -/
def EditOutcome.cache {σ : Type} : EditOutcome σ → TokenCache σ
  | absorbed c => c
  | cascaded _ c => c
  | outdated c => c
  | failed _ c => c

/-- The lines of one change: it replaces the cached lines `start` to `stop` by the present lines
    `start` to `last`, both ends included. -/
structure TouchedLines where
  start : Nat
  stop : Nat
  last : Nat
  deriving DecidableEq, Repr

namespace TouchedLines

/-- The lines of `c` in a cache whose lines above were shifted by `shift`; a line number below zero
    is cut to zero. -/
def ofChange (c : TextChange) (shift : Int) : TouchedLines :=
  let start := (c.range.start.line + shift).toNat
  ⟨start, (c.range.stop.line + shift).toNat, start + c.insertedBreaks⟩

/-- Number of lines that the change adds. -/
def delta (t : TouchedLines) : Int :=
  (t.last : Int) - t.stop

end TouchedLines

namespace TokenCache

variable {σ : Type} [DecidableEq σ]

/-- `c` with `r` marked as touched. -/
def touch (c : TokenCache σ) (r : LineRange) : TokenCache σ :=
  { c with pending := c.pending.mark r }

/-- `c` with the entries of `redone` in place of the lines that `t` replaces, and the log moved
    along. -/
def splice (c : TokenCache σ) (t : TouchedLines) (redone : LineLexer.Run σ) : TokenCache σ :=
  { c.worked redone.work with
    lines := c.lines.take t.start ++ redone.entries ++ c.lines.drop (t.stop + 1)
    pending := c.pending.shift t.start t.stop t.last }

/-- `c` with the entries of `redone` for the lines of `t`, those of `below` for all lines under
    them, and everything from `t.start` on marked as touched. -/
def cascade (c : TokenCache σ) (src : LineSource) (t : TouchedLines)
    (redone below : LineLexer.Run σ) : TokenCache σ :=
  { (((c.splice t redone).touch ⟨t.start, src.lineCount⟩).worked .cascade).worked below.work with
    lines := c.lines.take t.start ++ redone.entries ++ below.entries }

/-- Follows the change of the lines `t`. With a grammar, it cascades if the number of lines or the
    state under them changed. -/
def follow (c : TokenCache σ) (lx : LineLexer σ) (src : LineSource) (t : TouchedLines) :
    EditOutcome σ :=
  match c.lines[t.stop]? with
  | none => .outdated c
  | some replaced =>
    if src.lineCount ≤ t.last then .outdated c
    else
      let redone := lx.run (LineLexer.stateBelow (c.lines.take t.start))
        ((src.lines.drop t.start).take (t.last + 1 - t.start))
      match redone.failure with
      | some e => .failed e (c.splice t redone)
      | none =>
        let state := LineLexer.stateBelow redone.entries
        if lx.grammar.isSome && (t.last != t.stop || state != replaced.endState) then
          let below := lx.run state (src.lines.drop (t.last + 1))
          match below.failure with
          | some e => .failed e (c.cascade src t redone below)
          | none => .cascaded t.start (c.cascade src t redone below)
        else .absorbed ((c.splice t redone).touch ⟨t.start, t.last + 1⟩)

/-- Follows the changes of a sorted batch, whose lines were shifted by `shift` so far. A batch that
    is `absorbed` must leave as many lines as `src` has. -/
def followAll (lx : LineLexer σ) (src : LineSource) (shift : Int) (c : TokenCache σ) :
    List TextChange → EditOutcome σ
  | [] => if c.lineCount = src.lineCount then .absorbed c else .outdated c
  | change :: changes =>
    let t := TouchedLines.ofChange change shift
    match c.follow lx src t with
    | .absorbed c' => followAll lx src (shift + t.delta) c' changes
    | outcome => outcome

/-- Follows the batch `changes` that led to `src`. A cache that is `outdated` is refreshed, one that
    failed degrades. -/
def onEdit (c : TokenCache σ) (registry : Registry (Grammar σ)) (src : LineSource)
    (changes : List TextChange) : Reply σ Unit :=
  match followAll (c.lexer registry.languages) src 0 c (TextChange.sortByStart changes) with
  | .absorbed c' => ⟨.ok (), c', registry⟩
  | .cascaded _ c' => ⟨.ok (), c', registry⟩
  | .outdated c' => c'.refresh registry src
  | .failed e c' => ⟨.error e, c'.degrade src, registry⟩

end TokenCache

end ScopeTokens
