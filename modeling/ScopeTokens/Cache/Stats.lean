/-
  ScopeTokens.Cache.Stats

  Counters of the work that one token cache has done.
-/

namespace ScopeTokens

/-- Counters of the work that a cache has done since it was made. -/
structure CacheStats where
  /-- Lines given to the grammar without an error. -/
  linesTokenized : Nat
  /-- Lines not given to the grammar because of `maxLineLength`. -/
  linesSkipped : Nat
  /-- Edits that made all lines below them be computed anew. -/
  cascades : Nat
  /-- Calls of `refresh`, those inside edits and queries included. -/
  refreshes : Nat
  deriving DecidableEq, Repr, Inhabited

namespace CacheStats

/-- No work. -/
def zero : CacheStats := ⟨0, 0, 0, 0⟩

/-- One line given to the grammar. -/
def tokenized : CacheStats := ⟨1, 0, 0, 0⟩

/-- One line skipped for its length. -/
def skipped : CacheStats := ⟨0, 1, 0, 0⟩

/-- One edit that went on below its own lines. -/
def cascade : CacheStats := ⟨0, 0, 1, 0⟩

/-- One refresh. -/
def refresh : CacheStats := ⟨0, 0, 0, 1⟩

/-- The counters of `a` and `b` together. -/
def add (a b : CacheStats) : CacheStats :=
  ⟨a.linesTokenized + b.linesTokenized, a.linesSkipped + b.linesSkipped,
    a.cascades + b.cascades, a.refreshes + b.refreshes⟩

instance : Add CacheStats := ⟨add⟩

/-- What was added to `earlier` to give `now`. -/
def since (now earlier : CacheStats) : CacheStats :=
  ⟨now.linesTokenized - earlier.linesTokenized, now.linesSkipped - earlier.linesSkipped,
    now.cascades - earlier.cascades, now.refreshes - earlier.refreshes⟩

theorem add_def (a b : CacheStats) : a + b =
    ⟨a.linesTokenized + b.linesTokenized, a.linesSkipped + b.linesSkipped,
      a.cascades + b.cascades, a.refreshes + b.refreshes⟩ := rfl

theorem add_assoc (a b c : CacheStats) : a + b + c = a + (b + c) := by
  simp [add_def, Nat.add_assoc]

theorem add_zero (a : CacheStats) : a + zero = a := rfl

theorem zero_add (a : CacheStats) : zero + a = a := by
  simp [add_def, zero]

/-- `since` undoes `+`. -/
theorem since_add (earlier work : CacheStats) : (earlier + work).since earlier = work := by
  simp [since, add_def]

end CacheStats

end ScopeTokens
