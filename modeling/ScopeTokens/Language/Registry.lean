/-
  ScopeTokens.Language.Registry

  Languages together with their grammars. A grammar is inserted, or requested from
  a loader the first time that its scope is wanted. Answers of the loader are
  cached, also that there is no grammar; its errors are not, so that the next load
  requests the scope again. A loader may answer differently each time, so it is
  given all requests made before.
-/

import ScopeTokens.Language.Grammar
import ScopeTokens.Language.Table

namespace ScopeTokens

/-- Finds the grammar of a scope. The first argument lists the scopes that the loader was asked for
    before, the latest first, so that a loader may answer the same scope differently each time. -/
abbrev GrammarLoader (G : Type) :=
  List ScopeName → ScopeName → Except GrammarError (Option G)

/-- Languages, known grammars, and where further grammars come from. -/
structure Registry (G : Type) where
  languages : LanguageTable
  /-- Cached answers by scope; `none` is the answer that there is no grammar. -/
  grammars : List (ScopeName × Option G)
  loader : Option (GrammarLoader G)
  /-- The scopes that `loader` was asked for, the latest first. -/
  requests : List ScopeName

namespace Registry

variable {G : Type}

/-- A registry of plain text, without grammars. -/
def initial : Registry G :=
  ⟨.initial, [], none, []⟩

/-- A registry of the given languages, without grammars. -/
def ofLanguages (languages : LanguageTable) : Registry G :=
  ⟨languages, [], none, []⟩

/-- `r` with `loader` in place of the one it has. -/
def withLoader (r : Registry G) (loader : GrammarLoader G) : Registry G :=
  { r with loader := some loader }

/-- The cached answer for `scope`. -/
def cached? (r : Registry G) (scope : ScopeName) : Option (Option G) :=
  (r.grammars.find? fun e => e.1 == scope).map Prod.snd

/-- Caches `answer` for `scope`, in place of any other. -/
def remember (r : Registry G) (scope : ScopeName) (answer : Option G) : Registry G :=
  { r with grammars := (scope, answer) :: r.grammars.filter fun e => e.1 != scope }

/-- Caches `grammar` as the answer for `scope`. -/
def insertGrammar (r : Registry G) (scope : ScopeName) (grammar : G) : Registry G :=
  r.remember scope (some grammar)

/-- Number of scopes with a cached answer, `none` included. -/
def cachedCount (r : Registry G) : Nat :=
  r.grammars.length

/-- Number of calls to the loader. -/
def requestCount (r : Registry G) : Nat :=
  r.requests.length

/-- The grammar of `scope`, and the registry after that. Without a cached answer the loader is
    called, and what it answers is cached; an error is not, and the call counts all the same. -/
def loadGrammar (r : Registry G) (scope : ScopeName) :
    Except GrammarError (Option G) × Registry G :=
  match r.cached? scope with
  | some answer => (.ok answer, r)
  | none =>
    match r.loader with
    | none => (.ok none, r)
    | some loader =>
      let asked := { r with requests := scope :: r.requests }
      match loader r.requests scope with
      | .error e => (.error e, asked)
      | .ok answer => (.ok answer, asked.remember scope answer)

/-- Caches `grammar` as the answer for its own scope. -/
def registerGrammar {σ : Type} (r : Registry (Grammar σ)) (grammar : Grammar σ) :
    Registry (Grammar σ) :=
  r.insertGrammar grammar.scopeName grammar

/-! ## Known answers -/

theorem cached?_remember_self (r : Registry G) (scope : ScopeName) (answer : Option G) :
    (r.remember scope answer).cached? scope = some answer := by
  simp [cached?, remember]

/-- `remember` leaves the answers for other scopes alone. -/
theorem cached?_remember_of_ne (r : Registry G) {scope other : ScopeName} (h : other ≠ scope)
    (answer : Option G) : (r.remember scope answer).cached? other = r.cached? other := by
  have h_ne : (scope == other) = false := by simpa using fun h_eq => h h_eq.symm
  have h_skip : ∀ es : List (ScopeName × Option G),
      (es.filter fun e => e.1 != scope).find? (fun e => e.1 == other) =
        es.find? fun e => e.1 == other := by
    intro es
    induction es with
    | nil => rfl
    | cons e es ih =>
      by_cases h_e : e.1 = scope
      · have h_o : (e.1 == other) = false := by rw [h_e]; exact h_ne
        rw [List.filter_cons_of_neg (by simp [h_e]), List.find?_cons_of_neg (by simp [h_o]), ih]
      · rw [List.filter_cons_of_pos (by simp [h_e]), List.find?_cons, List.find?_cons, ih]
  simp only [cached?, remember, List.find?_cons, h_ne, h_skip]

/-- A cached answer is given as it is, and the loader is not called. -/
theorem loadGrammar_of_cached {r : Registry G} {scope : ScopeName} {answer : Option G}
    (h : r.cached? scope = some answer) : r.loadGrammar scope = (.ok answer, r) := by
  simp [loadGrammar, h]

end Registry

end ScopeTokens
