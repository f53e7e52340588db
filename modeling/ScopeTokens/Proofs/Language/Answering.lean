/-
  ScopeTokens.Proofs.Language.Answering

  Registries whose loader answers a scope the same way each time (`Steady`). Such
  a registry answers by a function of the scope alone (`Serves`): what is cached
  is what the loader would answer again, errors come back, and loading a grammar
  changes none of this (`Serves.loadGrammar`).
-/

import ScopeTokens.Language.Registry

namespace ScopeTokens

namespace Registry

variable {G : Type}

/-! ## Asking the loader -/

theorem loadGrammar_of_error {r : Registry G} {scope : ScopeName} {loader : GrammarLoader G}
    {e : GrammarError} (h_cached : r.cached? scope = none) (h_loader : r.loader = some loader)
    (h : loader r.requests scope = .error e) :
    r.loadGrammar scope = (.error e, { r with requests := scope :: r.requests }) := by
  obtain ⟨languages, grammars, _, requests⟩ := r
  subst h_loader
  simp only [loadGrammar, h_cached, h]

theorem loadGrammar_of_ok {r : Registry G} {scope : ScopeName} {loader : GrammarLoader G}
    {answer : Option G} (h_cached : r.cached? scope = none) (h_loader : r.loader = some loader)
    (h : loader r.requests scope = .ok answer) :
    r.loadGrammar scope =
      (.ok answer, { r with requests := scope :: r.requests }.remember scope answer) := by
  obtain ⟨languages, grammars, _, requests⟩ := r
  subst h_loader
  simp only [loadGrammar, h_cached, h]

/-! ## Answers that do not change -/

/-- What the loader answers for a scope does not depend on what it was asked before. -/
def Steady (r : Registry G) : Prop :=
  ∀ loader, r.loader = some loader →
    ∀ asked asked' scope, loader asked scope = loader asked' scope

/-- `r` has `languages`, and loads for each scope what `answers` says. -/
structure Serves (languages : LanguageTable)
    (answers : ScopeName → Except GrammarError (Option G)) (r : Registry G) : Prop where
  languages_eq : r.languages = languages
  cached : ∀ scope answer, r.cached? scope = some answer → answers scope = .ok answer
  without_loader : r.loader = none → ∀ scope, r.cached? scope = none → answers scope = .ok none
  loaded : ∀ loader, r.loader = some loader →
    ∀ asked scope, r.cached? scope = none → loader asked scope = answers scope

/-- A steady registry serves the answers that it would give at first. -/
theorem serves_of_steady {r : Registry G} (h : r.Steady) :
    r.Serves r.languages fun scope => (r.loadGrammar scope).1 where
  languages_eq := rfl
  cached scope answer h_cached := by rw [loadGrammar_of_cached h_cached]
  without_loader h_loader scope h_cached := by simp only [loadGrammar, h_cached, h_loader]
  loaded loader h_loader asked scope h_cached := by
    rw [h loader h_loader asked r.requests scope]
    simp only [loadGrammar, h_cached, h_loader]
    cases loader r.requests scope <;> rfl

namespace Serves

variable {languages : LanguageTable} {answers : ScopeName → Except GrammarError (Option G)}
  {r : Registry G}

/-- `Serves` does not depend on the requests made so far. -/
theorem asked (h : r.Serves languages answers) (requests : List ScopeName) :
    { r with requests := requests }.Serves languages answers :=
  ⟨h.languages_eq, h.cached, h.without_loader, h.loaded⟩

/-- `Serves` does not depend on whether an answer is cached. -/
theorem remember (h : r.Serves languages answers) {scope : ScopeName} {answer : Option G}
    (h_answer : answers scope = .ok answer) :
    (r.remember scope answer).Serves languages answers := by
  -- what is not cached afterwards was not cached before
  have h_missing : ∀ other, (r.remember scope answer).cached? other = none →
      r.cached? other = none := by
    intro other h_none
    by_cases h_eq : other = scope
    · rw [h_eq, cached?_remember_self] at h_none
      exact absurd h_none (Option.some_ne_none answer)
    · rwa [cached?_remember_of_ne r h_eq] at h_none
  refine ⟨h.languages_eq, ?_, fun h_loader other h_none => ?_,
    fun loader h_loader asked other h_none => ?_⟩
  · intro other known h_known
    by_cases h_eq : other = scope
    · subst h_eq
      rw [cached?_remember_self, Option.some.injEq] at h_known
      rw [← h_known, h_answer]
    · rw [cached?_remember_of_ne r h_eq] at h_known
      exact h.cached other known h_known
  · exact h.without_loader h_loader other (h_missing other h_none)
  · exact h.loaded loader h_loader asked other (h_missing other h_none)

/-- `loadGrammar` gives the answer of the scope, and the registry serves the same afterwards. -/
theorem loadGrammar (h : r.Serves languages answers) (scope : ScopeName) :
    (r.loadGrammar scope).1 = answers scope ∧
      (r.loadGrammar scope).2.Serves languages answers := by
  cases h_cached : r.cached? scope with
  | some answer =>
    rw [loadGrammar_of_cached h_cached]
    exact ⟨(h.cached scope answer h_cached).symm, h⟩
  | none =>
    cases h_loader : r.loader with
    | none =>
      simp only [Registry.loadGrammar, h_cached, h_loader]
      exact ⟨(h.without_loader h_loader scope h_cached).symm, h⟩
    | some loader =>
      have h_answer := h.loaded loader h_loader r.requests scope h_cached
      cases h_loaded : loader r.requests scope with
      | error e =>
        rw [loadGrammar_of_error h_cached h_loader h_loaded]
        exact ⟨h_loaded.symm.trans h_answer, h.asked _⟩
      | ok answer =>
        rw [loadGrammar_of_ok h_cached h_loader h_loaded]
        have h_ok : answers scope = .ok answer := h_answer.symm.trans h_loaded
        exact ⟨h_ok.symm, (h.asked _).remember h_ok⟩

end Serves

end Registry

end ScopeTokens
