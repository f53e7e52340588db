/-
  ScopeTokens.Proofs.Language.Loading

  What a registry has cached, by the calls that made it. For each scope there is
  the last grammar that was inserted, and the first answer that the loader gave;
  what is cached is the former, or else the latter (`remembers_of_after`). So a
  load gives one of the two, however the answers of the loader change, and calls
  the loader exactly as long as there is neither (`coherent_of_after`).
-/

import Mathlib.Data.List.Basic
import ScopeTokens.Proofs.Language.Answering

namespace ScopeTokens

variable {σ : Type}

/-- A call that loads a grammar, or inserts one. -/
inductive GrammarCall (σ : Type) where
  | load (scope : ScopeName)
  | insert (scope : ScopeName) (grammar : Grammar σ)
  | register (grammar : Grammar σ)

namespace GrammarCall

/-- The scope that a call is about. -/
def scope : GrammarCall σ → ScopeName
  | load scope => scope
  | insert scope _ => scope
  | register grammar => grammar.scopeName

/-- The grammar that a call inserts. -/
def inserted? : GrammarCall σ → Option (Grammar σ)
  | load _ => none
  | insert _ grammar => some grammar
  | register grammar => some grammar

/-- The last grammar that `calls` insert for `scope`. -/
def lastInserted? (calls : List (GrammarCall σ)) (scope : ScopeName) : Option (Grammar σ) :=
  ((calls.filter fun c => c.scope == scope).filterMap inserted?).getLast?

theorem lastInserted?_concat (calls : List (GrammarCall σ)) (c : GrammarCall σ)
    (scope : ScopeName) :
    lastInserted? (calls ++ [c]) scope =
      (if c.scope = scope then c.inserted? else none).or (lastInserted? calls scope) := by
  rw [lastInserted?, List.filter_append, List.filterMap_append, List.getLast?_append,
    lastInserted?]
  by_cases h : c.scope = scope
  · rw [List.filter_cons_of_pos (by simpa using h), if_pos h]
    cases c <;> rfl
  · rw [List.filter_cons_of_neg (by simpa using h), if_neg h]
    rfl

end GrammarCall

namespace Registry

open GrammarCall

variable {G : Type}

/-! ## What a load comes to -/

/-- What `loadGrammar` can come to: its answer, and the registry afterwards. -/
inductive Loaded (r : Registry G) (scope : ScopeName) :
    Except GrammarError (Option G) → Registry G → Prop where
  /-- The answer is cached. -/
  | known {answer : Option G} (h : r.cached? scope = some answer) : Loaded r scope (.ok answer) r
  /-- There is no loader. -/
  | unavailable (h : r.cached? scope = none) (h_loader : r.loader = none) :
    Loaded r scope (.ok none) r
  /-- The loader fails; the request is counted, and nothing is cached. -/
  | failed {loader : GrammarLoader G} {e : GrammarError} (h : r.cached? scope = none)
    (h_loader : r.loader = some loader) (h_answer : loader r.requests scope = .error e) :
    Loaded r scope (.error e) { r with requests := scope :: r.requests }
  /-- The loader answers, and the answer is cached. -/
  | answered {loader : GrammarLoader G} {answer : Option G} (h : r.cached? scope = none)
    (h_loader : r.loader = some loader) (h_answer : loader r.requests scope = .ok answer) :
    Loaded r scope (.ok answer) ({ r with requests := scope :: r.requests }.remember scope answer)

theorem loadGrammar_of_loader_none {r : Registry G} {scope : ScopeName}
    (h_cached : r.cached? scope = none) (h_loader : r.loader = none) :
    r.loadGrammar scope = (.ok none, r) := by
  simp only [loadGrammar, h_cached, h_loader]

theorem loaded_loadGrammar (r : Registry G) (scope : ScopeName) :
    Loaded r scope (r.loadGrammar scope).1 (r.loadGrammar scope).2 := by
  cases h : r.cached? scope with
  | some answer =>
    rw [loadGrammar_of_cached h]
    exact .known h
  | none =>
    cases h_loader : r.loader with
    | none =>
      rw [loadGrammar_of_loader_none h h_loader]
      exact .unavailable h h_loader
    | some loader =>
      cases h_answer : loader r.requests scope with
      | error e =>
        rw [loadGrammar_of_error h h_loader h_answer]
        exact .failed h h_loader h_answer
      | ok answer =>
        rw [loadGrammar_of_ok h h_loader h_answer]
        exact .answered h h_loader h_answer

/-! ## Calls -/

/-- `r` after a call. -/
def perform (r : Registry (Grammar σ)) : GrammarCall σ → Registry (Grammar σ)
  | .load scope => (r.loadGrammar scope).2
  | .insert scope grammar => r.insertGrammar scope grammar
  | .register grammar => r.registerGrammar grammar

/-- `r` after `calls`, one after the other. -/
def performEach (r : Registry (Grammar σ)) (calls : List (GrammarCall σ)) :
    Registry (Grammar σ) :=
  calls.foldl perform r

/-- `r` came about by these calls, the last one last. In between, languages may have been registered
    and a loader put in. -/
inductive After : List (GrammarCall σ) → Registry (Grammar σ) → Prop where
  | start (languages : LanguageTable) : After [] (.ofLanguages languages)
  | languages {calls : List (GrammarCall σ)} {r : Registry (Grammar σ)}
    (languages : LanguageTable) : After calls r → After calls { r with languages := languages }
  | loader {calls : List (GrammarCall σ)} {r : Registry (Grammar σ)}
    (loader : GrammarLoader (Grammar σ)) : After calls r → r.loader = none →
    After calls (r.withLoader loader)
  | call {calls : List (GrammarCall σ)} {r : Registry (Grammar σ)} (c : GrammarCall σ) :
    After calls r → After (calls ++ [c]) (r.perform c)

theorem After.performEach {calls : List (GrammarCall σ)} {r : Registry (Grammar σ)}
    (h : After calls r) (later : List (GrammarCall σ)) :
    After (calls ++ later) (r.performEach later) := by
  induction later generalizing calls r with
  | nil => rwa [List.append_nil]
  | cons c later ih =>
    rw [List.append_cons]
    exact ih (h.call c)

/-- The answers of `loader` to the requests, the latest first. -/
def answersTo (loader : GrammarLoader G) :
    List ScopeName → List (ScopeName × Except GrammarError (Option G))
  | [] => []
  | scope :: before => (scope, loader before scope) :: answersTo loader before

/-- The answers that the loader of `r` gave, the first one first. -/
def loaderAnswers (r : Registry G) : List (ScopeName × Except GrammarError (Option G)) :=
  match r.loader with
  | none => []
  | some loader => (answersTo loader r.requests).reverse

/-- The first answer for `scope` that was not an error. -/
def firstAnswer? (r : Registry G) (scope : ScopeName) : Option (Option G) :=
  r.loaderAnswers.findSome? fun a => if a.1 = scope then a.2.toOption else none

section

variable {r : Registry G} {loader : GrammarLoader G}

/-- A further request is answered after all others. -/
theorem firstAnswer?_asked (h : r.loader = some loader) (asked scope : ScopeName) :
    firstAnswer? { r with requests := asked :: r.requests } scope =
      (r.firstAnswer? scope).or
        (if asked = scope then (loader r.requests asked).toOption else none) := by
  simp only [firstAnswer?, loaderAnswers, h, answersTo, List.reverse_cons, List.findSome?_append,
    List.findSome?_singleton]

theorem firstAnswer?_of_loader_none (h : r.loader = none) (scope : ScopeName) :
    r.firstAnswer? scope = none := by
  rw [firstAnswer?, loaderAnswers, h]
  rfl

theorem firstAnswer?_remember (r : Registry G) (scope other : ScopeName) (answer : Option G) :
    (r.remember scope answer).firstAnswer? other = r.firstAnswer? other := rfl

end

/-! ## What is known -/

/-- What is cached for each scope is the last grammar inserted, or else the first answer. -/
structure Remembers (calls : List (GrammarCall σ)) (r : Registry (Grammar σ)) : Prop where
  cached : ∀ scope,
    r.cached? scope = ((lastInserted? calls scope).map some).or (r.firstAnswer? scope)
  /-- Without a loader nothing was requested. -/
  unasked : r.loader = none → r.requests = []

section

variable {calls : List (GrammarCall σ)} {r : Registry (Grammar σ)}

theorem Remembers.cached_eq_none_iff (h : Remembers calls r) (scope : ScopeName) :
    r.cached? scope = none ↔ lastInserted? calls scope = none ∧ r.firstAnswer? scope = none := by
  rw [h.cached, Option.or_eq_none_iff, Option.map_eq_none_iff]

/-- Inserting a grammar makes it the last one for its scope. -/
theorem Remembers.insertGrammar (h : Remembers calls r) {c : GrammarCall σ} {grammar : Grammar σ}
    (h_c : c.inserted? = some grammar) :
    Remembers (calls ++ [c]) (r.insertGrammar c.scope grammar) where
  cached other := by
    rw [Registry.insertGrammar, firstAnswer?_remember, lastInserted?_concat, h_c]
    by_cases h_eq : c.scope = other
    · rw [if_pos h_eq, ← h_eq, cached?_remember_self]
      rfl
    · rw [if_neg h_eq, cached?_remember_of_ne r (Ne.symm h_eq), h.cached]
      rfl
  unasked := h.unasked

/-- A load keeps what was inserted, and adds the answer of the loader. -/
theorem Remembers.load (h : Remembers calls r) {r' : Registry (Grammar σ)} {scope : ScopeName}
    {reply : Except GrammarError (Option (Grammar σ))} (h_loaded : Loaded r scope reply r') :
    Remembers (calls ++ [.load scope]) r' := by
  have h_last (other : ScopeName) :
      lastInserted? (calls ++ [.load scope]) other = lastInserted? calls other := by
    rw [lastInserted?_concat]
    exact congrArg (Option.or · _) (ite_self none)
  cases h_loaded with
  | known h_cached => exact ⟨fun other => h_last other ▸ h.cached other, h.unasked⟩
  | unavailable h_cached h_loader =>
    exact ⟨fun other => h_last other ▸ h.cached other, h.unasked⟩
  | failed h_cached h_loader h_answer =>
    refine ⟨fun other => ?_, fun h_none => absurd (h_loader.symm.trans h_none) nofun⟩
    rw [h_last, firstAnswer?_asked h_loader, h_answer, Except.toOption, ite_self, Option.or_none,
      ← h.cached other]
    rfl
  | answered h_cached h_loader h_answer =>
    refine ⟨fun other => ?_, fun h_none => absurd (h_loader.symm.trans h_none) nofun⟩
    rw [h_last, firstAnswer?_remember, firstAnswer?_asked h_loader, h_answer]
    -- only the entry of `scope` itself changes, and there neither insertion nor answer stood before
    by_cases h_eq : scope = other
    · subst h_eq
      obtain ⟨h_inserted, h_first⟩ := (h.cached_eq_none_iff scope).1 h_cached
      rw [cached?_remember_self, h_inserted, h_first, if_pos rfl]
      rfl
    · rw [cached?_remember_of_ne _ (Ne.symm h_eq), if_neg h_eq, Option.or_none, ← h.cached other]
      rfl

theorem remembers_of_after (h : After calls r) : Remembers calls r := by
  induction h with
  | start languages => exact ⟨fun _ => rfl, fun _ => rfl⟩
  | languages languages h ih => exact ⟨ih.cached, ih.unasked⟩
  | @loader calls r loader h h_none ih =>
    refine ⟨fun scope => ?_, nofun⟩
    -- the loader was not asked yet
    have h_first : (r.withLoader loader).firstAnswer? scope = none := by
      simp only [firstAnswer?, loaderAnswers, withLoader, ih.unasked h_none, answersTo,
        List.reverse_nil, List.findSome?_nil]
    rw [h_first, ← firstAnswer?_of_loader_none h_none scope, ← ih.cached scope]
    rfl
  | call c h ih =>
    cases c with
    | load scope => exact ih.load (loaded_loadGrammar _ scope)
    | insert scope grammar => exact ih.insertGrammar rfl
    | register grammar => exact ih.insertGrammar rfl

end

/-! ## What a call leaves alone -/

/-- What a call for `scope` may do to a registry: cache something for `scope`, and call the loader
    for it while nothing is cached. -/
structure Touches (scope : ScopeName) (r r' : Registry G) : Prop where
  loader_eq : r'.loader = r.loader
  cached_eq : ∀ other, scope ≠ other → r'.cached? other = r.cached? other
  known : (r.cached? scope).isSome → (r'.cached? scope).isSome ∧ r'.requests = r.requests
  requests : r'.requests = r.requests ∨ r'.requests = scope :: r.requests

theorem Touches.refl (scope : ScopeName) (r : Registry G) : Touches scope r r :=
  ⟨rfl, fun _ _ => rfl, fun h => ⟨h, rfl⟩, .inl rfl⟩

theorem touches_insertGrammar (r : Registry G) (scope : ScopeName) (grammar : G) :
    Touches scope r (r.insertGrammar scope grammar) where
  loader_eq := rfl
  cached_eq _ h_ne := cached?_remember_of_ne r h_ne.symm _
  known _ := ⟨by rw [insertGrammar, cached?_remember_self]; rfl, rfl⟩
  requests := .inl rfl

theorem Loaded.touches {r r' : Registry G} {scope : ScopeName}
    {reply : Except GrammarError (Option G)} (h_loaded : Loaded r scope reply r') :
    Touches scope r r' := by
  cases h_loaded with
  | known h_cached => exact .refl scope r
  | unavailable h_cached h_loader => exact .refl scope r
  | failed h_cached h_loader h_answer =>
    exact ⟨rfl, fun _ _ => rfl, fun h => by simp [h_cached] at h, .inr rfl⟩
  | answered h_cached h_loader h_answer =>
    exact ⟨rfl, fun _ h_ne => cached?_remember_of_ne _ h_ne.symm _,
      fun h => by simp [h_cached] at h, .inr rfl⟩

theorem touches_perform (r : Registry (Grammar σ)) (c : GrammarCall σ) :
    Touches c.scope r (r.perform c) := by
  cases c with
  | load scope => exact (loaded_loadGrammar r scope).touches
  | insert scope grammar => exact touches_insertGrammar r scope grammar
  | register grammar => exact touches_insertGrammar r grammar.scopeName grammar

section

variable {r : Registry (Grammar σ)} {scope : ScopeName}

/-- Once something is cached for `scope`, later calls do not request it again. -/
theorem exists_asked_performEach (h : (r.cached? scope).isSome) (later : List (GrammarCall σ)) :
    ∃ asked, (r.performEach later).requests = asked ++ r.requests ∧ scope ∉ asked := by
  induction later generalizing r with
  | nil => exact ⟨[], rfl, List.not_mem_nil⟩
  | cons c later ih =>
    have h_touches := touches_perform r c
    -- a call for `scope` itself finds the entry and asks nothing
    by_cases h_eq : c.scope = scope
    · rw [h_eq] at h_touches
      obtain ⟨h_known, h_requests⟩ := h_touches.known h
      rw [← h_requests]
      exact ih h_known
    · rw [← h_touches.cached_eq scope h_eq] at h
      obtain ⟨asked, h_asked, h_not_mem⟩ := ih h
      rcases h_touches.requests with h_requests | h_requests
      · exact ⟨asked, h_requests ▸ h_asked, h_not_mem⟩
      · refine ⟨asked ++ [c.scope], ?_, ?_⟩
        · rw [h_requests] at h_asked
          rw [List.append_assoc]
          exact h_asked
        · rw [List.mem_append, List.mem_singleton]
          exact fun h_mem => h_mem.elim h_not_mem fun h_scope => h_eq h_scope.symm

/-- Calls for other scopes keep the loader, and what is cached for `scope`. -/
theorem performEach_of_ne {later : List (GrammarCall σ)} (h : ∀ c ∈ later, c.scope ≠ scope) :
    (r.performEach later).loader = r.loader ∧
      (r.performEach later).cached? scope = r.cached? scope := by
  induction later generalizing r with
  | nil => exact ⟨rfl, rfl⟩
  | cons c later ih =>
    have h_touches := touches_perform r c
    obtain ⟨h_loader, h_cached⟩ := ih (r := r.perform c) fun c' h_c' =>
      h c' (List.mem_cons_of_mem c h_c')
    exact ⟨h_loader.trans h_touches.loader_eq,
      h_cached.trans (h_touches.cached_eq scope (h c List.mem_cons_self))⟩

/-- With a loader and nothing cached, a load is a request. -/
theorem requests_loadGrammar {loader : GrammarLoader G} {r : Registry G} {scope : ScopeName}
    (h_cached : r.cached? scope = none) (h_loader : r.loader = some loader) :
    (r.loadGrammar scope).2.requests = scope :: r.requests := by
  cases h_answer : loader r.requests scope with
  | error e => rw [loadGrammar_of_error h_cached h_loader h_answer]
  | ok answer => rw [loadGrammar_of_ok h_cached h_loader h_answer]; rfl

end

/-! ## Coherence -/

/-- What `r`, which came about by `calls`, does with `scope`. -/
structure Coherent (calls : List (GrammarCall σ)) (r : Registry (Grammar σ))
    (scope : ScopeName) : Prop where
  /-- The last inserted grammar is loaded. -/
  inserted : ∀ grammar, lastInserted? calls scope = some grammar →
    r.loadGrammar scope = (.ok (some grammar), r)
  /-- Without one, the first answer of the loader is. -/
  answered : ∀ answer, lastInserted? calls scope = none → r.firstAnswer? scope = some answer →
    r.loadGrammar scope = (.ok answer, r)
  /-- While there is no answer, a load calls the loader, and its answer becomes the first. -/
  asked : ∀ loader answer, r.loader = some loader → lastInserted? calls scope = none →
    r.firstAnswer? scope = none → loader r.requests scope = .ok answer →
    (r.loadGrammar scope).1 = .ok answer ∧
      (r.loadGrammar scope).2.requests = scope :: r.requests ∧
      (r.loadGrammar scope).2.firstAnswer? scope = some answer
  /-- If the loader fails, nothing is cached, and the next load calls it again. -/
  failed : ∀ loader e, r.loader = some loader → lastInserted? calls scope = none →
    r.firstAnswer? scope = none → loader r.requests scope = .error e →
    r.loadGrammar scope = (.error e, { r with requests := scope :: r.requests }) ∧
      ∀ later : List (GrammarCall σ), (∀ c ∈ later, c.scope ≠ scope) →
        (((r.loadGrammar scope).2.performEach later).loadGrammar scope).2.requests =
          scope :: ((r.loadGrammar scope).2.performEach later).requests
  /-- Without a loader the answer is `none`, and is not cached. -/
  unavailable : r.loader = none → lastInserted? calls scope = none →
    r.loadGrammar scope = (.ok none, r) ∧ r.cached? scope = none
  /-- Once there is a grammar or an answer, no call requests `scope` again. -/
  settled : lastInserted? calls scope ≠ none ∨ r.firstAnswer? scope ≠ none →
    ∀ later, ∃ asked, (r.performEach later).requests = asked ++ r.requests ∧ scope ∉ asked
  /-- Calls for other scopes do not change what is cached for `scope`. -/
  others : ∀ c : GrammarCall σ, c.scope ≠ scope →
    (r.perform c).cached? scope = r.cached? scope

/-- Whatever the loader answers and whatever the calls are, a load of `scope` gives the last grammar
    inserted for it, or else the first answer that the loader gave. While there is neither, each
    load calls the loader; afterwards none does, and errors are never cached (`Coherent`). -/
theorem coherent_of_after {calls : List (GrammarCall σ)} {r : Registry (Grammar σ)}
    (h : After calls r) (scope : ScopeName) : Coherent calls r scope := by
  have h_remembers := remembers_of_after h
  have h_cached := h_remembers.cached scope
  have h_missing := h_remembers.cached_eq_none_iff scope
  -- every clause follows from the entry of `scope`, which `h_cached` reads off the calls
  refine ⟨?_, ?_, ?_, ?_, ?_, ?_, ?_⟩
  · intro grammar h_inserted
    rw [h_inserted] at h_cached
    exact loadGrammar_of_cached h_cached
  · intro answer h_inserted h_first
    rw [h_inserted, h_first] at h_cached
    exact loadGrammar_of_cached h_cached
  · intro loader answer h_loader h_inserted h_first h_answer
    have h_none := h_missing.2 ⟨h_inserted, h_first⟩
    rw [loadGrammar_of_ok h_none h_loader h_answer]
    refine ⟨rfl, rfl, ?_⟩
    rw [firstAnswer?_remember, firstAnswer?_asked h_loader, h_first, if_pos rfl, h_answer]
    rfl
  · intro loader e h_loader h_inserted h_first h_answer
    have h_none := h_missing.2 ⟨h_inserted, h_first⟩
    have h_load := loadGrammar_of_error h_none h_loader h_answer
    refine ⟨h_load, fun later h_later => ?_⟩
    -- calls for other scopes leave loader and entry alone, so a later load asks again
    obtain ⟨h_loader', h_cached'⟩ := performEach_of_ne (r := (r.loadGrammar scope).2) h_later
    rw [h_load] at h_loader' h_cached' ⊢
    exact requests_loadGrammar (h_cached'.trans h_none) (h_loader'.trans h_loader)
  · intro h_loader h_inserted
    have h_none := h_missing.2 ⟨h_inserted, firstAnswer?_of_loader_none h_loader scope⟩
    exact ⟨loadGrammar_of_loader_none h_none h_loader, h_none⟩
  · intro h_settled later
    refine exists_asked_performEach (Option.isSome_iff_ne_none.2 fun h_none => ?_) later
    obtain ⟨h_inserted, h_first⟩ := h_missing.1 h_none
    exact h_settled.elim (fun h_ne => h_ne h_inserted) fun h_ne => h_ne h_first
  · intro c h_ne
    exact (touches_perform r c).cached_eq scope h_ne

/-- Fails on the first request for a scope, and answers `none` on later ones. -/
def moodyLoader : GrammarLoader (Grammar Unit) :=
  fun before scope =>
    if scope ∈ before then .ok none else .error (.loadFailed scope "not now")

/-- A grammar without tokens. -/
def plainGrammar : Grammar Unit :=
  ⟨⟨"b"⟩, fun _ _ => .ok ⟨[], ()⟩⟩

/-- One scope is loaded twice, and one is given a grammar after its load has failed. -/
def moodyCalls : List (GrammarCall Unit) :=
  [.load ⟨"a"⟩, .load ⟨"b"⟩, .load ⟨"a"⟩, .register plainGrammar]

def moodyRegistry : Registry (Grammar Unit) :=
  ((ofLanguages .initial).withLoader moodyLoader).performEach moodyCalls

theorem coherent_of_after_moodyRegistry :
    After moodyCalls moodyRegistry ∧
    moodyRegistry.loadGrammar ⟨"a"⟩ = (.ok none, moodyRegistry) ∧
    moodyRegistry.loadGrammar ⟨"b"⟩ = (.ok (some plainGrammar), moodyRegistry) ∧
    moodyRegistry.loadGrammar ⟨"c"⟩ =
      (.error (.loadFailed ⟨"c"⟩ "not now"),
        { moodyRegistry with requests := [⟨"c"⟩, ⟨"a"⟩, ⟨"b"⟩, ⟨"a"⟩] }) := by
  have h : After moodyCalls moodyRegistry :=
    (After.loader moodyLoader (.start .initial) rfl).performEach moodyCalls
  have h_loader : moodyRegistry.loader = some moodyLoader := rfl
  refine ⟨h, ?_, ?_, ?_⟩
  · exact (coherent_of_after h ⟨"a"⟩).answered none rfl rfl
  · exact (coherent_of_after h ⟨"b"⟩).inserted plainGrammar rfl
  · exact ((coherent_of_after h ⟨"c"⟩).failed moodyLoader _ h_loader rfl rfl rfl).1

end Registry

end ScopeTokens
