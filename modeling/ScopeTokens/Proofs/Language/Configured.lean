/-
  ScopeTokens.Proofs.Language.Configured

  Tables for configurations. `ofConfig` makes calls, first one for each language
  and then one for each prefix, up to the first that is refused
  (`ofConfig_eq_carryOut`). All are accepted exactly for `Consistent`
  configurations, and the table then `Describes` the configuration. For any other
  one, the error is that of the first language at fault, or else of the first
  language with a prefix that leads nowhere (`ofConfig_of_ordered`).
-/

import ScopeTokens.Proofs.Language.Registrations

namespace ScopeTokens

/-! ## Configurations -/

namespace LanguagesConfig

open LanguageTable

/-- The prefixes of each language ascend, as the keys of a map do. -/
def Ordered (config : LanguagesConfig) : Prop :=
  ∀ d ∈ config.languages, d.embedded.Pairwise fun a b => a.1 < b.1

instance (config : LanguagesConfig) : Decidable config.Ordered :=
  inferInstanceAs (Decidable (∀ d ∈ config.languages, _))

/-- The names that prefixes may lead to. -/
def namesOf (ds : List LanguageDecl) : List String :=
  plainTextName :: ds.map LanguageDecl.id

/-- The languages `ds` can be registered, one after the other. -/
structure Declarable (ds : List LanguageDecl) : Prop where
  nodup : (namesOf ds).Nodup
  length_le : ds.length ≤ 254

/-- Every prefix of `d` leads to a language. -/
def Resolved (config : LanguagesConfig) (d : LanguageDecl) : Prop :=
  ∀ e ∈ d.embedded, e.2 ∈ namesOf config.languages

/-- Names are distinct and none is plain text, there are at most 254 languages, and every prefix
    leads to one of them or to plain text. -/
structure Consistent (config : LanguagesConfig) : Prop where
  distinct : (config.languages.map LanguageDecl.id).Nodup
  notPlainText : ∀ d ∈ config.languages, d.id ≠ plainTextName
  length_le : config.languages.length ≤ 254
  resolved : ∀ d ∈ config.languages, ∀ e ∈ d.embedded,
    e.2 = plainTextName ∨ ∃ d' ∈ config.languages, d'.id = e.2

/-- `t` has plain text first, and then each language as `config` declares it. -/
structure Describes (config : LanguagesConfig) (t : LanguageTable) : Prop where
  length : t.languages.length = config.languages.length + 1
  plainText : t.idOf plainTextName = .plainText ∧
    t.get? .plainText = some ⟨plainTextName, none, []⟩
  number : ∀ i d, config.languages[i]? = some d → (t.idOf d.id).raw.toNat = i + 2
  language : ∀ d ∈ config.languages, t.get? (t.idOf d.id) = some ⟨d.id,
    d.scopeName.map ScopeName.mk, longestFirst (d.embedded.map fun e => (⟨e.1⟩, t.idOf e.2))⟩

/-- What is wrong with `d`, after the languages `before`, which can be registered. -/
inductive DeclFault (before : List LanguageDecl) (d : LanguageDecl) : RegistrationError → Prop where
  | duplicate (h_repeats : d.id ∈ namesOf before) : DeclFault before d (.duplicateLanguage d.id)
  | tooMany (h_new : d.id ∉ namesOf before) (h_full : 254 ≤ before.length) :
    DeclFault before d .tooManyLanguages

/-- `Fault config e`: `e` is the first thing wrong with `config`. -/
inductive Fault (config : LanguagesConfig) : RegistrationError → Prop where
  /-- The first language at fault, by `DeclFault`. -/
  | declaration {before after : List LanguageDecl} {d : LanguageDecl} {e : RegistrationError}
    (h_split : config.languages = before ++ d :: after) (h_before : Declarable before)
    (h_fault : DeclFault before d e) : Fault config e
  /-- The smallest prefix that leads nowhere, of the first language that has one. -/
  | embedding {before after : List LanguageDecl} {d : LanguageDecl} {scopePrefix target : String}
    (h_languages : Declarable config.languages)
    (h_split : config.languages = before ++ d :: after)
    (h_before : ∀ d' ∈ before, config.Resolved d')
    (h_entry : (scopePrefix, target) ∈ d.embedded)
    (h_target : target ∉ namesOf config.languages)
    (h_smallest : ∀ e ∈ d.embedded, e.2 ∉ namesOf config.languages → scopePrefix ≤ e.1) :
    Fault config (.unknownLanguage target)

/-- The calls that register `ds`. -/
def languageCalls (ds : List LanguageDecl) : List Registration :=
  ds.map fun d => .language d.id d.scopeName

/-- The calls that declare the prefixes of `d`. -/
def prefixCalls (d : LanguageDecl) : List Registration :=
  d.embedded.map fun e => .embedded d.id e.1 e.2

/-- All calls for `config`, languages before prefixes. -/
def registrations (config : LanguagesConfig) : List Registration :=
  languageCalls config.languages ++ config.languages.flatMap prefixCalls

end LanguagesConfig

/-! ## Calls up to a refusal -/

namespace LanguageTable

/-- `t` after all calls, or the first refusal. -/
def carryOut (t : LanguageTable) : List Registration → Except RegistrationError LanguageTable
  | [] => .ok t
  | r :: rs =>
    match t.call r with
    | .error e => .error e
    | .ok (_, t') => t'.carryOut rs

theorem carryOut_append (t : LanguageTable) (rs rs' : List Registration) :
    t.carryOut (rs ++ rs') =
      match t.carryOut rs with
      | .error e => .error e
      | .ok t' => t'.carryOut rs' := by
  induction rs generalizing t with
  | nil => rfl
  | cons r rs ih =>
    rw [List.cons_append, carryOut, carryOut]
    cases t.call r with
    | error e => rfl
    | ok after => exact ih after.2

open LanguagesConfig

theorem registerAll_eq_carryOut (t : LanguageTable) (ds : List LanguageDecl) :
    t.registerAll ds = t.carryOut (languageCalls ds) := by
  induction ds generalizing t with
  | nil => rfl
  | cons d ds ih =>
    rw [registerAll, languageCalls, List.map_cons, carryOut, call]
    cases t.register d.id d.scopeName with
    | error e => rfl
    | ok r => exact ih r.2

theorem embedAll_eq_carryOut (t : LanguageTable) (host : String) (es : List (String × String)) :
    t.embedAll host es = t.carryOut (es.map fun e => .embedded host e.1 e.2) := by
  induction es generalizing t with
  | nil => rfl
  | cons e es ih =>
    rw [embedAll, List.map_cons, carryOut, call]
    cases t.registerEmbedded host e.1 e.2 with
    | error e => rfl
    | ok t' => exact ih t'

theorem embedDecls_eq_carryOut (t : LanguageTable) (ds : List LanguageDecl) :
    t.embedDecls ds = t.carryOut (ds.flatMap prefixCalls) := by
  induction ds generalizing t with
  | nil => rfl
  | cons d ds ih =>
    rw [embedDecls, embedAll_eq_carryOut, List.flatMap_cons, carryOut_append, prefixCalls]
    cases t.carryOut (d.embedded.map fun e => .embedded d.id e.1 e.2) with
    | error e => rfl
    | ok t' => exact ih t'

theorem ofConfig_eq_carryOut (config : LanguagesConfig) :
    ofConfig config = initial.carryOut config.registrations := by
  rw [ofConfig, registrations, carryOut_append, registerAll_eq_carryOut]
  cases initial.carryOut (languageCalls config.languages) with
  | error e => rfl
  | ok t => exact embedDecls_eq_carryOut t config.languages

end LanguageTable

namespace Registration

open LanguageTable

variable {log : List Registration}

/-- All `calls` are accepted, or one is refused after those `before` it were accepted. -/
theorem carryOut_toTable (h : Legal log) (calls : List Registration) :
    (Legal (log ++ calls) ∧ (toTable log).carryOut calls = .ok (toTable (log ++ calls))) ∨
    ∃ before r after e, calls = before ++ r :: after ∧ Legal (log ++ before) ∧
      Refused (log ++ before) r e ∧ (toTable log).carryOut calls = .error e := by
  induction calls generalizing log with
  | nil =>
    rw [List.append_nil]
    exact .inl ⟨h, rfl⟩
  | cons r rs ih =>
    cases h_r : refusal? log r with
    | some e =>
      have h_refused := refused_of_refusal? h_r
      rw [carryOut, call_of_refused h_refused]
      exact .inr ⟨[], r, rs, e, rfl, by rwa [List.append_nil], by rwa [List.append_nil], rfl⟩
    | none =>
      rw [carryOut, call_of_accepted h h_r]
      -- the first call goes to the end of the log, and the induction goes on from there
      have h_rest := ih (h.concat h_r)
      rw [List.append_assoc, List.singleton_append] at h_rest
      refine h_rest.imp_right ?_
      rintro ⟨before, r', after, e, rfl, h_legal, h_refused, h_error⟩
      rw [List.append_assoc, List.singleton_append] at h_legal h_refused
      exact ⟨r :: before, r', after, e, rfl, h_legal, h_refused, h_error⟩

end Registration

namespace LanguagesConfig

open LanguageTable hiding names
open Registration

variable {config : LanguagesConfig} {ds before after : List LanguageDecl} {d : LanguageDecl}
  {e : RegistrationError}

/-! ## Languages -/

theorem languages_languageCalls (ds : List LanguageDecl) :
    Registration.languages (languageCalls ds) =
      (plainTextName, none) :: ds.map fun d => (d.id, d.scopeName) := by
  rw [Registration.languages, languageCalls, List.filterMap_map]
  exact congrArg (List.cons _) (congrFun List.filterMap_eq_map ds)

theorem names_languageCalls (ds : List LanguageDecl) : names (languageCalls ds) = namesOf ds := by
  rw [names, languages_languageCalls, List.map_cons, List.map_map]
  rfl

theorem length_namesOf (ds : List LanguageDecl) : (namesOf ds).length = ds.length + 1 := by
  rw [namesOf, List.length_cons, List.length_map]

theorem legal_languageCalls_iff : Legal (languageCalls ds) ↔ Declarable ds := by
  constructor
  · intro h
    have h_nodup := h.nodup
    have h_length := h.length_le
    rw [names_languageCalls] at h_nodup h_length
    rw [length_namesOf] at h_length
    exact ⟨h_nodup, Nat.le_of_succ_le_succ h_length⟩
  · intro h
    refine ⟨?_, ?_, fun host scopePrefix target h_mem => ?_⟩
    · rw [names_languageCalls]
      exact h.nodup
    · rw [names_languageCalls, length_namesOf]
      exact Nat.succ_le_succ h.length_le
    · obtain ⟨d, -, h_d⟩ := List.mem_map.1 h_mem
      exact absurd h_d nofun

theorem declFault_of_refused (h : Refused (languageCalls before) (.language d.id d.scopeName) e) :
    DeclFault before d e := by
  cases h with
  | duplicate h_mem =>
    rw [names_languageCalls] at h_mem
    exact .duplicate h_mem
  | full h_new h_full =>
    rw [names_languageCalls] at h_new h_full
    rw [length_namesOf] at h_full
    exact .tooMany h_new (Nat.le_of_succ_le_succ h_full)

/-- Registering the languages succeeds, or one of them is at fault. -/
theorem carryOut_languageCalls (config : LanguagesConfig) :
    (Declarable config.languages ∧ initial.carryOut (languageCalls config.languages) =
      .ok (toTable (languageCalls config.languages))) ∨
    ∃ e, initial.carryOut (languageCalls config.languages) = .error e ∧ config.Fault e := by
  have h_run := carryOut_toTable legal_nil (languageCalls config.languages)
  rw [toTable_nil, List.nil_append] at h_run
  rcases h_run with ⟨h_legal, h_ok⟩ | ⟨before, r, after, e, h_split, h_legal, h_refused, h_error⟩
  · exact .inl ⟨legal_languageCalls_iff.1 h_legal, h_ok⟩
  -- the refused call registers a declaration, and those before it were registered
  · obtain ⟨ds, ds', h_languages, rfl, h_rest⟩ := List.map_eq_append_iff.1 h_split
    obtain ⟨d, ds', rfl, rfl, rfl⟩ := List.map_eq_cons_iff.1 h_rest
    refine .inr ⟨e, h_error, .declaration h_languages (legal_languageCalls_iff.1 h_legal) ?_⟩
    exact declFault_of_refused h_refused

/-! ## Prefixes -/

/-- An element of a `flatMap` is in the list of one element. -/
theorem flatMap_eq_append_cons {α β : Type} {f : α → List β} {as : List α} {before after : List β}
    {b : β} (h : as.flatMap f = before ++ b :: after) :
    ∃ as₁ a as₂ bs₁ bs₂, as = as₁ ++ a :: as₂ ∧ f a = bs₁ ++ b :: bs₂ ∧
      before = as₁.flatMap f ++ bs₁ := by
  induction as generalizing before with
  | nil => exact absurd h (by simp)
  | cons a as ih =>
    rw [List.flatMap_cons] at h
    rcases List.append_eq_append_iff.1 h with ⟨rest, rfl, h_rest⟩ | ⟨rest, h_a, h_rest⟩
    · obtain ⟨as₁, a', as₂, bs₁, bs₂, rfl, h_a', rfl⟩ := ih h_rest
      refine ⟨a :: as₁, a', as₂, bs₁, bs₂, rfl, h_a', ?_⟩
      rw [List.flatMap_cons, List.append_assoc]
    · cases rest with
      -- `b` is the first of what the tail gives, and the induction finds it there
      | nil =>
        have h_as : as.flatMap f = [] ++ b :: after := h_rest.symm
        obtain ⟨as₁, a', as₂, bs₁, bs₂, rfl, h_a', h_nil⟩ := ih h_as
        refine ⟨a :: as₁, a', as₂, bs₁, bs₂, rfl, h_a', ?_⟩
        rw [List.flatMap_cons, List.append_assoc, ← h_nil, h_a, List.append_nil, List.append_nil]
      | cons b' rest =>
        obtain ⟨rfl, -⟩ := List.cons.inj h_rest
        exact ⟨[], a, as, before, rest, rfl, h_a, rfl⟩

theorem mem_prefixCalls_iff {host scopePrefix target : String} :
    .embedded host scopePrefix target ∈ ds.flatMap prefixCalls ↔
      ∃ d ∈ ds, d.id = host ∧ (scopePrefix, target) ∈ d.embedded := by
  rw [List.mem_flatMap]
  refine exists_congr fun d => and_congr_right fun _ => ?_
  rw [prefixCalls, List.mem_map]
  constructor
  · rintro ⟨e, h_e, h_call⟩
    obtain ⟨rfl, rfl, rfl⟩ := Registration.embedded.inj h_call
    exact ⟨rfl, h_e⟩
  · rintro ⟨rfl, h_e⟩
    exact ⟨_, h_e, rfl⟩

theorem declared?_of_mem_prefixCalls {r : Registration} (h : r ∈ ds.flatMap prefixCalls) :
    declared? r = none := by
  obtain ⟨d, -, h_r⟩ := List.mem_flatMap.1 h
  obtain ⟨e, -, rfl⟩ := List.mem_map.1 h_r
  rfl

/-- Calls that declare prefixes register no language. -/
theorem languages_append {log log' : List Registration} (h : ∀ r ∈ log', declared? r = none) :
    Registration.languages (log ++ log') = Registration.languages log := by
  have h_none : log'.filterMap declared? = [] := List.filterMap_eq_nil_iff.2 h
  rw [Registration.languages, List.filterMap_append, h_none, List.append_nil,
    Registration.languages]

theorem names_append {ds : List LanguageDecl} {log : List Registration}
    (h : ∀ r ∈ log, declared? r = none) : names (languageCalls ds ++ log) = namesOf ds := by
  rw [names, languages_append h, ← names, names_languageCalls]

theorem names_registrations (config : LanguagesConfig) :
    names config.registrations = namesOf config.languages :=
  names_append fun _ h_r => declared?_of_mem_prefixCalls h_r

theorem consistent_of_legal (h : Legal config.registrations) : config.Consistent := by
  have h_nodup := h.nodup
  have h_length := h.length_le
  rw [names_registrations] at h_nodup h_length
  rw [length_namesOf] at h_length
  obtain ⟨h_plain, h_distinct⟩ := List.nodup_cons.1 h_nodup
  refine ⟨h_distinct, fun d h_d h_id => ?_, Nat.le_of_succ_le_succ h_length, fun d h_d e h_e => ?_⟩
  · exact h_plain (h_id ▸ List.mem_map_of_mem h_d)
  · have h_mem : .embedded d.id e.1 e.2 ∈ config.registrations :=
      List.mem_append_right _ (mem_prefixCalls_iff.2 ⟨d, h_d, rfl, h_e⟩)
    have h_target := (h.known _ _ _ h_mem).2
    rw [names_registrations] at h_target
    exact (List.mem_cons.1 h_target).imp_right List.mem_map.1

/-- A call among those for prefixes, with the prefix that it declares and those before it. -/
theorem exists_prefix_of_split {r : Registration} {log log' : List Registration}
    (h : ds.flatMap prefixCalls = log ++ r :: log') :
    ∃ before d after es e es', ds = before ++ d :: after ∧ d.embedded = es ++ e :: es' ∧
      r = .embedded d.id e.1 e.2 ∧
      log = before.flatMap prefixCalls ++ es.map fun e => .embedded d.id e.1 e.2 := by
  obtain ⟨before, d, after, calls, calls', rfl, h_d, rfl⟩ := flatMap_eq_append_cons h
  obtain ⟨es, rest, h_es, rfl, h_rest⟩ := List.map_eq_append_iff.1 h_d
  obtain ⟨e, es', rfl, rfl, -⟩ := List.map_eq_cons_iff.1 h_rest
  exact ⟨before, d, after, es, e, es', rfl, h_es, rfl, rfl⟩

/-- In an ascending list, the first entry that fails `P` is the smallest one. -/
theorem le_of_ascending {es es' : List (String × String)} {e : String × String}
    {P : String → Prop} (h : (es ++ e :: es').Pairwise fun a b => a.1 < b.1)
    (h_above : ∀ e' ∈ es, P e'.2) {e' : String × String} (h_e' : e' ∈ es ++ e :: es')
    (h_unknown : ¬ P e'.2) : e.1 ≤ e'.1 := by
  rcases List.mem_append.1 h_e' with h_es | h_below
  · exact absurd (h_above e' h_es) h_unknown
  · rcases List.mem_cons.1 h_below with rfl | h_es'
    · exact String.le_refl _
    · have h_tail := (List.pairwise_append.1 h).2.1
      exact Std.le_of_lt (List.rel_of_pairwise_cons h_tail h_es')

/-- Declaring the prefixes succeeds, or one of them leads nowhere. -/
theorem carryOut_prefixCalls (h : config.Ordered) (h_languages : Declarable config.languages) :
    (Legal config.registrations ∧
      (toTable (languageCalls config.languages)).carryOut (config.languages.flatMap prefixCalls) =
        .ok (toTable config.registrations)) ∨
    ∃ e, (toTable (languageCalls config.languages)).carryOut
      (config.languages.flatMap prefixCalls) = .error e ∧ config.Fault e := by
  rcases carryOut_toTable (legal_languageCalls_iff.2 h_languages)
    (config.languages.flatMap prefixCalls) with
    h_run | ⟨log, r, log', e, h_split, h_legal, h_refused, h_error⟩
  · exact .inl h_run
  · refine .inr ⟨e, h_error, ?_⟩
    have h_names : names (languageCalls config.languages ++ log) = namesOf config.languages := by
      refine names_append fun r' h_r' => ?_
      have h_mem : r' ∈ config.languages.flatMap prefixCalls := by
        rw [h_split]
        exact List.mem_append_left _ h_r'
      exact declared?_of_mem_prefixCalls h_mem
    -- what was declared before has been accepted, so it leads to a language
    have h_known {host scopePrefix target : String}
        (h_mem : .embedded host scopePrefix target ∈ log) : target ∈ namesOf config.languages := by
      rw [← h_names]
      exact (h_legal.known _ _ _ (List.mem_append_right _ h_mem)).2
    obtain ⟨before, d, after, es, entry, es', h_ds, h_es, rfl, rfl⟩ :=
      exists_prefix_of_split h_split
    have h_d : d ∈ config.languages := h_ds ▸ List.mem_append_right _ List.mem_cons_self
    cases h_refused with
    | unknownHost h_host =>
      rw [h_names] at h_host
      exact absurd (List.mem_cons_of_mem _ (List.mem_map_of_mem h_d)) h_host
    | unknownTarget h_host h_target =>
      rw [h_names] at h_target
      have h_before : ∀ d' ∈ before, config.Resolved d' := fun d' h_d' e h_e =>
        h_known (List.mem_append_left _ (mem_prefixCalls_iff.2 ⟨d', h_d', rfl, h_e⟩))
      have h_above : ∀ e ∈ es, e.2 ∈ namesOf config.languages := fun e h_e =>
        h_known (List.mem_append_right _ (List.mem_map_of_mem h_e))
      have h_sorted := h d h_d
      have h_entry : entry ∈ d.embedded := by
        rw [h_es]
        exact List.mem_append_right _ List.mem_cons_self
      rw [h_es] at h_sorted
      refine .embedding h_languages h_ds h_before h_entry h_target fun e h_e h_unknown => ?_
      rw [h_es] at h_e
      exact le_of_ascending (P := (· ∈ namesOf config.languages)) h_sorted h_above h_e h_unknown

/-! ## What the table has -/

/-- No prefix is declared for a name that `ds` does not have. -/
theorem embeddings_prefixCalls_of_not_mem {name : String} (h : name ∉ ds.map LanguageDecl.id) :
    embeddings (ds.flatMap prefixCalls) name = [] := by
  rw [List.eq_nil_iff_forall_not_mem]
  intro e h_e
  obtain ⟨d, h_d, rfl, -⟩ := mem_prefixCalls_iff.1 (mem_embeddings.1 h_e)
  exact h (List.mem_map_of_mem h_d)

theorem embeddings_prefixCalls_self (d : LanguageDecl) :
    embeddings (prefixCalls d) d.id = d.embedded := by
  rw [embeddings, prefixCalls, List.filterMap_map]
  have h_some : embedding? d.id ∘ (fun e => Registration.embedded d.id e.1 e.2) = some := by
    funext e
    exact if_pos rfl
  rw [h_some, List.filterMap_some]

theorem embeddings_append (log log' : List Registration) (name : String) :
    embeddings (log ++ log') name = embeddings log name ++ embeddings log' name :=
  List.filterMap_append

theorem embeddings_registrations (config : LanguagesConfig) (name : String) :
    embeddings config.registrations name =
      embeddings (config.languages.flatMap prefixCalls) name := by
  have h_languages : embeddings (languageCalls config.languages) name = [] := by
    rw [List.eq_nil_iff_forall_not_mem]
    intro e h_e
    obtain ⟨d, -, h_call⟩ := List.mem_map.1 (mem_embeddings.1 h_e)
    exact absurd h_call nofun
  rw [registrations, embeddings_append, h_languages, List.nil_append]

/-- The prefixes declared for a language are those of its declaration. -/
theorem embeddings_registrations_self (h : (config.languages.map LanguageDecl.id).Nodup)
    (h_d : d ∈ config.languages) : embeddings config.registrations d.id = d.embedded := by
  obtain ⟨before, after, h_split⟩ := List.append_of_mem h_d
  rw [h_split, List.map_append, List.map_cons] at h
  have h_after : d.id ∉ after.map LanguageDecl.id :=
    (List.nodup_cons.1 (List.nodup_append.1 h).2.1).1
  have h_before : d.id ∉ before.map LanguageDecl.id := fun h_mem =>
    (List.nodup_append.1 h).2.2 _ h_mem _ List.mem_cons_self rfl
  rw [embeddings_registrations, h_split, List.flatMap_append, List.flatMap_cons,
    embeddings_append, embeddings_append, embeddings_prefixCalls_of_not_mem h_before,
    embeddings_prefixCalls_self, embeddings_prefixCalls_of_not_mem h_after, List.append_nil,
    List.nil_append]

theorem languages_registrations (config : LanguagesConfig) :
    Registration.languages config.registrations =
      (plainTextName, none) :: config.languages.map fun d => (d.id, d.scopeName) := by
  rw [registrations, languages_append fun _ h_r => declared?_of_mem_prefixCalls h_r,
    languages_languageCalls]

theorem idOf_toTable_of_getElem? (h : Legal config.registrations) {i : Nat}
    (h_d : config.languages[i]? = some d) :
    (toTable config.registrations).idOf d.id = idAt (i + 1) ∧ i + 1 < capacity := by
  have h_get : (toTable config.registrations).names[i + 1]? = some d.id := by
    rw [names_toTable, names_registrations, namesOf, List.getElem?_cons_succ, List.getElem?_map,
      h_d, Option.map_some]
  obtain ⟨h_lt, h_id⟩ := List.getElem?_eq_some_iff.1 h_get
  rw [← h_id, idOf_getElem h.nodup_names_toTable h_lt]
  exact ⟨rfl, Nat.lt_of_lt_of_le h_lt h.length_names_toTable⟩

theorem toLanguage_registrations (h : Legal config.registrations) (h_d : d ∈ config.languages) :
    toLanguage config.registrations (d.id, d.scopeName) =
      ⟨d.id, d.scopeName.map ScopeName.mk, longestFirst (d.embedded.map fun e =>
        (⟨e.1⟩, (toTable config.registrations).idOf e.2))⟩ := by
  rw [toLanguage, prefixes_eq_map_idOf h,
    embeddings_registrations_self (consistent_of_legal h).distinct h_d]

theorem toLanguage_plainText (h : Legal config.registrations) :
    toLanguage config.registrations (plainTextName, none) = ⟨plainTextName, none, []⟩ := by
  have h_not : plainTextName ∉ config.languages.map LanguageDecl.id := by
    intro h_mem
    obtain ⟨d, h_d, h_id⟩ := List.mem_map.1 h_mem
    exact (consistent_of_legal h).notPlainText d h_d h_id
  rw [toLanguage, prefixes, embeddings_registrations, embeddings_prefixCalls_of_not_mem h_not,
    List.map_nil, longestFirst_nil]
  rfl

theorem describes_toTable (h : Legal config.registrations) :
    config.Describes (toTable config.registrations) := by
  refine ⟨?_, ⟨?_, ?_⟩, fun i d h_d => ?_, fun d h_d => ?_⟩
  · rw [length_toTable, names_registrations, length_namesOf]
  · rw [idOf_toTable List.mem_cons_self, number_plainText]
  · have h_get := get?_idAt (toTable config.registrations) (i := 0) (by decide)
    rw [toTable, List.getElem?_map, languages_registrations, List.getElem?_cons_zero,
      Option.map_some, toLanguage_plainText h] at h_get
    exact h_get
  · obtain ⟨h_id, h_lt⟩ := idOf_toTable_of_getElem? h h_d
    rw [h_id, toNat_idAt h_lt]
  · obtain ⟨i, h_i⟩ := List.getElem?_of_mem h_d
    obtain ⟨h_id, h_lt⟩ := idOf_toTable_of_getElem? h h_i
    rw [h_id, get?_idAt _ h_lt, ← toLanguage_registrations h h_d, toTable, List.getElem?_map,
      languages_registrations, List.getElem?_cons_succ, List.getElem?_map, h_i]
    rfl

/-! ## What is at fault -/

theorem namesOf_append (ds ds' : List LanguageDecl) :
    namesOf (ds ++ ds') = namesOf ds ++ ds'.map LanguageDecl.id := by
  rw [namesOf, List.map_append, namesOf, List.cons_append]

theorem Declarable.of_append (h : Declarable (before ++ after)) : Declarable before := by
  have h_nodup := h.nodup
  have h_length := h.length_le
  rw [namesOf_append] at h_nodup
  rw [List.length_append] at h_length
  exact ⟨(List.nodup_append.1 h_nodup).1, Nat.le_of_add_right_le h_length⟩

theorem DeclFault.not_declarable (h : DeclFault before d e) (after : List LanguageDecl) :
    ¬ Declarable (before ++ d :: after) := by
  intro h_declarable
  cases h with
  | duplicate h_repeats =>
    have h_nodup := h_declarable.nodup
    rw [namesOf_append, List.map_cons] at h_nodup
    exact (List.nodup_append.1 h_nodup).2.2 _ h_repeats _ List.mem_cons_self rfl
  | tooMany h_new h_full =>
    have h_length := h_declarable.length_le
    rw [List.length_append, List.length_cons] at h_length
    omega

theorem DeclFault.unique {e' : RegistrationError} (h : DeclFault before d e)
    (h' : DeclFault before d e') : e = e' := by
  cases h with
  | duplicate h_repeats =>
    cases h' with
    | duplicate => rfl
    | tooMany h_new => exact absurd h_repeats h_new
  | tooMany h_new =>
    cases h' with
    | duplicate h_repeats => exact absurd h_repeats h_new
    | tooMany => rfl

theorem Consistent.declarable (h : config.Consistent) : Declarable config.languages where
  nodup := by
    refine List.nodup_cons.2 ⟨fun h_mem => ?_, h.distinct⟩
    obtain ⟨d, h_d, h_id⟩ := List.mem_map.1 h_mem
    exact h.notPlainText d h_d h_id
  length_le := h.length_le

theorem Fault.not_consistent (h : config.Fault e) : ¬ config.Consistent := by
  intro h_consistent
  cases h with
  | declaration h_split _ h_fault =>
    exact h_fault.not_declarable _ (h_split ▸ h_consistent.declarable)
  | embedding _ h_split _ h_entry h_target =>
    have h_mem := h_split ▸ List.mem_append_right _ List.mem_cons_self
    have h_known := h_consistent.resolved _ h_mem _ h_entry
    exact h_target (List.mem_cons.2 (h_known.imp_right List.mem_map.2))

/-- Of two places in a list where `P` first fails, neither is behind the other. -/
theorem length_le_of_first_failure {α : Type} {P : List α → Prop}
    (h_front : ∀ l l', P (l ++ l') → P l) {l₁ l₂ r₁ r₂ : List α} {a₁ a₂ : α}
    (h : l₁ ++ a₁ :: r₁ = l₂ ++ a₂ :: r₂) (h₁ : ¬ P (l₁ ++ [a₁])) (h₂ : P l₂) :
    l₂.length ≤ l₁.length := by
  by_contra h_lt
  have h_prefix₁ : l₁ ++ [a₁] <+: l₁ ++ a₁ :: r₁ := ⟨r₁, (List.append_cons ..).symm⟩
  have h_prefix₂ : l₂ <+: l₁ ++ a₁ :: r₁ := ⟨a₂ :: r₂, h.symm⟩
  have h_le : (l₁ ++ [a₁]).length ≤ l₂.length := by
    rw [List.length_append, List.length_singleton]
    omega
  obtain ⟨rest, rfl⟩ := List.prefix_of_prefix_length_le h_prefix₁ h_prefix₂ h_le
  exact h₁ (h_front _ _ h₂)

theorem eq_of_first_failure {α : Type} {P : List α → Prop}
    (h_front : ∀ l l', P (l ++ l') → P l) {l₁ l₂ r₁ r₂ : List α} {a₁ a₂ : α}
    (h : l₁ ++ a₁ :: r₁ = l₂ ++ a₂ :: r₂) (h₁ : P l₁) (h₁' : ¬ P (l₁ ++ [a₁])) (h₂ : P l₂)
    (h₂' : ¬ P (l₂ ++ [a₂])) : l₁ = l₂ ∧ a₁ = a₂ := by
  have h_le := length_le_of_first_failure h_front h.symm h₂' h₁
  have h_ge := length_le_of_first_failure h_front h h₁' h₂
  obtain ⟨h_l, h_r⟩ := List.append_inj h (Nat.le_antisymm h_le h_ge)
  exact ⟨h_l, (List.cons.inj h_r).1⟩

theorem target_unique {es : List (String × String)} (h : es.Pairwise fun a b => a.1 < b.1)
    {scopePrefix target target' : String} (h_e : (scopePrefix, target) ∈ es)
    (h_e' : (scopePrefix, target') ∈ es) : target = target' := by
  induction es with
  | nil => exact absurd h_e List.not_mem_nil
  | cons e es ih =>
    obtain ⟨h_head, h_es⟩ := List.pairwise_cons.1 h
    rcases List.mem_cons.1 h_e with rfl | h_tail
    · rcases List.mem_cons.1 h_e' with h_eq | h_tail'
      · exact (Prod.mk.inj h_eq).2.symm
      · exact absurd (h_head _ h_tail') (String.lt_irrefl _)
    · rcases List.mem_cons.1 h_e' with rfl | h_tail'
      · exact absurd (h_head _ h_tail) (String.lt_irrefl _)
      · exact ih h_es h_tail h_tail'

/-- A configuration has at most one `Fault`. -/
theorem Fault.unique {e' : RegistrationError} (h_ordered : config.Ordered) (h : config.Fault e)
    (h' : config.Fault e') : e = e' := by
  cases h with
  | declaration h_split h_before h_fault =>
    cases h' with
    | declaration h_split' h_before' h_fault' =>
      obtain ⟨rfl, rfl⟩ := eq_of_first_failure (fun _ _ => Declarable.of_append)
        (h_split.symm.trans h_split') h_before (h_fault.not_declarable []) h_before'
        (h_fault'.not_declarable [])
      exact h_fault.unique h_fault'
    | embedding h_languages => exact absurd (h_split ▸ h_languages) (h_fault.not_declarable _)
  | embedding h_languages h_split h_before h_entry h_target h_smallest =>
    cases h' with
    | declaration h_split' _ h_fault' =>
      exact absurd (h_split' ▸ h_languages) (h_fault'.not_declarable _)
    | embedding _ h_split' h_before' h_entry' h_target' h_smallest' =>
      have h_front (l l' : List LanguageDecl) (h : ∀ d ∈ l ++ l', config.Resolved d) :
          ∀ d ∈ l, config.Resolved d := fun d h_d => h d (List.mem_append_left _ h_d)
      have h_not {before : List LanguageDecl} {d : LanguageDecl} {scopePrefix target : String}
          (h_entry : (scopePrefix, target) ∈ d.embedded)
          (h_target : target ∉ namesOf config.languages) :
          ¬ ∀ d' ∈ before ++ [d], config.Resolved d' := fun h_all =>
        h_target (h_all d (List.mem_append_right _ (List.mem_singleton_self d)) _ h_entry)
      obtain ⟨rfl, rfl⟩ := eq_of_first_failure (P := fun l => ∀ d ∈ l, config.Resolved d) h_front
        (h_split.symm.trans h_split') h_before (h_not h_entry h_target) h_before'
        (h_not h_entry' h_target')
      -- both are the first language, and both prefixes are its smallest
      obtain rfl := String.le_antisymm (h_smallest _ h_entry' h_target')
        (h_smallest' _ h_entry h_target)
      have h_mem := h_split ▸ List.mem_append_right _ List.mem_cons_self
      rw [target_unique (h_ordered _ h_mem) h_entry h_entry']

/-! ## All configurations -/

theorem ofConfig_cases (h : config.Ordered) :
    (Legal config.registrations ∧ ofConfig config = .ok (toTable config.registrations)) ∨
    ∃ e, ofConfig config = .error e ∧ config.Fault e := by
  rw [ofConfig_eq_carryOut, registrations, carryOut_append]
  rcases carryOut_languageCalls config with ⟨h_languages, h_ok⟩ | ⟨e, h_error, h_fault⟩
  · rw [h_ok]
    exact carryOut_prefixCalls h h_languages
  · rw [h_error]
    exact .inr ⟨e, rfl, h_fault⟩

/-- For configurations with ascending prefixes, `ofConfig` succeeds exactly if they are
    `Consistent`, the table then `Describes` the configuration, and an error is the `Fault` of
    it. -/
theorem ofConfig_of_ordered (config : LanguagesConfig) (h : config.Ordered) :
    ((∃ t, ofConfig config = .ok t) ↔ config.Consistent) ∧
    (∀ t, ofConfig config = .ok t → config.Describes t) ∧
    ∀ e, ofConfig config = .error e ↔ config.Fault e := by
  rcases ofConfig_cases h with ⟨h_legal, h_ok⟩ | ⟨e, h_error, h_fault⟩
  · have h_consistent := consistent_of_legal h_legal
    refine ⟨iff_of_true ⟨_, h_ok⟩ h_consistent, fun t h_t => ?_, fun e => ?_⟩
    · obtain rfl := Except.ok.inj (h_ok.symm.trans h_t)
      exact describes_toTable h_legal
    · rw [h_ok]
      exact iff_of_false nofun fun h_fault => h_fault.not_consistent h_consistent
  · rw [h_error]
    refine ⟨iff_of_false nofun h_fault.not_consistent, nofun, fun e' => ?_⟩
    constructor
    · intro h_e
      rwa [← Except.error.inj h_e]
    · intro h_fault'
      rw [h_fault.unique h h_fault']

/-- The first language refers to those after it, and the last one back to the first. -/
def pageConfig : LanguagesConfig :=
  ⟨[⟨"html", some "text.html", [("source.css", "css"), ("source.js", "js")]⟩, ⟨"css", none, []⟩,
    ⟨"js", some "source.js", [("text", "html"), ("text.plain", "plaintext")]⟩]⟩

/-- Two languages have prefixes that lead nowhere, the first has two of them. -/
def looseConfig : LanguagesConfig :=
  ⟨[⟨"html", none, [("meta", "css"), ("source", "perl"), ("text", "markdown")]⟩,
    ⟨"css", none, [("meta", "less")]⟩]⟩

theorem ofConfig_of_ordered_page :
    pageConfig.Ordered ∧ (∃ t, ofConfig pageConfig = .ok t ∧ pageConfig.Describes t) ∧
    looseConfig.Ordered ∧ looseConfig.Fault (.unknownLanguage "perl") := by
  have h_page : pageConfig.Ordered := by decide +kernel
  have h_loose : looseConfig.Ordered := by decide +kernel
  have h_consistent : pageConfig.Consistent := by
    constructor
    · decide +kernel
    · decide +kernel
    · decide +kernel
    · decide +kernel
  obtain ⟨h_iff, h_describes, -⟩ := ofConfig_of_ordered pageConfig h_page
  obtain ⟨t, h_t⟩ := h_iff.2 h_consistent
  have h_error : ofConfig looseConfig = .error (.unknownLanguage "perl") := by decide +kernel
  exact ⟨h_page, ⟨t, h_t, h_describes t h_t⟩, h_loose,
    ((ofConfig_of_ordered looseConfig h_loose).2.2 _).1 h_error⟩

end LanguagesConfig

end ScopeTokens
