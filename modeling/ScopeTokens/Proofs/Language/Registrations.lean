/-
  ScopeTokens.Proofs.Language.Registrations

  Tables of languages, by the calls that make them. Whether a call is accepted
  depends on the names registered so far (`refusal?`), and the table is determined
  by the accepted calls (`toTable`). `call_of_accepted` and `call_of_refused` are
  the step, `callEach_toTable` the whole run.
-/

import ScopeTokens.Proofs.Language.Prefixes

namespace ScopeTokens

/-- A call that registers a language, or declares a prefix of `host` that leads to `target`. -/
inductive Registration where
  | language (name : String) (scopeName : Option String)
  | embedded (host scopePrefix target : String)
  deriving DecidableEq, Repr

namespace LanguageTable

/-! ## Calls -/

/-- `t` after a call, with the number of the language that it registers, if it does. -/
def call (t : LanguageTable) :
    Registration → Except RegistrationError (Option LanguageId × LanguageTable)
  | .language name scopeName => (t.register name scopeName).map fun r => (some r.1, r.2)
  | .embedded host scopePrefix target =>
    (t.registerEmbedded host scopePrefix target).map fun t' => (none, t')

/-- `t` after some calls. Those that are refused leave it as it is. -/
def callEach (t : LanguageTable) : List Registration → LanguageTable
  | [] => t
  | r :: rs =>
    match t.call r with
    | .error _ => t.callEach rs
    | .ok (_, t') => t'.callEach rs

/-- The calls that are not refused, in order. -/
def accepted (t : LanguageTable) : List Registration → List Registration
  | [] => []
  | r :: rs =>
    match t.call r with
    | .error _ => t.accepted rs
    | .ok (_, t') => r :: t'.accepted rs

/-! ## Numbers and names -/

/-- The registered names, in the order of their numbers. -/
def names (t : LanguageTable) : List String :=
  t.languages.map Language.name

theorem findIdx?_of_mem {t : LanguageTable} {name : String} (h : name ∈ t.names) :
    t.languages.findIdx? (fun l => l.name == name) = some (t.names.idxOf name) := by
  have h_exists : ∃ name' ∈ t.names, (name' == name) = true := ⟨name, h, beq_self_eq_true name⟩
  have h_find := List.findIdx?_eq_some_of_exists h_exists
  rw [names, List.findIdx?_map] at h_find
  exact h_find

theorem findIdx?_of_not_mem {t : LanguageTable} {name : String} (h : name ∉ t.names) :
    t.languages.findIdx? (fun l => l.name == name) = none := by
  refine List.findIdx?_eq_none_iff.2 fun l h_l => beq_eq_false_iff_ne.2 ?_
  rintro rfl
  exact h (List.mem_map_of_mem h_l)

theorem find?_of_mem {t : LanguageTable} {name : String} (h : name ∈ t.names) :
    t.find? name = some (idAt (t.names.idxOf name)) := by
  rw [find?, findIdx?_of_mem h, Option.map_some]

theorem find?_of_not_mem {t : LanguageTable} {name : String} (h : name ∉ t.names) :
    t.find? name = none := by
  rw [find?, findIdx?_of_not_mem h, Option.map_none]

/-- Up to `capacity`, the number of a language is its index plus one. -/
theorem toNat_idAt {i : Nat} (h : i < capacity) : (idAt i).raw.toNat = i + 1 := by
  rw [capacity] at h
  rw [idAt, UInt8.toNat_ofNat_of_lt' (by show i + 1 < 256; omega)]

theorem isNone_eq_false_iff {id : LanguageId} : id.isNone = false ↔ 1 ≤ id.raw.toNat := by
  have h_iff : id = LanguageId.none ↔ id.raw.toNat = 0 := by
    cases id
    rw [LanguageId.none, LanguageId.mk.injEq, ← UInt8.toNat_inj]
    rfl
  rw [LanguageId.isNone, beq_eq_false_iff_ne, Ne, h_iff]
  exact Nat.one_le_iff_ne_zero.symm

theorem isNone_idAt {i : Nat} (h : i < capacity) : (idAt i).isNone = false := by
  rw [isNone_eq_false_iff, toNat_idAt h]
  exact Nat.succ_pos i

/-- Every number but `0` is that of an index. -/
theorem idAt_pred_toNat {id : LanguageId} (h : 1 ≤ id.raw.toNat) :
    idAt (id.raw.toNat - 1) = id := by
  rw [idAt, Nat.sub_add_cancel h, UInt8.ofNat_toNat]

theorem get?_idAt (t : LanguageTable) {i : Nat} (h : i < capacity) :
    t.get? (idAt i) = t.languages[i]? := by
  rw [get?, isNone_idAt h, toNat_idAt h, Nat.add_sub_cancel]
  rfl

theorem mem_languages_of_get? {t : LanguageTable} {id : LanguageId} {l : Language}
    (h : t.get? id = some l) : l ∈ t.languages := by
  rw [get?] at h
  split at h
  · exact absurd h nofun
  · exact List.mem_of_getElem? h

theorem nameOf_eq (t : LanguageTable) (id : LanguageId) :
    t.nameOf id = if id.isNone then none else t.names[id.raw.toNat - 1]? := by
  rw [nameOf, get?, names, List.getElem?_map]
  split
  · rfl
  · rfl

theorem isSome_get?_iff (t : LanguageTable) (id : LanguageId) :
    (t.get? id).isSome ↔ 1 ≤ id.raw.toNat ∧ id.raw.toNat ≤ t.languages.length := by
  rw [get?]
  cases h : id.isNone with
  | true =>
    have h_zero : ¬ 1 ≤ id.raw.toNat := by
      rw [← isNone_eq_false_iff, h]
      exact nofun
    exact iff_of_false nofun fun h_use => h_zero h_use.1
  | false =>
    have h_pos := isNone_eq_false_iff.1 h
    rw [if_neg Bool.false_ne_true, isSome_getElem?]
    omega

variable {t t' : LanguageTable}

theorem idOf_of_mem {name : String} (h : name ∈ t.names) :
    t.idOf name = idAt (t.names.idxOf name) := by
  rw [idOf, find?_of_mem h, Option.getD_some]

theorem idOf_of_not_mem {name : String} (h : name ∉ t.names) : t.idOf name = LanguageId.none := by
  rw [idOf, find?_of_not_mem h, Option.getD_none]

theorem idOf_getElem (h : t.names.Nodup) {i : Nat} (h_i : i < t.names.length) :
    t.idOf t.names[i] = idAt i := by
  rw [idOf_of_mem (List.getElem_mem h_i), h.idxOf_getElem i h_i]

/-- If names are distinct and within `capacity`, `nameOf` and `idOf` are inverse to each other. -/
theorem nameOf_eq_some_iff (h_nodup : t.names.Nodup) (h_le : t.names.length ≤ capacity)
    {id : LanguageId} {name : String} :
    t.nameOf id = some name ↔ id ≠ LanguageId.none ∧ t.idOf name = id := by
  rw [nameOf_eq]
  cases h : id.isNone with
  | true => exact iff_of_false nofun fun h_id => h_id.1 (eq_of_beq h)
  | false =>
    have h_pos := isNone_eq_false_iff.1 h
    rw [if_neg Bool.false_ne_true, and_iff_right (beq_eq_false_iff_ne.1 h)]
    constructor
    · intro h_get
      obtain ⟨h_lt, rfl⟩ := List.getElem?_eq_some_iff.1 h_get
      rw [idOf_getElem h_nodup h_lt, idAt_pred_toNat h_pos]
    · intro h_id
      -- a name outside the table has the number `none`, which `id` is not
      have h_mem : name ∈ t.names := by
        by_contra h_not
        rw [idOf_of_not_mem h_not] at h_id
        exact beq_eq_false_iff_ne.1 h h_id.symm
      have h_lt := List.idxOf_lt_length_of_mem h_mem
      rw [idOf_of_mem h_mem] at h_id
      rw [← h_id, toNat_idAt (Nat.lt_of_lt_of_le h_lt h_le), Nat.add_sub_cancel]
      exact List.getElem?_idxOf h_mem

theorem idOf_eq_none_iff (h_le : t.names.length ≤ capacity) {name : String} :
    t.idOf name = LanguageId.none ↔ name ∉ t.names := by
  refine ⟨fun h_id h_mem => ?_, idOf_of_not_mem⟩
  have h_lt := Nat.lt_of_lt_of_le (List.idxOf_lt_length_of_mem h_mem) h_le
  rw [idOf_of_mem h_mem] at h_id
  exact beq_eq_false_iff_ne.1 (isNone_idAt h_lt) h_id

/-- `nameOf` depends on the names only. -/
theorem nameOf_congr (h : t.names = t'.names) (id : LanguageId) : t.nameOf id = t'.nameOf id := by
  rw [nameOf_eq, nameOf_eq, h]

theorem find?_congr (h : t.names = t'.names) (name : String) : t.find? name = t'.find? name := by
  by_cases h_mem : name ∈ t.names
  · rw [find?_of_mem h_mem, find?_of_mem (h ▸ h_mem), h]
  · rw [find?_of_not_mem h_mem, find?_of_not_mem (h ▸ h_mem)]

theorem idOf_congr (h : t.names = t'.names) (name : String) : t.idOf name = t'.idOf name := by
  rw [idOf, idOf, find?_congr h]

end LanguageTable

namespace Registration

open LanguageTable

/-! ## What accepted calls say -/

/-- Name and root scope of the language that a call registers. -/
def declared? : Registration → Option (String × Option String)
  | language name scopeName => some (name, scopeName)
  | embedded _ _ _ => none

/-- Prefix and target that a call declares for `host`. -/
def embedding? (host : String) : Registration → Option (String × String)
  | language _ _ => none
  | embedded host' scopePrefix target =>
    if host' = host then some (scopePrefix, target) else none

variable (log : List Registration)

/-- The registered languages with their root scopes, plain text first. -/
def languages : List (String × Option String) :=
  (plainTextName, none) :: log.filterMap declared?

/-- The registered names, plain text first. -/
def names : List String :=
  (languages log).map Prod.fst

/-- The prefixes declared for `host`, with their targets, in order. -/
def embeddings (host : String) : List (String × String) :=
  log.filterMap (embedding? host)

/-- The number of a registered name. -/
def number (name : String) : LanguageId :=
  idAt ((names log).idxOf name)

/-- The prefixes of `host` with the numbers of their targets. -/
def prefixes (host : String) : List (ScopeName × LanguageId) :=
  (embeddings log host).map fun e => (⟨e.1⟩, number log e.2)

def toLanguage (declared : String × Option String) : Language :=
  ⟨declared.1, declared.2.map ScopeName.mk, longestFirst (prefixes log declared.1)⟩

/-- The table that the accepted calls `log` describe. -/
def toTable : LanguageTable :=
  ⟨(languages log).map (toLanguage log)⟩

/-- Why a call after `log` is refused, `none` if it is not. -/
def refusal? : Registration → Option RegistrationError
  | language name _ =>
    if name ∈ names log then some (.duplicateLanguage name)
    else if capacity ≤ (names log).length then some .tooManyLanguages
    else none
  | embedded host _ target =>
    if host ∉ names log then some (.unknownLanguage host)
    else if target ∉ names log then some (.unknownLanguage target)
    else none

/-- `refusal?` as a relation. -/
inductive Refused : Registration → RegistrationError → Prop where
  | duplicate {name : String} {scopeName : Option String} (h_mem : name ∈ names log) :
    Refused (language name scopeName) (.duplicateLanguage name)
  | full {name : String} {scopeName : Option String} (h_new : name ∉ names log)
    (h_full : capacity ≤ (names log).length) :
    Refused (language name scopeName) .tooManyLanguages
  | unknownHost {host scopePrefix target : String} (h_host : host ∉ names log) :
    Refused (embedded host scopePrefix target) (.unknownLanguage host)
  | unknownTarget {host scopePrefix target : String} (h_host : host ∈ names log)
    (h_target : target ∉ names log) :
    Refused (embedded host scopePrefix target) (.unknownLanguage target)

/-- The number that an accepted call answers with. -/
def answer : Registration → Option LanguageId
  | language _ _ => some (idAt (names log).length)
  | embedded _ _ _ => none

/-- What holds of accepted calls: names are distinct and within `capacity`, and prefixes lead from
    registered languages to registered ones. -/
structure Legal : Prop where
  nodup : (names log).Nodup
  length_le : (names log).length ≤ capacity
  known : ∀ host scopePrefix target, .embedded host scopePrefix target ∈ log →
    host ∈ names log ∧ target ∈ names log

variable {log} {name host scopePrefix target : String} {scopeName : Option String}

theorem names_concat_language :
    names (log ++ [language name scopeName]) = names log ++ [name] := by
  simp [names, languages, declared?]

theorem names_concat_embedded : names (log ++ [embedded host scopePrefix target]) = names log := by
  simp [names, languages, declared?]

theorem embeddings_concat_language (host : String) :
    embeddings (log ++ [language name scopeName]) host = embeddings log host := by
  simp [embeddings, embedding?]

theorem embeddings_concat_embedded (host' : String) :
    embeddings (log ++ [embedded host scopePrefix target]) host' =
      embeddings log host' ++ if host = host' then [(scopePrefix, target)] else [] := by
  by_cases h : host = host' <;> simp [embeddings, embedding?, h]

theorem mem_embeddings {e : String × String} :
    e ∈ embeddings log host ↔ embedded host e.1 e.2 ∈ log := by
  rw [embeddings, List.mem_filterMap]
  constructor
  · rintro ⟨r, h_r, h_e⟩
    cases r with
    | language => exact absurd h_e nofun
    | embedded host' scopePrefix target =>
      rw [embedding?] at h_e
      split at h_e
      · rename_i h_host
        obtain rfl := Option.some.inj h_e
        rwa [h_host] at h_r
      · exact absurd h_e nofun
  · intro h
    exact ⟨_, h, by simp [embedding?]⟩

theorem names_toTable (log : List Registration) : (toTable log).names = names log := by
  rw [LanguageTable.names, toTable, List.map_map]
  rfl

theorem length_toTable (log : List Registration) :
    (toTable log).languages.length = (names log).length := by
  rw [← names_toTable, LanguageTable.names, List.length_map]

theorem findIdx?_toTable (h : name ∈ names log) :
    (toTable log).languages.findIdx? (fun l => l.name == name) =
      some ((names log).idxOf name) := by
  rw [findIdx?_of_mem (by rwa [names_toTable]), names_toTable]

theorem findIdx?_toTable_of_not_mem (h : name ∉ names log) :
    (toTable log).languages.findIdx? (fun l => l.name == name) = none :=
  findIdx?_of_not_mem (by rwa [names_toTable])

theorem find?_toTable (h : name ∈ names log) :
    (toTable log).find? name = some (number log name) := by
  rw [find?_of_mem (by rwa [names_toTable]), names_toTable, number]

theorem idOf_toTable (h : name ∈ names log) : (toTable log).idOf name = number log name := by
  rw [idOf, find?_toTable h, Option.getD_some]

theorem find?_toTable_of_not_mem (h : name ∉ names log) : (toTable log).find? name = none :=
  find?_of_not_mem (by rwa [names_toTable])

theorem number_plainText (log : List Registration) :
    number log plainTextName = LanguageId.plainText := by
  have h_first : (names log).idxOf plainTextName = 0 := List.idxOf_cons_self
  rw [number, h_first]
  rfl

/-! ## Legal calls -/

theorem refusal?_language_eq_none_iff : refusal? log (language name scopeName) = none ↔
    name ∉ names log ∧ (names log).length < capacity := by
  rw [refusal?]
  split
  · rename_i h_mem
    exact iff_of_false nofun fun h => h.1 h_mem
  · rename_i h_new
    rw [ite_eq_right_iff, and_iff_right h_new, ← Nat.not_le]
    exact imp_congr_right fun _ => iff_of_false nofun id

theorem refusal?_embedded_eq_none_iff : refusal? log (embedded host scopePrefix target) = none ↔
    host ∈ names log ∧ target ∈ names log := by
  by_cases h_host : host ∈ names log <;> by_cases h_target : target ∈ names log <;>
    simp [refusal?, h_host, h_target]

theorem Legal.nodup_names_toTable (h : Legal log) : (toTable log).names.Nodup := by
  rw [names_toTable]
  exact h.nodup

theorem Legal.length_names_toTable (h : Legal log) : (toTable log).names.length ≤ capacity := by
  rw [names_toTable]
  exact h.length_le

theorem prefixes_eq_map_idOf (h : Legal log) (name : String) :
    prefixes log name =
      (embeddings log name).map fun e => (⟨e.1⟩, (toTable log).idOf e.2) := by
  refine List.map_congr_left fun e h_e => ?_
  rw [idOf_toTable (h.known _ _ _ (mem_embeddings.1 h_e)).2]

theorem legal_nil : Legal [] where
  nodup := List.pairwise_singleton _ _
  length_le := by decide
  known _ _ _ h := absurd h List.not_mem_nil

theorem Legal.concat_language (h : Legal log) (h_new : name ∉ names log)
    (h_free : (names log).length < capacity) : Legal (log ++ [language name scopeName]) where
  nodup := by
    rw [names_concat_language]
    refine List.nodup_append.2 ⟨h.nodup, List.pairwise_singleton _ _, fun a h_a b h_b h_eq => ?_⟩
    rw [h_eq, List.mem_singleton.1 h_b] at h_a
    exact h_new h_a
  length_le := by
    rw [names_concat_language, List.length_append]
    exact h_free
  known host scopePrefix target h_mem := by
    have h_log : embedded host scopePrefix target ∈ log := by simpa using h_mem
    obtain ⟨h_host, h_target⟩ := h.known host scopePrefix target h_log
    rw [names_concat_language]
    exact ⟨List.mem_append_left _ h_host, List.mem_append_left _ h_target⟩

theorem Legal.concat_embedded (h : Legal log) (h_host : host ∈ names log)
    (h_target : target ∈ names log) : Legal (log ++ [embedded host scopePrefix target]) where
  nodup := by
    rw [names_concat_embedded]
    exact h.nodup
  length_le := by
    rw [names_concat_embedded]
    exact h.length_le
  known host' scopePrefix' target' h_mem := by
    rw [names_concat_embedded]
    rcases List.mem_append.1 h_mem with h_log | h_last
    · exact h.known host' scopePrefix' target' h_log
    · obtain ⟨rfl, rfl, rfl⟩ : host' = host ∧ scopePrefix' = scopePrefix ∧ target' = target := by
        simpa using h_last
      exact ⟨h_host, h_target⟩

/-- `Legal` is kept by a call that is not refused. -/
theorem Legal.concat (h : Legal log) {r : Registration} (h_r : refusal? log r = none) :
    Legal (log ++ [r]) := by
  cases r with
  | language name scopeName =>
    obtain ⟨h_new, h_free⟩ := refusal?_language_eq_none_iff.1 h_r
    exact h.concat_language h_new h_free
  | embedded host scopePrefix target =>
    obtain ⟨h_host, h_target⟩ := refusal?_embedded_eq_none_iff.1 h_r
    exact h.concat_embedded h_host h_target

/-! ## One call -/

theorem refused_of_refusal? {r : Registration} {e : RegistrationError}
    (h : refusal? log r = some e) : Refused log r e := by
  cases r with
  | language name scopeName =>
    rw [refusal?] at h
    split at h
    · rename_i h_mem
      obtain rfl := Option.some.inj h
      exact .duplicate h_mem
    · rename_i h_new
      split at h
      · rename_i h_full
        obtain rfl := Option.some.inj h
        exact .full h_new h_full
      · exact absurd h nofun
  | embedded host scopePrefix target =>
    rw [refusal?] at h
    split at h
    · rename_i h_host
      obtain rfl := Option.some.inj h
      exact .unknownHost h_host
    · rename_i h_host
      split at h
      · rename_i h_target
        obtain rfl := Option.some.inj h
        exact .unknownTarget (not_not.1 h_host) h_target
      · exact absurd h nofun

theorem call_of_refused {r : Registration} {e : RegistrationError} (h : Refused log r e) :
    (toTable log).call r = .error e := by
  cases h with
  | duplicate h_mem =>
    rw [LanguageTable.call, register, find?_toTable h_mem]
    rfl
  | full h_new h_full =>
    rw [LanguageTable.call, register, find?_toTable_of_not_mem h_new, length_toTable, if_pos h_full]
    rfl
  | unknownHost h_host =>
    rw [LanguageTable.call, registerEmbedded, findIdx?_toTable_of_not_mem h_host]
    rfl
  | unknownTarget h_host h_target =>
    rw [LanguageTable.call, registerEmbedded, findIdx?_toTable h_host]
    dsimp only
    rw [find?_toTable_of_not_mem h_target]
    rfl

theorem number_concat (h : target ∈ names log) (r : Registration) :
    number (log ++ [r]) target = number log target := by
  cases r with
  | language name scopeName =>
    rw [number, names_concat_language, List.idxOf_append, if_pos h, number]
  | embedded host scopePrefix target => rw [number, names_concat_embedded, number]

/-- A further language does not change what is said of another one. -/
theorem toLanguage_concat_language (h : Legal log) (declared : String × Option String) :
    toLanguage (log ++ [language name scopeName]) declared = toLanguage log declared := by
  have h_prefixes : prefixes (log ++ [language name scopeName]) declared.1 =
      prefixes log declared.1 := by
    -- the targets have their numbers already, and the new one is behind them
    rw [prefixes, prefixes, embeddings_concat_language]
    refine List.map_congr_left fun e h_e => ?_
    rw [number_concat (h.known _ _ _ (mem_embeddings.1 h_e)).2]
  rw [toLanguage, toLanguage, h_prefixes]

/-- Nothing was declared for a language that is not registered. -/
theorem prefixes_eq_nil (h : Legal log) (h_new : name ∉ names log) : prefixes log name = [] := by
  rw [prefixes, List.map_eq_nil_iff, List.eq_nil_iff_forall_not_mem]
  exact fun e h_e => h_new (h.known _ _ _ (mem_embeddings.1 h_e)).1

theorem toLanguage_concat_embedded (h : Legal log) (h_target : target ∈ names log)
    (declared : String × Option String) :
    toLanguage (log ++ [embedded host scopePrefix target]) declared =
      if declared.1 = host then
        { toLanguage log declared with
          embedded := insertPrefix (⟨scopePrefix⟩, number log target)
            (toLanguage log declared).embedded }
      else toLanguage log declared := by
  -- an embedded language is declared before the call, so its number stays
  have h_numbers : ∀ e ∈ embeddings log declared.1,
      ((⟨e.1⟩, number (log ++ [embedded host scopePrefix target]) e.2) : ScopeName × LanguageId) =
        (⟨e.1⟩, number log e.2) := by
    intro e h_e
    rw [number_concat (h.known _ _ _ (mem_embeddings.1 h_e)).2]
  have h_prefixes : prefixes (log ++ [embedded host scopePrefix target]) declared.1 =
      prefixes log declared.1 ++
        if host = declared.1 then [(⟨scopePrefix⟩, number log target)] else [] := by
    rw [prefixes, embeddings_concat_embedded, List.map_append, List.map_congr_left h_numbers,
      prefixes]
    split
    · rw [List.map_singleton, number_concat h_target]
    · rfl
  rw [toLanguage, h_prefixes]
  by_cases h_host : declared.1 = host
  · rw [if_pos h_host.symm, if_pos h_host, ← insertPrefix_longestFirst]
    rfl
  · rw [if_neg (Ne.symm h_host), if_neg h_host, List.append_nil]
    rfl

/-- In distinct names, a language is found by its name. -/
theorem idxOf_names_eq_iff (h : Legal log) {i : Nat} {declared : String × Option String}
    (h_i : (languages log)[i]? = some declared) :
    (names log).idxOf name = i ↔ declared.1 = name := by
  have h_name : (names log)[i]? = some declared.1 := by
    rw [names, List.getElem?_map, h_i, Option.map_some]
  obtain ⟨h_lt, h_get⟩ := List.getElem?_eq_some_iff.1 h_name
  constructor
  · rintro rfl
    rw [← h_get]
    exact List.getElem_idxOf h_lt
  · rintro rfl
    rw [← h_get]
    exact h.nodup.idxOf_getElem i h_lt

theorem toTable_concat_language (h : Legal log) (h_new : name ∉ names log) :
    toTable (log ++ [language name scopeName]) =
      ⟨(toTable log).languages ++ [⟨name, scopeName.map ScopeName.mk, []⟩]⟩ := by
  have h_languages : languages (log ++ [language name scopeName]) =
      languages log ++ [(name, scopeName)] := by
    simp [languages, declared?]
  have h_last : toLanguage log (name, scopeName) = ⟨name, scopeName.map ScopeName.mk, []⟩ := by
    rw [toLanguage, prefixes_eq_nil h h_new, longestFirst_nil]
  rw [toTable, toTable, h_languages, List.map_append, List.map_singleton,
    toLanguage_concat_language h, h_last, funext (toLanguage_concat_language h)]

theorem toTable_concat_embedded (h : Legal log) (h_target : target ∈ names log) :
    toTable (log ++ [embedded host scopePrefix target]) =
      ⟨(toTable log).languages.modify ((names log).idxOf host) fun l =>
        { l with embedded := insertPrefix (⟨scopePrefix⟩, number log target) l.embedded }⟩ := by
  have h_languages : languages (log ++ [embedded host scopePrefix target]) = languages log := by
    simp [languages, declared?]
  rw [toTable, toTable, h_languages]
  -- names are distinct, so the language of the host is the only one that changes
  refine congrArg LanguageTable.mk (List.ext_getElem? fun i => ?_)
  rw [List.getElem?_modify, List.getElem?_map, List.getElem?_map]
  cases h_i : (languages log)[i]? with
  | none => rfl
  | some declared =>
    have h_iff : (names log).idxOf host = i ↔ declared.1 = host := idxOf_names_eq_iff h h_i
    refine congrArg some ?_
    rw [toLanguage_concat_embedded h h_target]
    by_cases h_eq : declared.1 = host
    · rw [if_pos h_eq]
      exact (if_pos (h_iff.2 h_eq)).symm
    · rw [if_neg h_eq]
      exact (if_neg fun h_i => h_eq (h_iff.1 h_i)).symm

theorem call_of_accepted (h : Legal log) {r : Registration} (h_r : refusal? log r = none) :
    (toTable log).call r = .ok (answer log r, toTable (log ++ [r])) := by
  cases r with
  | language name scopeName =>
    obtain ⟨h_new, h_free⟩ := refusal?_language_eq_none_iff.1 h_r
    rw [LanguageTable.call, register, find?_toTable_of_not_mem h_new, length_toTable,
      if_neg (by simp), if_neg (Nat.not_le.2 h_free), toTable_concat_language h h_new]
    rfl
  | embedded host scopePrefix target =>
    obtain ⟨h_host, h_target⟩ := refusal?_embedded_eq_none_iff.1 h_r
    rw [LanguageTable.call, registerEmbedded, findIdx?_toTable h_host]
    dsimp only
    rw [find?_toTable h_target, toTable_concat_embedded h h_target]
    rfl

/-! ## All calls -/

theorem toTable_nil : toTable [] = initial := by
  rw [toTable, initial, languages, List.filterMap_nil, List.map_singleton, toLanguage, prefixes,
    embeddings, List.filterMap_nil, List.map_nil, longestFirst_nil]
  rfl

theorem callEach_toTable (h : Legal log) (calls : List Registration) :
    Legal (log ++ (toTable log).accepted calls) ∧
      (toTable log).callEach calls = toTable (log ++ (toTable log).accepted calls) := by
  induction calls generalizing log with
  | nil =>
    rw [accepted, callEach, List.append_nil]
    exact ⟨h, rfl⟩
  | cons r rs ih =>
    -- what is known of the table is kept by either outcome of the first call
    cases h_r : refusal? log r with
    | some e =>
      have h_call := call_of_refused (refused_of_refusal? h_r)
      simp only [accepted, callEach, h_call]
      exact ih h
    | none =>
      have h_call := call_of_accepted h h_r
      simp only [accepted, callEach, h_call]
      have h_rest := ih (h.concat h_r)
      rwa [List.append_assoc, List.singleton_append] at h_rest

/-- A new table, after any calls, is `toTable` of those that it accepted. -/
theorem callEach_initial (calls : List Registration) :
    Legal (initial.accepted calls) ∧
      initial.callEach calls = toTable (initial.accepted calls) := by
  have h := callEach_toTable legal_nil calls
  rwa [toTable_nil, List.nil_append] at h

end Registration

end ScopeTokens
