/-
  ScopeTokens.Proofs.Language.Slots

  Languages in an array with an index from names to numbers beside it. A call
  works on the two in place, step by step; a refusal ends it, and what was written
  before it stays. A call that reads a slot that is not there, or needs a number
  beyond a byte, has no result (`none`). From `initial` on this does not happen
  for any calls: array and index are those of the `LanguageTable`
  (`mirrors_callEach_toTable`), and names and numbers are inverse to each other
  (`Numbered`).
-/

import Mathlib
import ScopeTokens.Proofs.Language.Registrations

namespace ScopeTokens

/-- The languages by slot, and the number of each name. -/
structure LanguageSlots where
  slots : Array Language
  index : Std.HashMap String LanguageId

namespace LanguageSlots

open LanguageTable hiding names
open Registration

/-! ## Work in place -/

/-- Work on the slots that may be refused, or have no result. -/
abbrev Work := ExceptT RegistrationError (StateT LanguageSlots Option)

/-- The answer of `w` and the slots afterwards. -/
def Work.result {α : Type} (w : Work α) (s : LanguageSlots) :
    Option (Except RegistrationError α × LanguageSlots) :=
  StateT.run (ExceptT.run w) s

section

variable {α β : Type} (s : LanguageSlots)

theorem result_pure (a : α) : (pure a : Work α).result s = some (.ok a, s) :=
  rfl

theorem result_throw_bind (e : RegistrationError) (f : β → Work α) :
    ((throw e : Work β) >>= f).result s = some (.error e, s) :=
  rfl

theorem result_get_bind (f : LanguageSlots → Work α) : (get >>= f).result s = (f s).result s :=
  rfl

theorem result_modify_bind (g : LanguageSlots → LanguageSlots) (f : PUnit → Work α) :
    (modify g >>= f).result s = (f ⟨⟩).result (g s) :=
  rfl

theorem result_lift_bind (o : Option β) (f : β → Work α) :
    ((liftM o : Work β) >>= f).result s = o.bind fun b => (f b).result s := by
  cases o with
  | none => rfl
  | some b => rfl

theorem result_bind (w : Work β) (f : β → Work α) :
    (w >>= f).result s = (w.result s).bind fun r =>
      match r.1 with
      | .error e => some (.error e, r.2)
      | .ok b => (f b).result r.2 := by
  show ((ExceptT.run w).run s).bind _ = _
  refine congrArg (Option.bind _) (funext fun r => ?_)
  obtain ⟨answer, s'⟩ := r
  cases answer with
  | error e => rfl
  | ok b => rfl

theorem result_ite (c : Prop) [Decidable c] (w w' : Work α) :
    (if c then w else w').result s = if c then w.result s else w'.result s := by
  split
  · rfl
  · rfl

end

/-- Plain text alone, in slot 0. -/
def initial : LanguageSlots :=
  ⟨#[⟨plainTextName, none, []⟩],
    (∅ : Std.HashMap String LanguageId).insert plainTextName .plainText⟩

/-- The number of the slot behind `count` others, if it is a byte. -/
def numberBehind (count : Nat) : Option LanguageId :=
  if count + 1 < UInt8.size then some ⟨UInt8.ofNat count + 1⟩ else none

/-- The slot of `id`, `none` for `LanguageId.none`. -/
def slotOf (id : LanguageId) : Option Nat :=
  if id.isNone then none else some (id.raw.toNat - 1)

/-- Pushes a language into the next slot, and then puts its name into the index. -/
def register (name : String) (scopeName : Option String) : Work LanguageId := do
  if (← get).index.contains name then
    throw (.duplicateLanguage name)
  if capacity ≤ (← get).slots.size then
    throw .tooManyLanguages
  let id ← numberBehind (← get).slots.size
  modify fun s => { s with slots := s.slots.push ⟨name, scopeName.map ScopeName.mk, []⟩ }
  modify fun s => { s with index := s.index.insert name id }
  return id

/-- Looks `name` up in the index. -/
def lookup (name : String) : Work LanguageId := do
  match (← get).index[name]? with
  | some id => return id
  | none => throw (.unknownLanguage name)

/-- Puts a prefix behind those of its host, and sorts them anew. -/
def registerEmbedded (host scopePrefix target : String) : Work Unit := do
  let hostId ← lookup host
  let id ← lookup target
  let slot ← slotOf hostId
  let l ← (← get).slots[slot]?
  let l := { l with embedded := longestFirst (l.embedded ++ [(⟨scopePrefix⟩, id)]) }
  modify fun s => { s with slots := s.slots.setIfInBounds slot l }
  return ()

def call : Registration → Work (Option LanguageId)
  | .language name scopeName => do
    let id ← register name scopeName
    return some id
  | .embedded host scopePrefix target => do
    registerEmbedded host scopePrefix target
    return none

/-- The slots after some calls; those that are refused leave what they wrote. -/
def callEach (s : LanguageSlots) : List Registration → Option LanguageSlots
  | [] => some s
  | r :: rs => ((call r).result s).bind fun after => after.2.callEach rs

/-! ## Answers -/

/-- `LanguageTable.idOf`, by the index. -/
def idOf (s : LanguageSlots) (name : String) : LanguageId :=
  (s.index[name]?).getD LanguageId.none

/-- `LanguageTable.get?`, by slot. -/
def get? (s : LanguageSlots) (id : LanguageId) : Option Language :=
  (slotOf id).bind fun slot => s.slots[slot]?

/-- `LanguageTable.nameOf`, by slot. -/
def nameOf (s : LanguageSlots) (id : LanguageId) : Option String :=
  (s.get? id).map Language.name

/-- `LanguageTable.list`, if all numbers are bytes. -/
def list? (s : LanguageSlots) : Option (List (LanguageId × String)) :=
  s.slots.toList.zipIdx.mapM fun e => (numberBehind e.2).map fun id => (id, e.1.name)

/-- `s` has the languages of `t`, and its index the numbers of their names. -/
structure Mirrors (s : LanguageSlots) (t : LanguageTable) : Prop where
  slots : s.slots.toList = t.languages
  index : ∀ name, s.index[name]? = t.find? name

/-- The numbers in use, `1` to `names.length`, and the registered `names` are one-to-one. -/
structure Numbered (s : LanguageSlots) (names : List String) : Prop where
  length_le : names.length ≤ 255
  plainText : names.head? = some plainTextName ∧ s.idOf plainTextName = .plainText
  nodup : names.Nodup
  inUse : ∀ id, (s.get? id).isSome ↔ 1 ≤ id.raw.toNat ∧ id.raw.toNat ≤ names.length
  inverse : ∀ id name, s.nameOf id = some name ↔ id ≠ LanguageId.none ∧ s.idOf name = id
  unregistered : ∀ name, s.idOf name = LanguageId.none ↔ name ∉ names
  numbers : names.map (fun name => (s.idOf name).raw.toNat) = List.range' 1 names.length
  listed : s.list? = some (names.map fun name => (s.idOf name, name))
  embedded : ∀ id l, s.get? id = some l → ∀ e ∈ l.embedded, (s.get? e.2).isSome

variable {s : LanguageSlots} {t : LanguageTable} {log : List Registration}
  {name host scopePrefix target : String} {scopeName : Option String}

theorem result_register (s : LanguageSlots) (name : String) (scopeName : Option String) :
    (register name scopeName).result s =
      if s.index.contains name then some (.error (.duplicateLanguage name), s)
      else if capacity ≤ s.slots.size then some (.error .tooManyLanguages, s)
      else (numberBehind s.slots.size).bind fun id => some (.ok id,
        ⟨s.slots.push ⟨name, scopeName.map ScopeName.mk, []⟩, s.index.insert name id⟩) := by
  simp only [register, result_get_bind, result_ite, result_throw_bind, result_lift_bind,
    result_modify_bind, result_pure]

theorem result_lookup_bind {α : Type} (s : LanguageSlots) (name : String)
    (f : LanguageId → Work α) :
    (lookup name >>= f).result s =
      match s.index[name]? with
      | some id => (f id).result s
      | none => some (.error (.unknownLanguage name), s) := by
  rw [lookup, bind_assoc, result_get_bind]
  cases s.index[name]? with
  | none => rfl
  | some id => rfl

theorem result_registerEmbedded (s : LanguageSlots) (host scopePrefix target : String) :
    (registerEmbedded host scopePrefix target).result s =
      match s.index[host]? with
      | none => some (.error (.unknownLanguage host), s)
      | some hostId =>
        match s.index[target]? with
        | none => some (.error (.unknownLanguage target), s)
        | some id =>
          (slotOf hostId).bind fun slot => (s.slots[slot]?).bind fun l => some (.ok (),
            ⟨s.slots.setIfInBounds slot
              { l with embedded := longestFirst (l.embedded ++ [(⟨scopePrefix⟩, id)]) },
              s.index⟩) := by
  simp only [registerEmbedded, result_lookup_bind, result_get_bind, result_lift_bind,
    result_modify_bind, result_pure]
  cases s.index[host]? with
  | none => rfl
  | some hostId =>
    cases s.index[target]? with
    | none => rfl
    | some id => rfl

theorem numberBehind_of_lt {count : Nat} (h : count < capacity) :
    numberBehind count = some (idAt count) := by
  have h_fits : count + 1 < UInt8.size := Nat.succ_lt_succ h
  rw [numberBehind, if_pos h_fits, idAt, UInt8.ofNat_add]
  rfl

theorem slotOf_idAt {i : Nat} (h : i < capacity) : slotOf (idAt i) = some i := by
  rw [slotOf, isNone_idAt h, toNat_idAt h, Nat.add_sub_cancel]
  rfl

/-! ## One call -/

theorem mirrors_initial : Mirrors initial LanguageTable.initial where
  slots := rfl
  index name := by
    rw [initial, Std.HashMap.getElem?_insert]
    split
    · rename_i h_name
      rw [← eq_of_beq h_name]
      rfl
    · rename_i h_name
      have h_not : name ∉ LanguageTable.initial.names := by
        intro h_mem
        obtain rfl : name = plainTextName := by
          simpa [LanguageTable.names, LanguageTable.initial] using h_mem
        exact h_name (beq_self_eq_true plainTextName)
      rw [find?_of_not_mem h_not, Std.HashMap.getElem?_empty]

theorem Mirrors.size (h : s.Mirrors t) : s.slots.size = t.languages.length := by
  rw [← h.slots, Array.length_toList]

theorem Mirrors.contains (h : s.Mirrors t) (name : String) :
    s.index.contains name = (t.find? name).isSome := by
  rw [Std.HashMap.contains_eq_isSome_getElem?, h.index]

theorem Mirrors.getElem? (h : s.Mirrors t) (slot : Nat) : s.slots[slot]? = t.languages[slot]? := by
  rw [← h.slots, Array.getElem?_toList]

/-- `Mirrors` is kept when a language is pushed and its name indexed. -/
theorem Mirrors.push (h : s.Mirrors t) {l : Language} (h_new : l.name ∉ t.names) :
    Mirrors ⟨s.slots.push l, s.index.insert l.name (idAt t.languages.length)⟩
      ⟨t.languages ++ [l]⟩ where
  slots := by
    rw [Array.toList_push, h.slots]
  index name := by
    have h_names : LanguageTable.names ⟨t.languages ++ [l]⟩ = t.names ++ [l.name] := by
      rw [LanguageTable.names, List.map_append, LanguageTable.names, List.map_singleton]
    rw [Std.HashMap.getElem?_insert, h.index]
    split
    -- the new name, which stands behind all others
    · rename_i h_name
      obtain rfl := eq_of_beq h_name
      have h_mem : l.name ∈ LanguageTable.names ⟨t.languages ++ [l]⟩ := by simp [h_names]
      rw [find?_of_mem h_mem, h_names, List.idxOf_append_of_notMem h_new, List.idxOf_cons_self,
        Nat.add_zero, LanguageTable.names, List.length_map]
    -- any other name, which keeps its place if it has one
    · rename_i h_name
      by_cases h_mem : name ∈ t.names
      · have h_mem' : name ∈ LanguageTable.names ⟨t.languages ++ [l]⟩ := by simp [h_names, h_mem]
        rw [find?_of_mem h_mem, find?_of_mem h_mem', h_names, List.idxOf_append_of_mem h_mem]
      · have h_mem' : name ∉ LanguageTable.names ⟨t.languages ++ [l]⟩ := by
          rw [h_names, List.mem_append, List.mem_singleton]
          rintro (h_old | rfl)
          · exact h_mem h_old
          · exact h_name (beq_self_eq_true _)
        rw [find?_of_not_mem h_mem, find?_of_not_mem h_mem']

/-- A refused call leaves slots and index as they were. -/
theorem result_call_of_refused (h_s : s.Mirrors (toTable log)) {r : Registration}
    {e : RegistrationError} (h_r : Refused log r e) : (call r).result s = some (.error e, s) := by
  cases h_r with
  | duplicate h_mem =>
    rw [call, result_bind, result_register, h_s.contains, find?_toTable h_mem]
    rfl
  | full h_new h_full =>
    rw [call, result_bind, result_register, h_s.contains, h_s.size, length_toTable,
      find?_toTable_of_not_mem h_new, if_pos h_full]
    rfl
  | unknownHost h_host =>
    rw [call, result_bind, result_registerEmbedded, h_s.index, find?_toTable_of_not_mem h_host]
    rfl
  | unknownTarget h_host h_target =>
    rw [call, result_bind, result_registerEmbedded, h_s.index, h_s.index, find?_toTable h_host,
      find?_toTable_of_not_mem h_target]
    rfl

/-- `Mirrors` is kept when a slot is overwritten under the same name. -/
theorem Mirrors.set (h : s.Mirrors t) {i : Nat} {l l' : Language} (h_l : t.languages[i]? = some l)
    (h_name : l'.name = l.name) :
    Mirrors ⟨s.slots.setIfInBounds i l', s.index⟩ ⟨t.languages.set i l'⟩ where
  slots := by
    rw [Array.toList_setIfInBounds, h.slots]
  index name := by
    obtain ⟨h_i, rfl⟩ := List.getElem?_eq_some_iff.1 h_l
    have h_names : t.names = LanguageTable.names ⟨t.languages.set i l'⟩ := by
      have h_len : i < (t.languages.map Language.name).length := by rwa [List.length_map]
      rw [LanguageTable.names, LanguageTable.names, List.map_set, h_name,
        ← List.getElem_map Language.name (h := h_len), List.set_getElem_self]
    rw [h.index, find?_congr h_names]

/-- A prefix declaration, on the table: one language is set to itself with the prefix sorted in. -/
theorem toTable_concat_embedded_set (h : Legal log) (h_host : host ∈ names log)
    (h_target : target ∈ names log) :
    ∃ l, (toTable log).languages[(names log).idxOf host]? = some l ∧
      toTable (log ++ [embedded host scopePrefix target]) =
        ⟨(toTable log).languages.set ((names log).idxOf host)
          { l with
            embedded := longestFirst (l.embedded ++ [(⟨scopePrefix⟩, number log target)]) }⟩ := by
  have h_lt : (names log).idxOf host < (toTable log).languages.length := by
    rw [length_toTable]
    exact List.idxOf_lt_length_of_mem h_host
  have h_sorted :
      (toTable log).languages[(names log).idxOf host].embedded.Pairwise NotShorter := by
    obtain ⟨declared, -, h_l⟩ := List.mem_map.1 (List.getElem_mem h_lt)
    rw [← h_l]
    exact pairwise_longestFirst _
  refine ⟨_, List.getElem?_eq_getElem h_lt, ?_⟩
  rw [toTable_concat_embedded h h_target, List.modify_eq_set_get _ h_lt, List.get_eq_getElem,
    insertPrefix_eq_longestFirst _ h_sorted]

/-- A call that is not refused has a result, which mirrors that of the table. -/
theorem result_call_of_accepted (h : Legal log) (h_s : s.Mirrors (toTable log)) {r : Registration}
    (h_r : refusal? log r = none) :
    ∃ s', (call r).result s = some (.ok (answer log r), s') ∧
      s'.Mirrors (toTable (log ++ [r])) := by
  cases r with
  | language name scopeName =>
    obtain ⟨h_new, h_free⟩ := refusal?_language_eq_none_iff.1 h_r
    have h_new' : name ∉ (toTable log).names := by rwa [names_toTable]
    rw [toTable_concat_language h h_new]
    refine ⟨_, ?_, h_s.push h_new'⟩
    rw [call, result_bind, result_register, h_s.contains, h_s.size, length_toTable,
      find?_toTable_of_not_mem h_new, if_neg (by simp), if_neg (Nat.not_le.2 h_free),
      numberBehind_of_lt h_free]
    rfl
  | embedded host scopePrefix target =>
    obtain ⟨h_host, h_target⟩ := refusal?_embedded_eq_none_iff.1 h_r
    obtain ⟨l, h_l, h_table⟩ := toTable_concat_embedded_set h h_host h_target
    -- the index leads to a slot that is there
    have h_lt := List.idxOf_lt_length_of_mem h_host
    have h_slot := slotOf_idAt (Nat.lt_of_lt_of_le h_lt h.length_le)
    rw [h_table]
    refine ⟨_, ?_, h_s.set h_l rfl⟩
    rw [call, result_bind, result_registerEmbedded, h_s.index, h_s.index, find?_toTable h_host,
      find?_toTable h_target]
    dsimp only
    rw [number, h_slot, Option.bind_some, h_s.getElem?, h_l]
    rfl

/-! ## All calls -/

theorem mirrors_callEach_toTable (h : Legal log) (h_s : s.Mirrors (toTable log))
    (calls : List Registration) :
    ∃ s', s.callEach calls = some s' ∧ s'.Mirrors ((toTable log).callEach calls) := by
  induction calls generalizing log s with
  | nil => exact ⟨s, rfl, h_s⟩
  | cons r rs ih =>
    cases h_r : refusal? log r with
    | some e =>
      have h_refused := refused_of_refusal? h_r
      rw [callEach, result_call_of_refused h_s h_refused, LanguageTable.callEach,
        call_of_refused h_refused]
      exact ih h h_s
    | none =>
      obtain ⟨s', h_call, h_s'⟩ := result_call_of_accepted h h_s h_r
      rw [callEach, h_call, LanguageTable.callEach, call_of_accepted h h_r]
      exact ih (h.concat h_r) h_s'

/-! ## Numbers and names -/

theorem Mirrors.idOf (h : s.Mirrors t) (name : String) : s.idOf name = t.idOf name := by
  rw [LanguageSlots.idOf, h.index, LanguageTable.idOf]

theorem Mirrors.get? (h : s.Mirrors t) (id : LanguageId) : s.get? id = t.get? id := by
  rw [LanguageSlots.get?, slotOf, LanguageTable.get?]
  split
  · rfl
  · exact h.getElem? _

theorem Mirrors.nameOf (h : s.Mirrors t) (id : LanguageId) : s.nameOf id = t.nameOf id := by
  rw [LanguageSlots.nameOf, h.get?, LanguageTable.nameOf]

theorem mapM_eq_some_map {α β : Type} {f : α → Option β} {g : α → β} {as : List α}
    (h : ∀ a ∈ as, f a = some (g a)) : as.mapM f = some (as.map g) := by
  induction as with
  | nil => rfl
  | cons a as ih =>
    rw [List.mapM_cons, h a List.mem_cons_self, ih fun b h_b => h b (List.mem_cons_of_mem a h_b)]
    rfl

theorem Mirrors.list? (h : s.Mirrors t) (h_le : t.languages.length ≤ capacity) :
    s.list? = some t.list := by
  rw [LanguageSlots.list?, h.slots, LanguageTable.list]
  refine mapM_eq_some_map fun e h_e => ?_
  have h_lt := List.snd_lt_of_mem_zipIdx h_e
  rw [numberBehind_of_lt (by omega), Option.map_some]

theorem list_eq_map (h : t.names.Nodup) : t.list = t.names.map fun name => (t.idOf name, name) := by
  apply List.ext_getElem
  · simp [LanguageTable.list, LanguageTable.names]
  · intro i h_i h_i'
    rw [List.getElem_map, idOf_getElem h]
    simp [LanguageTable.list, LanguageTable.names]

theorem numbered_of_mirrors (h : Legal log) (h_s : s.Mirrors (toTable log)) :
    s.Numbered (names log) where
  length_le := h.length_le
  plainText := by
    refine ⟨rfl, ?_⟩
    rw [h_s.idOf, idOf_toTable List.mem_cons_self, number_plainText]
  nodup := h.nodup
  inUse id := by
    rw [h_s.get?, isSome_get?_iff, length_toTable]
  inverse id name := by
    rw [h_s.nameOf, h_s.idOf]
    exact nameOf_eq_some_iff h.nodup_names_toTable h.length_names_toTable
  unregistered name := by
    rw [h_s.idOf, idOf_eq_none_iff h.length_names_toTable, names_toTable]
  numbers := by
    rw [← names_toTable]
    apply List.ext_getElem
    · simp
    · intro i h_i h_i'
      rw [List.length_map] at h_i
      have h_lt := Nat.lt_of_lt_of_le h_i h.length_names_toTable
      rw [List.getElem_map, List.getElem_range', h_s.idOf, idOf_getElem h.nodup_names_toTable,
        toNat_idAt h_lt]
      omega
  listed := by
    have h_le : (toTable log).languages.length ≤ capacity := by
      rw [length_toTable]
      exact h.length_le
    rw [h_s.list? h_le, list_eq_map h.nodup_names_toTable, names_toTable]
    simp only [h_s.idOf]
  embedded id l h_l e h_e := by
    rw [h_s.get?] at h_l ⊢
    obtain ⟨declared, -, rfl⟩ := List.mem_map.1 (mem_languages_of_get? h_l)
    -- the sorted prefixes are the declared ones, whose targets were registered
    obtain ⟨d, h_d, rfl⟩ := List.mem_map.1 ((perm_longestFirst _).mem_iff.1 h_e)
    have h_target := (h.known _ _ _ (mem_embeddings.1 h_d)).2
    have h_lt := List.idxOf_lt_length_of_mem h_target
    rw [number, get?_idAt _ (Nat.lt_of_lt_of_le h_lt h.length_le), isSome_getElem?, length_toTable]
    exact h_lt

/-- Any calls on `initial` have a result. It mirrors the table, its numbers and names are one-to-one
    (`Numbered`), no number is beyond a byte, and a further call answers as on the table, without a
    change if it is refused. -/
theorem numbered_callEach (calls : List Registration) :
    ∃ s, initial.callEach calls = some s ∧ s.Mirrors (LanguageTable.initial.callEach calls) ∧
      s.Numbered (names (LanguageTable.initial.accepted calls)) ∧
      ∀ r, ∃ answer s', (call r).result s = some (answer, s') ∧
        answer = ((LanguageTable.initial.callEach calls).call r).map Prod.fst ∧
        (s' = s ∨ ∃ number, answer = .ok number) := by
  obtain ⟨h, h_table⟩ := callEach_initial calls
  obtain ⟨s, h_s, h_mirrors⟩ := mirrors_callEach_toTable legal_nil
    (toTable_nil ▸ mirrors_initial) calls
  rw [toTable_nil] at h_mirrors
  refine ⟨s, h_s, h_mirrors, numbered_of_mirrors h (h_table ▸ h_mirrors), fun r => ?_⟩
  rw [h_table] at h_mirrors ⊢
  cases h_r : refusal? (LanguageTable.initial.accepted calls) r with
  | some e =>
    have h_refused := refused_of_refusal? h_r
    rw [call_of_refused h_refused]
    exact ⟨_, _, result_call_of_refused h_mirrors h_refused, rfl, .inl rfl⟩
  | none =>
    obtain ⟨s', h_call, -⟩ := result_call_of_accepted h h_mirrors h_r
    rw [call_of_accepted h h_r]
    exact ⟨_, s', h_call, rfl, .inr ⟨_, rfl⟩⟩

end LanguageSlots

end ScopeTokens
