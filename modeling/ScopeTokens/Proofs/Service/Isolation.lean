/-
  ScopeTokens.Proofs.Service.Isolation

  Documents of one service do not affect each other. All of them share one
  registry, and what it has cached grows with every document that is opened or
  refreshed. If its loader is `Steady`, this cannot be seen: the requests about
  one document are answered, and the document ends up, as if they were the only
  ones (`run_filter`). A request leaves the other documents alone
  (`get?_serve_of_ne`), and two services that hold a document alike, over
  registries that answer alike, do the same with a request about it
  (`HoldAlike.serve`).
-/

import ScopeTokens.Proofs.Cache.SharedRegistry
import ScopeTokens.Service

namespace ScopeTokens

/-- A request to a service about one document. -/
inductive ServiceRequest where
  | openDocument (d : Document)
  | close (id : DocumentId)
  | edit (id : DocumentId) (changes : List TextChange)
  | setLanguage (id : DocumentId) (language : String)
  | refresh (id : DocumentId)
  | tokenAt (id : DocumentId) (p : Position)
  | isCommentAt (id : DocumentId) (p : Position)
  | lineTokens (id : DocumentId) (line : Nat)
  | tokensForLines (id : DocumentId) (range : LineRange)
  | allTokens (id : DocumentId)
  | isOpen (id : DocumentId)
  | document (id : DocumentId)
  | stats (id : DocumentId)

/-- An answer of a service. -/
inductive ServiceAnswer where
  /-- The answer of an operation on a cache, which may fail. -/
  | reply (answer : Except TokenizeError CacheAnswer)
  | closed (document : Option Document)
  | isOpen (answer : Bool)
  | document (document : Option Document)
  | stats (stats : Option CacheStats)

/-- The document that a request is about. -/
def ServiceRequest.id : ServiceRequest → DocumentId
  | openDocument d => d.id
  | close id => id
  | edit id _ => id
  | setLanguage id _ => id
  | refresh id => id
  | tokenAt id _ => id
  | isCommentAt id _ => id
  | lineTokens id _ => id
  | tokensForLines id _ => id
  | allTokens id => id
  | isOpen id => id
  | document id => id
  | stats id => id

namespace TokenService

variable {σ : Type}

/-! ## The documents that are open -/

theorem find?_others_self (s : TokenService σ) (id : DocumentId) :
    (s.others id).find? (fun e => e.1 == id) = none := by
  rw [others, List.find?_filter, List.find?_eq_none]
  intro e _
  simp

theorem find?_others_of_ne (s : TokenService σ) {id other : DocumentId} (h : other ≠ id) :
    (s.others id).find? (fun e => e.1 == other) = s.documents.find? fun e => e.1 == other := by
  rw [others, List.find?_filter]
  congr 1
  funext e
  by_cases h_e : e.1 = other
  · simp [h_e, h]
  · simp [h_e]

theorem get?_store_self {α : Type} (s : TokenService σ) (d : Document) (r : Reply σ α) :
    (s.store d r).get? d.id = some ⟨d, r.cache⟩ := by
  have h_self : (d.id == d.id) = true := beq_self_eq_true d.id
  simp only [get?, store, List.find?_cons, h_self, Option.map_some]

theorem get?_store_of_ne {α : Type} (s : TokenService σ) {d : Document} {id : DocumentId}
    (h : id ≠ d.id) (r : Reply σ α) : (s.store d r).get? id = s.get? id := by
  have h_head : (d.id == id) = false := beq_false_of_ne h.symm
  simp only [get?, store, List.find?_cons, h_head, find?_others_of_ne s h]

theorem get?_close_self (s : TokenService σ) (id : DocumentId) :
    (s.close id).2.get? id = none := by
  rw [get?, close, find?_others_self]
  rfl

theorem get?_close_of_ne (s : TokenService σ) {id other : DocumentId} (h : other ≠ id) :
    (s.close id).2.get? other = s.get? other := by
  rw [get?, close, find?_others_of_ne s h, get?]

theorem onDocument_of_none {α : Type} {s : TokenService σ} {id : DocumentId}
    (h : s.get? id = none) (change : Document → Document)
    (op : TokenCache σ → Registry (Grammar σ) → LineSource → Reply σ α) :
    s.onDocument id change op = (.error (.unknownDocument id), s) := by
  rw [onDocument, h]

theorem onDocument_of_some {α : Type} {s : TokenService σ} {id : DocumentId}
    {d : OpenDocument σ} (h : s.get? id = some d) (change : Document → Document)
    (op : TokenCache σ → Registry (Grammar σ) → LineSource → Reply σ α) :
    s.onDocument id change op =
      ((op d.cache s.registry (change d.document).source).answer,
        s.store (change d.document) (op d.cache s.registry (change d.document).source)) := by
  rw [onDocument, h]

/-- Documents are kept under their own identity, and the registry serves `answers`. -/
structure WellKept (languages : LanguageTable)
    (answers : ScopeName → Except GrammarError (Option (Grammar σ))) (s : TokenService σ) :
    Prop where
  keyed : ∀ id d, s.get? id = some d → d.document.id = id
  serves : s.registry.Serves languages answers

/-- `s` and `t` have the same document and cache open under `id`, and the same settings. -/
structure HoldAlike (id : DocumentId) (s t : TokenService σ) : Prop where
  config : s.config = t.config
  entry : s.get? id = t.get? id

variable {languages : LanguageTable}
  {answers : ScopeName → Except GrammarError (Option (Grammar σ))} {s t : TokenService σ}

theorem WellKept.store {α : Type} (h : s.WellKept languages answers) (d : Document)
    {r : Reply σ α} (h_r : r.registry.Serves languages answers) :
    (s.store d r).WellKept languages answers := by
  refine ⟨?_, h_r⟩
  intro id e h_e
  by_cases h_id : id = d.id
  · subst h_id
    rw [get?_store_self, Option.some.injEq] at h_e
    rw [← h_e]
  · rw [get?_store_of_ne s h_id] at h_e
    exact h.keyed id e h_e

theorem WellKept.close (h : s.WellKept languages answers) (id : DocumentId) :
    (s.close id).2.WellKept languages answers := by
  refine ⟨?_, h.serves⟩
  intro other e h_e
  by_cases h_id : other = id
  · subst h_id
    rw [get?_close_self] at h_e
    contradiction
  · rw [get?_close_of_ne s h_id] at h_e
    exact h.keyed other e h_e

theorem wellKept_initial {registry : Registry (Grammar σ)} (h : registry.Steady)
    (config : CacheConfig) :
    (initial registry config).WellKept registry.languages
      fun scope => (registry.loadGrammar scope).1 :=
  ⟨fun _ _ h_none => absurd h_none (Option.some_ne_none _).symm, Registry.serves_of_steady h⟩

/-- `store` of the same document and cache makes services hold it alike. -/
theorem HoldAlike.store {α : Type} {id : DocumentId} (h : HoldAlike id s t) (d : Document)
    {r r' : Reply σ α} (h_cache : r.cache = r'.cache) :
    HoldAlike d.id (s.store d r) (t.store d r') where
  config := h.config
  entry := by rw [get?_store_self, get?_store_self, h_cache]

/-! ## Requests -/

/-- `r` with its answer as a `ServiceAnswer`. -/
def replied {α : Type} (read : α → CacheAnswer) (r : Except TokenizeError α × TokenService σ) :
    ServiceAnswer × TokenService σ :=
  (.reply (r.1.map read), r.2)

/-- `onDocument` is answered with the answer of the cache. -/
theorem replied_onDocument {α : Type} (read : α → CacheAnswer) (s : TokenService σ)
    (id : DocumentId) (change : Document → Document)
    (op : TokenCache σ → Registry (Grammar σ) → LineSource → Reply σ α) :
    replied read (s.onDocument id change op) =
      replied (fun a => a) (s.onDocument id change fun c registry src =>
        (op c registry src).map read) := by
  cases h : s.get? id with
  | none =>
    rw [onDocument_of_none h, onDocument_of_none h]
    rfl
  | some d =>
    rw [onDocument_of_some h, onDocument_of_some h, replied, replied]
    cases h_answer : (op d.cache s.registry (change d.document).source).answer <;>
      simp only [Reply.map, h_answer] <;> rfl

variable [DecidableEq σ]

/-- Carries out a request. -/
def serve (s : TokenService σ) : ServiceRequest → ServiceAnswer × TokenService σ
  | .openDocument d => replied (fun _ => .done) (s.openDocument d)
  | .close id => (.closed (s.close id).1, (s.close id).2)
  | .edit id changes => replied (fun _ => .done) (s.edit id changes)
  | .setLanguage id language => replied (fun _ => .done) (s.setLanguage id language)
  | .refresh id => replied (fun _ => .done) (s.refresh id)
  | .tokenAt id p => replied .token (s.tokenAt id p)
  | .isCommentAt id p => replied .inComment (s.isCommentAt id p)
  | .lineTokens id line => replied .tokens (s.lineTokens id line)
  | .tokensForLines id range => replied .lines (s.tokensForLines id range)
  | .allTokens id => replied .lines (s.allTokens id)
  | .isOpen id => (.isOpen (s.isOpen id), s)
  | .document id => (.document (s.document id), s)
  | .stats id => (.stats (s.stats id), s)

/-- Carries out requests in order. Each answer is listed with the document that it is about. -/
def run (s : TokenService σ) :
    List ServiceRequest → List (DocumentId × ServiceAnswer) × TokenService σ
  | [] => ([], s)
  | q :: qs =>
    let served := s.serve q
    let rest := served.2.run qs
    ((q.id, served.1) :: rest.1, rest.2)

/-- What a request does: opens or closes a document, asks the cache of an open one after a `change`
    of it, or only looks at what is open. -/
inductive RequestKind (σ : Type) [DecidableEq σ] : ServiceRequest → Prop
  | opens (d : Document) : RequestKind σ (.openDocument d)
  | closes (id : DocumentId) : RequestKind σ (.close id)
  | asks {q : ServiceRequest} (change : Document → Document) (h_change : ∀ d, (change d).id = d.id)
    (request : CacheRequest) (h_serve : ∀ s : TokenService σ,
      s.serve q = replied (fun a => a) (s.onDocument q.id change request.ask)) : RequestKind σ q
  | looks {q : ServiceRequest} (look : Option (OpenDocument σ) → ServiceAnswer)
    (h_serve : ∀ s : TokenService σ, s.serve q = (look (s.get? q.id), s)) : RequestKind σ q

theorem requestKind (q : ServiceRequest) : RequestKind σ q := by
  cases q with
  | openDocument d => exact .opens d
  | close id => exact .closes id
  | edit id changes =>
    exact .asks (fun d => d.applyChanges changes) (fun _ => rfl) (.onEdit changes) fun s =>
      replied_onDocument (fun _ => .done) s id _ fun c registry src => c.onEdit registry src changes
  | setLanguage id language =>
    exact .asks (fun d => d.setLanguage language) (fun _ => rfl) .refresh fun s =>
      replied_onDocument (fun _ => .done) s id _ TokenCache.refresh
  | refresh id =>
    exact .asks (fun d => d) (fun _ => rfl) .refresh fun s =>
      replied_onDocument (fun _ => .done) s id _ TokenCache.refresh
  | tokenAt id p =>
    exact .asks (fun d => d) (fun _ => rfl) (.tokenAt p) fun s =>
      replied_onDocument .token s id _ fun c registry src => c.tokenAt registry src p
  | isCommentAt id p =>
    exact .asks (fun d => d) (fun _ => rfl) (.isCommentAt p) fun s =>
      replied_onDocument .inComment s id _ fun c registry src => c.isCommentAt registry src p
  | lineTokens id line =>
    exact .asks (fun d => d) (fun _ => rfl) (.lineTokens line) fun s =>
      replied_onDocument .tokens s id _ fun c registry src => c.lineTokens registry src line
  | tokensForLines id range =>
    exact .asks (fun d => d) (fun _ => rfl) (.tokensForLines range) fun s =>
      replied_onDocument .lines s id _ fun c registry src => c.tokensForLines registry src range
  | allTokens id =>
    exact .asks (fun d => d) (fun _ => rfl) .allTokens fun s =>
      replied_onDocument .lines s id _ TokenCache.allTokens
  | isOpen id => exact .looks (fun e => .isOpen e.isSome) fun _ => rfl
  | document id => exact .looks (fun e => .document (e.map OpenDocument.document)) fun _ => rfl
  | stats id => exact .looks (fun e => .stats (e.map fun d => d.cache.stats)) fun _ => rfl

/-- `WellKept` is kept by every request. -/
theorem WellKept.serve (h : s.WellKept languages answers) (q : ServiceRequest) :
    (s.serve q).2.WellKept languages answers := by
  cases requestKind (σ := σ) q with
  | opens d => exact h.store d (TokenCache.alike_refresh h.serves h.serves _ _).left
  | closes id => exact h.close id
  | asks change _ request h_serve =>
    rw [h_serve]
    cases h_entry : s.get? q.id with
    | none =>
      rw [onDocument_of_none h_entry]
      exact h
    | some e =>
      rw [onDocument_of_some h_entry]
      exact h.store _ (TokenCache.alike_ask h.serves h.serves request _ _).left
  | looks look h_serve =>
    rw [h_serve]
    exact h

/-- A request leaves documents under other identities alone, also if it fails. -/
theorem get?_serve_of_ne (h : s.WellKept languages answers) {q : ServiceRequest} {id : DocumentId}
    (h_ne : id ≠ q.id) : (s.serve q).2.get? id = s.get? id := by
  cases requestKind (σ := σ) q with
  | opens d => exact get?_store_of_ne s h_ne _
  | closes id' => exact get?_close_of_ne s h_ne
  | asks change h_change request h_serve =>
    rw [h_serve]
    cases h_entry : s.get? q.id with
    | none => rw [onDocument_of_none h_entry, replied]
    | some e =>
      rw [onDocument_of_some h_entry]
      -- the document is put back under the identity it was found under
      have h_id : (change e.document).id = q.id :=
        (h_change e.document).trans (h.keyed q.id e h_entry)
      exact get?_store_of_ne s (h_id ▸ h_ne) _
  | looks look h_serve => rw [h_serve]

theorem config_serve (s : TokenService σ) (q : ServiceRequest) :
    (s.serve q).2.config = s.config := by
  cases requestKind (σ := σ) q with
  | opens d => rfl
  | closes id => rfl
  | asks change _ request h_serve =>
    rw [h_serve]
    cases h_entry : s.get? q.id with
    | none => rw [onDocument_of_none h_entry, replied]
    | some e =>
      rw [onDocument_of_some h_entry]
      rfl
  | looks look h_serve => rw [h_serve]

/-- Services that hold a document alike answer a request about it alike, and still do afterwards. -/
theorem HoldAlike.serve {q : ServiceRequest} (h : HoldAlike q.id s t)
    (h_s : s.WellKept languages answers) (h_t : t.WellKept languages answers) :
    (s.serve q).1 = (t.serve q).1 ∧ HoldAlike q.id (s.serve q).2 (t.serve q).2 := by
  cases requestKind (σ := σ) q with
  -- both refresh an empty cache of the same configuration, whatever was open before
  | opens d =>
    have h_alike := TokenCache.alike_refresh h_s.serves h_t.serves (.initial s.config) d.source
    have h_open : t.serve (.openDocument d) = replied (fun _ => .done)
        (((TokenCache.initial s.config).refresh t.registry d.source).answer,
          t.store d ((TokenCache.initial s.config).refresh t.registry d.source)) := by
      rw [h.config]
      rfl
    rw [h_open]
    refine ⟨?_, h.store d h_alike.cache⟩
    exact congrArg (fun a => ServiceAnswer.reply (a.map fun _ => .done)) h_alike.answer
  | closes id =>
    refine ⟨?_, h.config, ?_⟩
    · exact congrArg (fun e => ServiceAnswer.closed (e.map OpenDocument.document)) h.entry
    · exact (get?_close_self s id).trans (get?_close_self t id).symm
  | asks change h_change request h_serve =>
    rw [h_serve, h_serve]
    cases h_entry : s.get? q.id with
    | none =>
      rw [onDocument_of_none h_entry, onDocument_of_none (h.entry.symm.trans h_entry)]
      exact ⟨rfl, h⟩
    | some e =>
      have h_alike := TokenCache.alike_ask h_s.serves h_t.serves request e.cache
        (change e.document).source
      have h_id : (change e.document).id = q.id :=
        (h_change e.document).trans (h_s.keyed q.id e h_entry)
      rw [onDocument_of_some h_entry, onDocument_of_some (h.entry.symm.trans h_entry), replied,
        replied, h_alike.answer]
      refine ⟨rfl, ?_⟩
      rw [← h_id]
      exact h.store _ h_alike.cache
  | looks look h_serve =>
    rw [h_serve, h_serve, h.entry]
    exact ⟨rfl, h⟩

/-! ## Runs -/

/-- What a run does for one document is what a run of the requests about it does. -/
theorem HoldAlike.run {id : DocumentId} (h : HoldAlike id s t) (h_s : s.WellKept languages answers)
    (h_t : t.WellKept languages answers) (qs : List ServiceRequest) :
    (s.run qs).1.filter (fun a => a.1 = id) = (t.run (qs.filter fun q => q.id = id)).1 ∧
      HoldAlike id (s.run qs).2 (t.run (qs.filter fun q => q.id = id)).2 := by
  induction qs generalizing s t with
  | nil => exact ⟨rfl, h⟩
  | cons q qs ih =>
    by_cases h_id : q.id = id
    -- both services are asked
    · subst h_id
      obtain ⟨h_answer, h_after⟩ := h.serve h_s h_t
      obtain ⟨h_log, h_end⟩ := ih h_after (h_s.serve q) (h_t.serve q)
      rw [List.filter_cons_of_pos (by simp), TokenService.run, TokenService.run,
        List.filter_cons_of_pos (by simp), h_log, h_answer]
      exact ⟨rfl, h_end⟩
    -- only the first is asked, about another document
    · have h_after : HoldAlike id (s.serve q).2 t :=
        ⟨(config_serve s q).trans h.config,
          (get?_serve_of_ne h_s (Ne.symm h_id)).trans h.entry⟩
      obtain ⟨h_log, h_end⟩ := ih h_after (h_s.serve q) h_t
      rw [List.filter_cons_of_neg (by simpa using h_id), TokenService.run,
        List.filter_cons_of_neg (by simpa using h_id)]
      exact ⟨h_log, h_end⟩

/-- On a new service over a `Steady` registry, the answers about `id`, its document and its counters
    after any `requests` are those of a run of the requests about `id` alone. -/
theorem run_filter (registry : Registry (Grammar σ)) (h : registry.Steady) (config : CacheConfig)
    (requests : List ServiceRequest) (id : DocumentId) :
    let all := (initial registry config).run requests
    let own := (initial registry config).run (requests.filter fun q => q.id = id)
    all.1.filter (fun a => a.1 = id) = own.1 ∧ all.2.document id = own.2.document id ∧
      all.2.stats id = own.2.stats id := by
  have h_kept := wellKept_initial h config
  have h_alike : HoldAlike id (initial registry config) (initial registry config) := ⟨rfl, rfl⟩
  obtain ⟨h_log, h_end⟩ := h_alike.run h_kept h_kept requests
  refine ⟨h_log, ?_, ?_⟩
  · exact congrArg (fun e => e.map OpenDocument.document) h_end.entry
  · exact congrArg (fun e => e.map fun d => d.cache.stats) h_end.entry

/-- A language whose grammar can be loaded, and one whose grammar cannot. -/
def halfLoadedRegistry : Registry (Grammar Nat) :=
  (Registry.ofLanguages ⟨[⟨"plaintext", none, []⟩, ⟨"parens", some ⟨"source.parens"⟩, []⟩,
    ⟨"lost", some ⟨"source.lost"⟩, []⟩]⟩).withLoader fun _ scope =>
      if scope = ⟨"source.parens"⟩ then .ok (some TokenCache.parenGrammar)
      else .error (.loadFailed scope "not found")

/-- Two documents by turns. The grammar of the one cannot be loaded, and it is closed in between. -/
def mixedRequests : List ServiceRequest :=
  [.openDocument (.new ⟨2⟩ "lost" "x"), .openDocument (.new ⟨1⟩ "parens" "(a\nb"),
    .setLanguage ⟨2⟩ "parens", .edit ⟨1⟩ [⟨⟨⟨0, 0⟩, ⟨0, 0⟩⟩, "("⟩], .close ⟨2⟩,
    .isCommentAt ⟨1⟩ ⟨1, 0⟩, .refresh ⟨2⟩, .stats ⟨1⟩]

theorem run_filter_mixedRequests :
    halfLoadedRegistry.Steady ∧
    ((initial halfLoadedRegistry .initial).run mixedRequests).1.filter (fun a => a.1 = ⟨1⟩) =
      [(⟨1⟩, .reply (.ok .done)), (⟨1⟩, .reply (.ok .done)), (⟨1⟩, .reply (.ok (.inComment false))),
        (⟨1⟩, .stats (some ⟨4, 0, 1, 1⟩))] ∧
    ((initial halfLoadedRegistry .initial).run mixedRequests).2.document ⟨1⟩ =
      some ⟨⟨1⟩, "parens", "((a\nb", 2⟩ := by
  have h_steady : halfLoadedRegistry.Steady := by
    rintro loader h_loader asked asked' scope
    cases h_loader
    rfl
  obtain ⟨h_log, h_document, -⟩ :=
    run_filter halfLoadedRegistry h_steady .initial mixedRequests ⟨1⟩
  exact ⟨h_steady, h_log.trans (by cbv), h_document.trans (by cbv)⟩

end TokenService

end ScopeTokens
