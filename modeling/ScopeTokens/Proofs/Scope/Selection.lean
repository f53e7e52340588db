/-
  ScopeTokens.Proofs.Scope.Selection

  What a selector matches. Its parts are the words of its text
  (`spells_iff_eq_pieceWords`), and it matches a stack exactly if its parts can be
  placed on scopes further and further in, each on a scope that starts with it
  (`matchParts_iff_placed`). `matchParts` gives a part the first scope that it
  starts. This loses nothing: whatever scope a part has in a placement, the parts
  behind it have no more scopes left than behind the first one
  (`sublistForall₂_of_cons_cons`).
-/

import Mathlib.Data.List.Forall2
import Mathlib.Data.List.NodupEquivFin
import Mathlib.Data.List.TakeWhile
import ScopeTokens.Scope.Selector

namespace ScopeTokens

/-! ## Words of a text -/

/-- `cs` consists of the words `ws`, in order, with white space between any two and possibly at both
    ends. -/
inductive Spells : List Char → List (List Char) → Prop
  | nil : Spells [] []
  | blank {c : Char} {cs : List Char} {ws : List (List Char)} :
      isBlankChar c = true → Spells cs ws → Spells (c :: cs) ws
  | word {w cs : List Char} {ws : List (List Char)} : w ≠ [] → (∀ c ∈ w, isBlankChar c = false) →
      (∀ c ∈ cs.head?, isBlankChar c = true) → Spells cs ws → Spells (w ++ cs) (w :: ws)

/-- The pieces of `blankPieces` that are not empty. -/
def pieceWords (cs : List Char) : List (List Char) :=
  (blankPieces cs).filter fun w => !w.isEmpty

theorem map_toList_wordsOf (s : String) : (wordsOf s).map String.toList = pieceWords s.toList := by
  rw [wordsOf, List.map_map]
  exact List.map_id'' (fun _ => String.toList_ofList) _

theorem pieceWords_blank {c : Char} (h : isBlankChar c = true) (cs : List Char) :
    pieceWords (c :: cs) = pieceWords cs := by
  rw [pieceWords, blankPieces, if_pos h]
  rfl

/-- Characters without white space go to the first piece. -/
theorem blankPieces_append {w cs p : List Char} {ps : List (List Char)}
    (h_w : ∀ c ∈ w, isBlankChar c = false) (h : blankPieces cs = p :: ps) :
    blankPieces (w ++ cs) = (w ++ p) :: ps := by
  induction w with
  | nil => exact h
  | cons c w ih =>
    obtain ⟨h_c, h_rest⟩ := List.forall_mem_cons.1 h_w
    rw [List.cons_append, blankPieces, if_neg (by simp [h_c]), ih h_rest]
    rfl

theorem pieceWords_word {w cs : List Char} (h_ne : w ≠ []) (h_w : ∀ c ∈ w, isBlankChar c = false)
    (h_cs : ∀ c ∈ cs.head?, isBlankChar c = true) :
    pieceWords (w ++ cs) = w :: pieceWords cs := by
  -- a piece with characters stays
  have h_keep (ps : List (List Char)) :
      ((w ++ []) :: ps).filter (fun p => !p.isEmpty) = w :: ps.filter fun p => !p.isEmpty := by
    rw [List.append_nil]
    apply List.filter_cons_of_pos
    simp [h_ne]
  cases cs with
  | nil =>
    have h_pieces : blankPieces [] = [[]] := rfl
    rw [pieceWords, blankPieces_append h_w h_pieces, h_keep]
    rfl
  | cons c cs =>
    have h_c : isBlankChar c = true := h_cs c rfl
    have h_pieces : blankPieces (c :: cs) = [] :: blankPieces cs := by
      rw [blankPieces, if_pos h_c]
    rw [pieceWords, blankPieces_append h_w h_pieces, h_keep, pieceWords_blank h_c]
    rfl

theorem spells_pieceWords (cs : List Char) : Spells cs (pieceWords cs) := by
  cases cs with
  | nil => exact .nil
  | cons c cs =>
    by_cases h_c : isBlankChar c = true
    · rw [pieceWords_blank h_c]
      exact .blank h_c (spells_pieceWords cs)
    · -- the word that starts here, and what is behind it
      let isOpen : Char → Bool := fun d => !isBlankChar d
      have h_open : isOpen c = true := by simp [isOpen, h_c]
      have h_w : ∀ d ∈ (c :: cs).takeWhile isOpen, isBlankChar d = false := by
        intro d h_d
        simpa [isOpen] using List.mem_takeWhile_imp h_d
      have h_ne : (c :: cs).takeWhile isOpen ≠ [] := by
        rw [List.takeWhile_cons_of_pos h_open]
        exact List.cons_ne_nil _ _
      have h_rest : ∀ d ∈ ((c :: cs).dropWhile isOpen).head?, isBlankChar d = true := by
        intro d h_d
        have h_head := List.head?_dropWhile_not isOpen (c :: cs)
        rw [Option.mem_def.1 h_d] at h_head
        simpa [isOpen] using h_head
      have h_shorter : ((c :: cs).dropWhile isOpen).length < (c :: cs).length := by
        rw [List.dropWhile_cons_of_pos h_open]
        exact Nat.lt_succ_of_le (List.dropWhile_sublist isOpen).length_le
      have h_word := Spells.word h_ne h_w h_rest (spells_pieceWords _)
      rw [← pieceWords_word h_ne h_w h_rest, List.takeWhile_append_dropWhile] at h_word
      exact h_word
termination_by cs.length
decreasing_by
  · exact Nat.lt_succ_self _
  · exact h_shorter

/-- `pieceWords cs` is the one list of words that `cs` spells. -/
theorem spells_iff_eq_pieceWords {cs : List Char} {ws : List (List Char)} :
    Spells cs ws ↔ ws = pieceWords cs := by
  constructor
  · intro h
    induction h with
    | nil => rfl
    | blank h_c _ ih => rw [pieceWords_blank h_c, ih]
    | word h_ne h_w h_cs _ ih => rw [pieceWords_word h_ne h_w h_cs, ih]
  · rintro rfl
    exact spells_pieceWords cs

/-! ## Places of the parts -/

namespace ScopeSelector

/-- The text of `scope` starts with `part`. -/
def Starts (part : String) (scope : ScopeName) : Prop :=
  part.toList <+: scope.chars

/-- The parts have places further and further in, each on a scope that it starts. -/
def Placed (parts : List String) (stack : ScopeStack) : Prop :=
  ∃ place : Fin parts.length → Fin stack.length,
    StrictMono place ∧ ∀ i, Starts (parts.get i) (stack.get (place i))

theorem partFits_iff {part : String} {scope : ScopeName} :
    partFits part scope = true ↔ Starts part scope :=
  List.isPrefixOf_iff_prefix

/-- `Placed` as a sublist relation. -/
theorem placed_iff_sublistForall₂ {parts : List String} {stack : ScopeStack} :
    Placed parts stack ↔ List.SublistForall₂ Starts parts stack := by
  rw [List.sublistForall₂_iff]
  constructor
  · rintro ⟨place, h_mono, h_starts⟩
    -- the chosen scopes, in the order of the parts
    refine ⟨List.ofFn fun i => stack.get (place i), ?_, ?_⟩
    · rw [List.forall₂_iff_get]
      refine ⟨by simp, ?_⟩
      intro i h_i h_i'
      simpa using h_starts ⟨i, h_i⟩
    · rw [List.sublist_iff_exists_fin_orderEmbedding_get_eq]
      have h_length : (List.ofFn fun i => stack.get (place i)).length = parts.length := by simp
      have h_cast : StrictMono fun i => place (Fin.cast h_length i) :=
        h_mono.comp (Fin.cast_strictMono h_length)
      refine ⟨OrderEmbedding.ofStrictMono _ h_cast, ?_⟩
      intro i
      simp only [List.get_ofFn]
      rfl
  · rintro ⟨chosen, h_starts, h_sublist⟩
    obtain ⟨f, h_f⟩ := List.sublist_iff_exists_fin_orderEmbedding_get_eq.1 h_sublist
    obtain ⟨h_length, h_starts⟩ := List.forall₂_iff_get.1 h_starts
    refine ⟨fun i => f (Fin.cast h_length i), ?_, ?_⟩
    · exact f.strictMono.comp (Fin.cast_strictMono h_length)
    · intro i
      rw [← h_f]
      exact h_starts i.val i.isLt (h_length ▸ i.isLt)

/-- If the first part has a place, the others have places behind the first scope. -/
theorem sublistForall₂_of_cons_cons {R : String → ScopeName → Prop} {p : String} {ps : List String}
    {s : ScopeName} {ss : ScopeStack} (h : List.SublistForall₂ R (p :: ps) (s :: ss)) :
    List.SublistForall₂ R ps ss := by
  obtain ⟨chosen, h_chosen, h_sublist⟩ := List.sublistForall₂_iff.1 h
  obtain ⟨r, rs, h_r, h_rs, rfl⟩ := List.forall₂_cons_left_iff.1 h_chosen
  exact List.sublistForall₂_iff.2 ⟨rs, h_rs, h_sublist.of_cons_cons⟩

theorem matchParts_iff_placed {parts : List String} {stack : ScopeStack} :
    matchParts parts stack = true ↔ Placed parts stack := by
  rw [placed_iff_sublistForall₂]
  fun_induction matchParts parts stack with
  | case1 stack => exact iff_of_true rfl .nil
  | case2 p ps => exact iff_of_false Bool.false_ne_true nofun
  | case3 p ps s ss h_fits ih =>
    rw [ih]
    constructor
    · intro h
      exact .cons (partFits_iff.1 h_fits) h
    · exact sublistForall₂_of_cons_cons
  | case4 p ps s ss h_not ih =>
    rw [ih]
    constructor
    · exact .cons_right
    · intro h
      cases h with
      | cons h_starts _ => exact absurd (partFits_iff.2 h_starts) h_not
      | cons_right h_inner => exact h_inner

/-- `Placed` is kept when parts are left out and scopes are put in. -/
theorem Placed.mono {parts fewer : List String} {stack more : ScopeStack} (h : Placed parts stack)
    (h_parts : fewer.Sublist parts) (h_stack : stack.Sublist more) : Placed fewer more := by
  obtain ⟨place, h_mono, h_starts⟩ := h
  obtain ⟨f, h_f⟩ := List.sublist_iff_exists_fin_orderEmbedding_get_eq.1 h_parts
  obtain ⟨g, h_g⟩ := List.sublist_iff_exists_fin_orderEmbedding_get_eq.1 h_stack
  refine ⟨fun i => g (place (f i)), g.strictMono.comp (h_mono.comp f.strictMono), ?_⟩
  intro i
  rw [h_f, ← h_g]
  exact h_starts (f i)

/-- Two lists of parts that are placed are placed one behind the other. -/
theorem Placed.append {ps qs : List String} {xs ys : ScopeStack} (h_ps : Placed ps xs)
    (h_qs : Placed qs ys) : Placed (ps ++ qs) (xs ++ ys) := by
  rw [placed_iff_sublistForall₂, List.sublistForall₂_iff] at h_ps h_qs ⊢
  obtain ⟨chosen, h_chosen, h_sublist⟩ := h_ps
  obtain ⟨chosen', h_chosen', h_sublist'⟩ := h_qs
  exact ⟨chosen ++ chosen', List.rel_append h_chosen h_chosen', h_sublist.append h_sublist'⟩

end ScopeSelector

open ScopeSelector

/-- `matchScope` holds exactly if the words of `selector` are `Placed` on `stack`; by `Spells`, its
    words are unique. So a match stays when words are left out or scopes are put in, and of two
    stacks put together, front words that match one and back words that match the other match
    both. -/
theorem matchScope_iff_placed (selector : String) (stack : ScopeStack) :
    (∀ ws, Spells selector.toList ws ↔ ws = (wordsOf selector).map String.toList) ∧
    (matchScope selector stack = true ↔ Placed (wordsOf selector) stack) ∧
    (ScopeSelector.parse selector).admits stack = matchScope selector stack ∧
    (matchScope selector stack = true → ∀ fewer more,
      (wordsOf fewer).Sublist (wordsOf selector) → stack.Sublist more →
        matchScope fewer more = true) ∧
    ∀ front back xs ys, wordsOf selector = wordsOf front ++ wordsOf back → stack = xs ++ ys →
      matchScope front xs = true → matchScope back ys = true →
        matchScope selector stack = true := by
  have h_iff (s : String) (scopes : ScopeStack) :
      matchScope s scopes = true ↔ Placed (wordsOf s) scopes := matchParts_iff_placed
  refine ⟨?_, h_iff selector stack, rfl, ?_, ?_⟩
  · intro ws
    rw [map_toList_wordsOf]
    exact spells_iff_eq_pieceWords
  · intro h fewer more h_words h_stack
    rw [h_iff] at h ⊢
    exact h.mono h_words h_stack
  · intro front back xs ys h_words h_stack h_front h_back
    rw [h_iff] at h_front h_back ⊢
    rw [h_words, h_stack]
    exact h_front.append h_back

/-- The scopes of a string in a function. -/
def nestedStack : ScopeStack :=
  .ofStrings ["source.js", "meta.function.js", "string.quoted.js"]

theorem matchScope_iff_placed_nestedStack :
    (matchScope " source\tstring " nestedStack = true ∧
      (wordsOf "string").Sublist (wordsOf " source\tstring ") ∧
      nestedStack.Sublist (nestedStack ++ [⟨"meta.inner"⟩]) ∧
      matchScope "string" (nestedStack ++ [⟨"meta.inner"⟩]) = true) ∧
    wordsOf "source meta.fun string" = wordsOf "source meta.fun" ++ wordsOf "string" ∧
    matchScope "source meta.fun" nestedStack = true ∧ matchScope "string" nestedStack = true ∧
    matchScope "source meta.fun string" (nestedStack ++ nestedStack) = true := by
  have h_match : matchScope " source\tstring " nestedStack = true := by decide
  have h_words : (wordsOf "string").Sublist (wordsOf " source\tstring ") := by decide
  have h_stack : nestedStack.Sublist (nestedStack ++ [⟨"meta.inner"⟩]) :=
    List.sublist_append_left _ _
  have h_split :
      wordsOf "source meta.fun string" = wordsOf "source meta.fun" ++ wordsOf "string" := by
    decide
  have h_front : matchScope "source meta.fun" nestedStack = true := by decide
  have h_back : matchScope "string" nestedStack = true := by decide
  obtain ⟨-, -, -, h_mono, -⟩ := matchScope_iff_placed " source\tstring " nestedStack
  obtain ⟨-, -, -, -, h_append⟩ :=
    matchScope_iff_placed "source meta.fun string" (nestedStack ++ nestedStack)
  have h_fewer := h_mono h_match _ _ h_words h_stack
  have h_both := h_append _ _ _ _ h_split rfl h_front h_back
  exact ⟨⟨h_match, h_words, h_stack, h_fewer⟩, h_split, h_front, h_back, h_both⟩

end ScopeTokens
