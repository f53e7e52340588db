/-
  ScopeTokens.Proofs.Cache.Answers

  Answers of requests. An answer is read off the cache once the lines of the
  request are validated (`ask_eq`), so it depends on the entries alone, and it is
  given unless the request fails.
-/

import ScopeTokens.Proofs.Cache.Reachable

namespace ScopeTokens

/-- What a request answers with. -/
inductive CacheAnswer where
  /-- The request asks nothing. -/
  | done
  | token (token : TokenInfo)
  | kind (type : TokenType)
  | inComment (answer : Bool)
  | tokens (tokens : List TokenInfo)
  | lines (lines : List (List TokenInfo))
  | array (line : Option TokenLine)
  | run (run : Option TokenRun)
  deriving DecidableEq, Repr

namespace Reply

variable {σ α β γ : Type}

/-- `r` with `f` of its answer, if it is one. -/
def map (f : α → β) (r : Reply σ α) : Reply σ β :=
  { r with answer := r.answer.map f }

theorem map_andRead (f : β → γ) (r : Reply σ α) (read : TokenCache σ → β) :
    (r.andRead read).map f = r.andRead fun c => f (read c) := by
  cases h : r.answer <;> simp [map, andRead, h, Except.map]

theorem answer_andRead_eq_ok_iff {r : Reply σ Unit} {read : TokenCache σ → β} {b : β} :
    (r.andRead read).answer = .ok b ↔ r.answer = .ok () ∧ read r.cache = b := by
  cases h : r.answer <;> simp [andRead, h, Except.map]

theorem answer_andRead_eq_error_iff {r : Reply σ α} {read : TokenCache σ → β}
    {err : TokenizeError} : (r.andRead read).answer = .error err ↔ r.answer = .error err := by
  cases h : r.answer <;> simp [andRead, h, Except.map]

end Reply

namespace CacheRequest

variable {σ : Type}

/-- The answer of a request, read off the cache as it is. -/
def read (src : LineSource) (c : TokenCache σ) : CacheRequest → CacheAnswer
  | refresh => .done
  | onEdit _ => .done
  | validateRange _ => .done
  | validateLine _ => .done
  | validateDocument => .done
  | tokenAt p => .token (c.tokenIn p)
  | tokenTypeAt p => .kind (c.tokenIn p).tokenType
  | isCommentAt p => .inComment (c.tokenIn p).isComment
  | lineTokens line => .tokens (c.tokensIn line)
  | tokensForLines range => .lines (c.tokensOver range)
  | allTokens => .lines (c.tokensOver ⟨0, src.lineCount⟩)
  | lineArray line => .array (c.arrayIn line)
  | runAt p => .run ((c.arrayIn p.line).map fun a => a.runAt p.column)

variable [DecidableEq σ]

/-- Carries out a request and answers it. -/
def ask (request : CacheRequest) (c : TokenCache σ) (registry : Registry (Grammar σ))
    (src : LineSource) : Reply σ CacheAnswer :=
  match request with
  | refresh => (c.refresh registry src).map fun _ => .done
  | onEdit changes => (c.onEdit registry src changes).map fun _ => .done
  | validateRange range => (c.validateRange registry src range).map fun _ => .done
  | validateLine line => (c.validateLine registry src line).map fun _ => .done
  | validateDocument => (c.validateDocument registry src).map fun _ => .done
  | tokenAt p => (c.tokenAt registry src p).map .token
  | tokenTypeAt p => (c.tokenTypeAt registry src p).map .kind
  | isCommentAt p => (c.isCommentAt registry src p).map .inComment
  | lineTokens line => (c.lineTokens registry src line).map .tokens
  | tokensForLines range => (c.tokensForLines registry src range).map .lines
  | allTokens => (c.allTokens registry src).map .lines
  | lineArray line => (c.lineArray registry src line).map .array
  | runAt p => (c.runAt registry src p).map .run

theorem ask_eq (request : CacheRequest) (c : TokenCache σ) (registry : Registry (Grammar σ))
    (src : LineSource) :
    request.ask c registry src =
      (request.perform c registry src).andRead fun c => request.read src c := by
  cases request <;>
    simp only [ask, perform, TokenCache.tokenAt, TokenCache.tokenTypeAt, TokenCache.isCommentAt,
      TokenCache.lineTokens, TokenCache.allTokens, TokenCache.tokensForLines, TokenCache.lineArray,
      TokenCache.runAt, Reply.map_andRead, Reply.done_andRead, Reply.done_unit] <;> rfl

theorem cache_ask (request : CacheRequest) (c : TokenCache σ) (registry : Registry (Grammar σ))
    (src : LineSource) :
    (request.ask c registry src).cache = (request.perform c registry src).cache := by
  rw [ask_eq]
  rfl

end CacheRequest

end ScopeTokens
