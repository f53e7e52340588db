/-
  ScopeTokens.Proofs.Token.Single

  Lines of a single token. Such a token runs over the whole line; every offset
  belongs to it, and the run of one language around any offset is all of it.
-/

import ScopeTokens.Proofs.Token.Partition
import ScopeTokens.Token.Run

namespace ScopeTokens

namespace TokenLine

variable (text : String) (metadata : TokenMetadata)

theorem count_whole : (whole text metadata).count = 1 := rfl

theorem endOffset_whole (i : Nat) : (whole text metadata).endOffset i = text.length := by
  rw [whole, endOffset_assemble]
  cases i <;> rfl

theorem metadata_whole (i : Nat) : (whole text metadata).metadata i = metadata := by
  rw [TokenLine.metadata, count_whole, Nat.sub_self, Nat.min_zero]
  rfl

theorem indexOf_whole (offset : Nat) : (whole text metadata).indexOf offset = 0 := by
  rw [indexOf, count_whole, Nat.sub_self, search, if_neg (Nat.lt_irrefl 0)]
  exact ite_self 0

theorem tokenText_whole : (whole text metadata).tokenText 0 = text := by
  rw [← String.toList_inj, (partitions_whole text metadata).toList_tokenText, endOffset_whole,
    ← String.length_toList]
  exact List.take_length

theorem runAt_whole (offset : Nat) :
    (whole text metadata).runAt offset =
      ⟨whole text metadata, metadata.languageId, 0, 1, 0, text.length⟩ := by
  have h_languages : (whole text metadata).languages = [metadata.languageId] := rfl
  rw [runAt, indexOf_whole, h_languages, languageId, metadata_whole]
  simp only [endOffset_whole]
  rfl

end TokenLine

end ScopeTokens
