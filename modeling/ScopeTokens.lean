import ScopeTokens.Token.Style
import ScopeTokens.Scope.Selector
import ScopeTokens.Service
import ScopeTokens.Proofs.Text.Simultaneous
import ScopeTokens.Proofs.Text.LineIndex
import ScopeTokens.Proofs.Text.Crossings
import ScopeTokens.Proofs.Text.ResolvedOffsets
import ScopeTokens.Proofs.Cache.LineAnswers
import ScopeTokens.Proofs.Cache.Degraded
import ScopeTokens.Proofs.Cache.Kept
import ScopeTokens.Proofs.Cache.Failures
import ScopeTokens.Proofs.Cache.Normalized
import ScopeTokens.Proofs.Cache.SharedRegistry
import ScopeTokens.Proofs.Cache.EditWork
import ScopeTokens.Proofs.Cache.LineByLine
import ScopeTokens.Proofs.Cache.Metadata
import ScopeTokens.Proofs.Text.SharedStarts
import ScopeTokens.Proofs.Service.Isolation
import ScopeTokens.Proofs.Cache.LongLines
import ScopeTokens.Proofs.Language.Prefixes
import ScopeTokens.Proofs.Language.Registrations
import ScopeTokens.Proofs.Language.Embedding
import ScopeTokens.Proofs.Language.Slots
import ScopeTokens.Proofs.Language.Configured
import ScopeTokens.Proofs.Language.Loading
import ScopeTokens.Proofs.Scope.Keywords
import ScopeTokens.Proofs.Scope.Selection
import ScopeTokens.Proofs.Token.Search
import ScopeTokens.Proofs.Token.Ranges
import ScopeTokens.Proofs.Token.Slicing
import ScopeTokens.Proofs.Token.Runs
import ScopeTokens.Proofs.Token.Starts
import ScopeTokens.Proofs.Token.Equality
import ScopeTokens.Proofs.Cache.Unsettled
