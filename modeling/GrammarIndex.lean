import GrammarIndex.Binding.Batch
import GrammarIndex.Main
import GrammarIndex.Proofs.Edit.Chunks
import GrammarIndex.Proofs.Edit.Search
import GrammarIndex.Proofs.Binding.Definitions
import GrammarIndex.Proofs.Binding.References
import GrammarIndex.Proofs.Edit.RoundTrip
import GrammarIndex.Proofs.Engine.Attach
import GrammarIndex.Proofs.Engine.Consistency
import GrammarIndex.Proofs.Engine.Agreement
import GrammarIndex.Proofs.Engine.Announced
import GrammarIndex.Proofs.Engine.Unambiguous
import GrammarIndex.Proofs.Session.CurrentText
import GrammarIndex.Proofs.Session.History
import GrammarIndex.Proofs.Session.Opened
import GrammarIndex.Proofs.Session.Propagation
import GrammarIndex.Proofs.Session.Unchanged
import GrammarIndex.Proofs.Grammar.Gaps
import GrammarIndex.Proofs.Grammar.RuleStarts
import GrammarIndex.Proofs.Scope.Linked
import GrammarIndex.Proofs.Session.Renamed
import GrammarIndex.Proofs.Edit.Canonical
import GrammarIndex.Proofs.Edit.Shortest
import GrammarIndex.Proofs.Engine.Isolated
import GrammarIndex.Proofs.Refactoring.Preserved
import GrammarIndex.Proofs.Engine.Applied
import GrammarIndex.Proofs.Engine.Closure
import GrammarIndex.Proofs.Format.Stable
import GrammarIndex.Proofs.Refactoring.Slots
import GrammarIndex.Proofs.Grammar.Classes
import GrammarIndex.Proofs.Format.Tokens
import GrammarIndex.Proofs.Edit.LiveBuffer
import GrammarIndex.Proofs.Grammar.Names
import GrammarIndex.Proofs.Scope.Chase
import GrammarIndex.Proofs.Scope.Visible
import GrammarIndex.Proofs.Workspace.SingleMap
import GrammarIndex.Proofs.Engine.Highlighted
import GrammarIndex.Proofs.Edit.Trace
import GrammarIndex.Proofs.Tree.Preorder
