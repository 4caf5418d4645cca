import TextGrammar.Main
import TextGrammar.Namespace.Shared
import TextGrammar.Proofs.Candidates
import TextGrammar.Proofs.Expansion.Execution
import TextGrammar.Proofs.Reachability
import TextGrammar.Proofs.Expansion.Fuel
import TextGrammar.Proofs.Expansion.Visited
import TextGrammar.Proofs.Expansion.Pruning
import TextGrammar.Proofs.Expansion.Termination
import TextGrammar.Proofs.Expansion.Semantics
import TextGrammar.Proofs.ExactChoice
import TextGrammar.Proofs.Expansion.Refinement
import TextGrammar.Proofs.Expansion.DepthLimit
import TextGrammar.Proofs.Expression.Tree
import TextGrammar.Proofs.Grammar.Template
import TextGrammar.Proofs.Grammar.RoundTrip
import TextGrammar.Proofs.Number.Rounding
import TextGrammar.Proofs.RoundedChoice
import TextGrammar.Proofs.Watcher.Events
import TextGrammar.Proofs.Expansion.Course
import TextGrammar.Proofs.Expansion.Selection
import TextGrammar.Proofs.Expansion.Nesting
import TextGrammar.Proofs.Expansion.Captures
import TextGrammar.Proofs.Expansion.Dependence
import TextGrammar.Proofs.Grammar.Loaded
import TextGrammar.Proofs.Expansion.Account
import TextGrammar.Proofs.Expansion.Unmatched
import TextGrammar.Proofs.Expansion.Likeness
import TextGrammar.Proofs.Registration
import TextGrammar.Proofs.Expansion.Rewriting
import TextGrammar.Proofs.ExactShares
import TextGrammar.Proofs.Registration.History
import TextGrammar.Proofs.Grammar.Failure
import TextGrammar.Proofs.Grammar.Pieces
import TextGrammar.Proofs.PositiveChoice
import TextGrammar.Proofs.Candidates.Guards
import TextGrammar.Proofs.Expansion.Extent
import TextGrammar.Proofs.Grammar.Grouping
import TextGrammar.Proofs.Expression.Comparison
import TextGrammar.Proofs.Expression.NumericData
import TextGrammar.Proofs.Grammar.Verbatim
import TextGrammar.Proofs.Expression.TextForm
import TextGrammar.Proofs.Reachability.Cycles
import TextGrammar.Proofs.Reachability.Report
import TextGrammar.Proofs.Number.Ordinal
import TextGrammar.Proofs.Watcher.CapturedText
import TextGrammar.Proofs.Watcher.NumberText
import TextGrammar.Proofs.Watcher.Sentence
import TextGrammar.Proofs.Namespace.History
import TextGrammar.Proofs.Namespace.Equality
import TextGrammar.Proofs.Expression.Identity
import TextGrammar.Proofs.CommandLine.Repetition
import TextGrammar.Proofs.Expansion.Room
import TextGrammar.Proofs.Expansion.Failures
