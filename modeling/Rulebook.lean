import Rulebook.Catalogue.Callback
import Rulebook.Catalogue.Computation
import Rulebook.Catalogue.Handler
import Rulebook.Log
import Rulebook.Metrics
import Rulebook.Report
import Rulebook.Template
import Rulebook.Proofs.Strand.Termination
import Rulebook.Proofs.Strand.Pledge
import Rulebook.Proofs.Strand.Upkeep
import Rulebook.Proofs.Strand.Progress
import Rulebook.Proofs.Strand.Soundness
import Rulebook.Proofs.Condition.Audit
import Rulebook.Proofs.Condition.Constant
import Rulebook.Proofs.Fact.Coherence
import Rulebook.Proofs.Fact.Refinement
import Rulebook.Proofs.Fact.Sharing
import Rulebook.Proofs.Operator.History
import Rulebook.Proofs.Operator.Known
import Rulebook.Proofs.Condition.Building
import Rulebook.Proofs.Condition.RoundTrip
import Rulebook.Proofs.Rule.RoundTrip
import Rulebook.Proofs.Strand.Turns
import Rulebook.Proofs.Strand.Ledger
import Rulebook.Proofs.Strand.Balance
import Rulebook.Proofs.Strand.Patience
import Rulebook.Proofs.Rule.Evaluation
import Rulebook.Proofs.Engine.Books
import Rulebook.Proofs.Engine.Chronicle
import Rulebook.Proofs.Engine.Progress
import Rulebook.Proofs.Engine.Process
import Rulebook.Proofs.Priority
import Rulebook.Proofs.Engine.Groups
import Rulebook.Proofs.Engine.Run
import Rulebook.Proofs.Engine.Handlers
import Rulebook.Proofs.Json.Alike
import Rulebook.Proofs.Json.Words
import Rulebook.Proofs.Json.Canonical
import Rulebook.Proofs.Alone
import Rulebook.Proofs.Fact.Signature
import Rulebook.Proofs.Fact.Reckoning
import Rulebook.Proofs.Fact.Answering
import Rulebook.Proofs.Fact.Memoization
import Rulebook.Proofs.Operator.Failure
import Rulebook.Proofs.Operator.Builtin
import Rulebook.Proofs.Fact.Failure
import Rulebook.Proofs.Condition.Cause
import Rulebook.Proofs.Condition.Failure
import Rulebook.Proofs.Condition.Missing
import Rulebook.Proofs.Fact.Worth
import Rulebook.Proofs.Fact.Redefinition
import Rulebook.Proofs.Strand.Twins
import Rulebook.Proofs.Twins
import Rulebook.Proofs.Fact.Twins
import Rulebook.Proofs.Condition.Twins
import Rulebook.Proofs.Engine.Renumbering
import Rulebook.Proofs.Engine.Twins
import Rulebook.Proofs.Engine.Overlap
import Rulebook.Proofs.Condition.Depth
import Rulebook.Proofs.Condition.Termination
import Rulebook.Proofs.Condition.Requests
import Rulebook.Proofs.Condition.Inlining
import Rulebook.Proofs.Engine.Answers
import Rulebook.Proofs.Engine.Reporting
import Rulebook.Proofs.Engine.Calls
import Rulebook.Proofs.Condition.Grammar
import Rulebook.Proofs.Condition.Refusal
import Rulebook.Proofs.Condition.FirstFault
import Rulebook.Proofs.Strand.Retention
import Rulebook.Proofs.Gathering
import Rulebook.Proofs.Engine.Stages
import Rulebook.Proofs.Engine.Afterwards
import Rulebook.Proofs.Concord
import Rulebook.Proofs.Fact.Agreement
import Rulebook.Proofs.Condition.Reckoning
import Rulebook.Proofs.Engine.Apart
import Rulebook.Proofs.Operator.Coherence
import Rulebook.Proofs.Condition.Transcript
import Rulebook.Proofs.Condition.Replay
import Rulebook.Proofs.Text.Prefix
import Rulebook.Proofs.Text.Quoted
import Rulebook.Proofs.Number.Interval
import Rulebook.Proofs.Number.Shortest
import Rulebook.Proofs.Number.Layout
import Rulebook.Proofs.Value.Literal
import Rulebook.Proofs.Value.Similar
import Rulebook.Proofs.Fact.Provenance
import Rulebook.Proofs.Fact.Mirrors
import Rulebook.Proofs.Strand.Endings
import Rulebook.Proofs.Operator.Algebra
import Rulebook.Proofs.Operator.Grammar
import Rulebook.Proofs.Condition.Combinator
import Rulebook.Proofs.Condition.Mirrors
import Rulebook.Proofs.Condition.Inquest
import Rulebook.Proofs.Condition.Course
import Rulebook.Proofs.Condition.Reduction
import Rulebook.Proofs.Condition.Attendance
import Rulebook.Proofs.Condition.Breakdown
import Rulebook.Proofs.Engine.Conduct
import Rulebook.Proofs.Fact.Rearranged
import Rulebook.Proofs.Engine.Roster
import Rulebook.Proofs.Condition.Checking
import Rulebook.Proofs.Engine.Level
import Rulebook.Proofs.Engine.Rejected
import Rulebook.Proofs.Condition.Accounting
import Rulebook.Proofs.Engine.Settlement
import Rulebook.Proofs.Operator.Ordering
import Rulebook.Proofs.Condition.Batches
