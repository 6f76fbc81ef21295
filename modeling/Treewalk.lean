import Treewalk.Main
import Treewalk.Sink
import Treewalk.Source.Folder
import Treewalk.Proofs.Check.Soundness
import Treewalk.Proofs.Check.DeadCode
import Treewalk.Proofs.Evaluation.Restoration
import Treewalk.Proofs.Evaluation.Budget
import Treewalk.Proofs.Evaluation.Encapsulation
import Treewalk.Proofs.Program.Acceptance
import Treewalk.Proofs.Reprint.Program
import Treewalk.Proofs.Session.FromFile
import Treewalk.Proofs.Token.Tiling
import Treewalk.Proofs.Evaluation.Erased
import Treewalk.Proofs.Reprint.Rerun
import Treewalk.Proofs.Evaluation.Printing
import Treewalk.Proofs.Program.Placement
import Treewalk.Proofs.Session.OneSource
import Treewalk.Proofs.Evaluation.Blame
import Treewalk.Proofs.Session.Blame
import Treewalk.Proofs.Check.Unread
import Treewalk.Proofs.Evaluation.Trace
import Treewalk.Proofs.Scope.Lookup
import Treewalk.Proofs.Evaluation.Unread
import Treewalk.Proofs.Check.UnusedVariable
import Treewalk.Proofs.Evaluation.Limit
import Treewalk.Proofs.Session.CallLimit
import Treewalk.Proofs.Evaluation.LoopFree
import Treewalk.Proofs.Session.Termination
import Treewalk.Proofs.Program.Budget
import Treewalk.Proofs.Token.Stable
import Treewalk.Proofs.Token.Strays
import Treewalk.Proofs.Program.Merge
import Treewalk.Proofs.Program.Locality
import Treewalk.Proofs.Program.Viability.Statement
import Treewalk.Proofs.Token.Extended
import Treewalk.Proofs.Program.Earliest
import Treewalk.Proofs.Evaluation.Overflow
import Treewalk.Proofs.Session.CallDepth
import Treewalk.Proofs.Token.Quotes
import Treewalk.Proofs.Session.Regular
import Treewalk.Proofs.Program.Places
import Treewalk.Proofs.Check.Placed
import Treewalk.Proofs.Session.Reports
import Treewalk.Proofs.Token.Moved
import Treewalk.Proofs.Program.Moved
import Treewalk.Proofs.Program.Concatenation
import Treewalk.Proofs.Evaluation.Invariant
import Treewalk.Proofs.Session.Placeless
import Treewalk.Proofs.Session.ExitCodes
import Treewalk.Proofs.Program.Heads
import Treewalk.Proofs.Check.Arrangement
import Treewalk.Proofs.Scope.Chain
import Treewalk.Proofs.Evaluation.Moment
import Treewalk.Proofs.Evaluation.Growth
import Treewalk.Proofs.Session.Chains
import Treewalk.Proofs.Evaluation.Names
import Treewalk.Proofs.Program.Occurrence
import Treewalk.Proofs.Program.Resolution
import Treewalk.Proofs.Check.StrayExit
import Treewalk.Proofs.Check.Resolved
import Treewalk.Proofs.Check.EndlessLoop
import Treewalk.Proofs.Token.Relaid
import Treewalk.Proofs.Program.Charge
import Treewalk.Proofs.Evaluation.ForLoop
import Treewalk.Proofs.Token.Slice
import Treewalk.Proofs.Program.Location
import Treewalk.Proofs.Scope.History
