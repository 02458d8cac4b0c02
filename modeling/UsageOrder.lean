import UsageOrder.Files.Changes
import UsageOrder.Styled.Lookup
import UsageOrder.Main
import UsageOrder.Proofs.Batch
import UsageOrder.Proofs.FixLoop
import UsageOrder.Proofs.Idempotence
import UsageOrder.Proofs.Overtaking
import UsageOrder.Proofs.Splices
import UsageOrder.Proofs.Unresolvable
import UsageOrder.Proofs.Unused
import UsageOrder.Proofs.Keeping
import UsageOrder.Proofs.Writing
import UsageOrder.Proofs.Untouched
import UsageOrder.Proofs.LineEnds
import UsageOrder.Proofs.Places
import UsageOrder.Proofs.Searching
import UsageOrder.Proofs.Indented
import UsageOrder.Proofs.Sessions
import UsageOrder.Proofs.Undoing
import UsageOrder.Proofs.Opening
import UsageOrder.Proofs.Storing
import UsageOrder.Proofs.Restoring
import UsageOrder.Proofs.Backing
import UsageOrder.Proofs.FirstCopies
import UsageOrder.Proofs.Retention
import UsageOrder.Proofs.Independence
import UsageOrder.Proofs.Reordering
import UsageOrder.Proofs.Gathering
import UsageOrder.Proofs.ElementUses
import UsageOrder.Proofs.TextUses
import UsageOrder.Proofs.Evaluation
import UsageOrder.Proofs.RoundTrip
import UsageOrder.Proofs.Invariance
import UsageOrder.Proofs.Preorder
import UsageOrder.Proofs.Positions
