import AtsEndpoint.Main
import AtsEndpoint.Event.Log
import AtsEndpoint.Bench.Changes
import AtsEndpoint.Bench.Script
import AtsEndpoint.Tool.Directory
import AtsEndpoint.Proofs.Alignment
import AtsEndpoint.Proofs.Blocks
import AtsEndpoint.Proofs.Invariants
import AtsEndpoint.Proofs.Checksum
import AtsEndpoint.Proofs.Mappings
import AtsEndpoint.Proofs.Answers
import AtsEndpoint.Proofs.Bytes
import AtsEndpoint.Proofs.Uncached
import AtsEndpoint.Proofs.Lockstep
import AtsEndpoint.Proofs.Runs
import AtsEndpoint.Proofs.Transparency
import AtsEndpoint.Proofs.Unmapping
import AtsEndpoint.Proofs.Words
import AtsEndpoint.Proofs.Turns
import AtsEndpoint.Proofs.Driving
import AtsEndpoint.Proofs.Histories
import AtsEndpoint.Proofs.Halting
import AtsEndpoint.Proofs.Atomicity
import AtsEndpoint.Proofs.Backlog
import AtsEndpoint.Proofs.Checked
import AtsEndpoint.Proofs.Striding
import AtsEndpoint.Proofs.Operations
import AtsEndpoint.Proofs.Buffer
import AtsEndpoint.Proofs.Mounting
import AtsEndpoint.Proofs.BringUp
import AtsEndpoint.Proofs.FileDigests
import AtsEndpoint.Proofs.FillingAhead
import AtsEndpoint.Proofs.Selftest
import AtsEndpoint.Proofs.Exchanges
import AtsEndpoint.Proofs.Tilings
import AtsEndpoint.Proofs.Accesses
import AtsEndpoint.Proofs.Misses
import AtsEndpoint.Proofs.Reaching
import AtsEndpoint.Proofs.Pieces
import AtsEndpoint.Proofs.Undisturbed
import AtsEndpoint.Proofs.Growing
import AtsEndpoint.Proofs.Repeating
import AtsEndpoint.Proofs.RoundTrip
import AtsEndpoint.Proofs.Polling
import AtsEndpoint.Proofs.Submissions
import AtsEndpoint.Proofs.Granting
import AtsEndpoint.Proofs.Accepting
import AtsEndpoint.Proofs.Meeting
import AtsEndpoint.Proofs.Releasing
import AtsEndpoint.Proofs.Dropping
import AtsEndpoint.Proofs.Deliveries
import AtsEndpoint.Proofs.Remembering
import AtsEndpoint.Proofs.Numerals
import AtsEndpoint.Proofs.Transactions
import AtsEndpoint.Proofs.Readback
import AtsEndpoint.Proofs.Refusing
