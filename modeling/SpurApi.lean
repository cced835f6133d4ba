import SpurApi.System
import SpurApi.Redelivery
import SpurApi.Lib.Revision
import SpurApi.Proofs.Answers
import SpurApi.Proofs.OutOfDate
import SpurApi.Proofs.FailingRuns
import SpurApi.Proofs.PersistedEvents
import SpurApi.Proofs.Replay
import SpurApi.Proofs.Cancellation
import SpurApi.Proofs.Submissions
import SpurApi.Proofs.Redelivered
import SpurApi.Proofs.Gone
import SpurApi.Proofs.Finality
import SpurApi.Proofs.Paging
import SpurApi.Proofs.Deletion
import SpurApi.Proofs.Writers
import SpurApi.Proofs.Scenarios
import SpurApi.Proofs.SingleShot
import SpurApi.Proofs.Checkpoints
import SpurApi.Proofs.Reported
import SpurApi.Proofs.Batches
import SpurApi.Proofs.Legacy
import SpurApi.Proofs.Auth
import SpurApi.Proofs.Listing
import SpurApi.Proofs.Browsing
import SpurApi.Proofs.Chunks
import SpurApi.Proofs.Nulls
import SpurApi.Proofs.Provenance
import SpurApi.Proofs.Restarts
import SpurApi.Proofs.Following
import SpurApi.Proofs.Excuses
import SpurApi.Proofs.Autonomy
import SpurApi.Proofs.Bodies
import SpurApi.Proofs.Migrations
import SpurApi.Proofs.Reading
import SpurApi.Proofs.Validation
