import TapeService.Interleaving.Answers
import TapeService.Interleaving.Front
import TapeService.Lemmas.Web
import TapeService.Model.Web
import TapeService.Theorems.Appending
import TapeService.Theorems.Authentication
import TapeService.Theorems.ConfigReads
import TapeService.Theorems.ConfigStore
import TapeService.Theorems.ConfigUpdates
import TapeService.Theorems.DirtyFlag
import TapeService.Theorems.Documented
import TapeService.Theorems.EventStream
import TapeService.Theorems.Isolation
import TapeService.Theorems.Ledger
import TapeService.Theorems.Lifecycle
import TapeService.Theorems.Listening
import TapeService.Theorems.LockSafety
import TapeService.Theorems.Notifications
import TapeService.Theorems.Paging
import TapeService.Theorems.Permitted
import TapeService.Theorems.RateLimiting
import TapeService.Theorems.Rebuilding
import TapeService.Theorems.Recovery
import TapeService.Theorems.Removals
import TapeService.Theorems.ReportedCounts
import TapeService.Theorems.Representation
import TapeService.Theorems.Revocation
import TapeService.Theorems.Rounds
import TapeService.Theorems.RunIds
import TapeService.Theorems.RunRecords
import TapeService.Theorems.ScoreAnswers
import TapeService.Theorems.ScoredGone
import TapeService.Theorems.Scoring
import TapeService.Theorems.Serving
import TapeService.Theorems.SessionBlobs
import TapeService.Theorems.Sockets
import TapeService.Theorems.StableKeys
import TapeService.Theorems.Stopping
import TapeService.Theorems.Throttle
import TapeService.Theorems.Throttling
import TapeService.Theorems.TopUps
import TapeService.Theorems.WebRefinement
import TapeService.Theorems.WholePages
