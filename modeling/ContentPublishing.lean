import ContentPublishing.Lib.Transition
import ContentPublishing.Lib.Effects
import ContentPublishing.Lib.Entries
import ContentPublishing.Lib.Attempts
import ContentPublishing.Lib.BigInt
import ContentPublishing.Lib.Redis
import ContentPublishing.Lib.Footprint
import ContentPublishing.Lib.Representation
import ContentPublishing.Lib.JobQueue
import ContentPublishing.Lib.JobStates
import ContentPublishing.Lib.Expiring
import ContentPublishing.Lib.Json
import ContentPublishing.Lib.JsonText
import ContentPublishing.Lib.Regex
import ContentPublishing.Lib.Gather
import ContentPublishing.Common.Constants
import ContentPublishing.Common.Interfaces
import ContentPublishing.Batching.Scripts
import ContentPublishing.Batching.Batches
import ContentPublishing.Batching.System
import ContentPublishing.Batching.Step
import ContentPublishing.Batching.Ledger
import ContentPublishing.Batching.Retention
import ContentPublishing.Batching.ExactlyOnce
import ContentPublishing.Batching.Coverage
import ContentPublishing.Batching.Recovery
import ContentPublishing.Batching.Timing
import ContentPublishing.Batching.Bound
import ContentPublishing.Batching.RowCount
import ContentPublishing.Batching.Closing
import ContentPublishing.Blockchain.Crawl
import ContentPublishing.Monitor.Status
import ContentPublishing.Monitor.Accounting
import ContentPublishing.Monitor.Outcome
import ContentPublishing.Monitor.Concurrency
import ContentPublishing.Monitor.Republish
import ContentPublishing.Publisher.Publishing
import ContentPublishing.Publisher.Capacity
import ContentPublishing.Publisher.Limit
import ContentPublishing.Publisher.Service
import ContentPublishing.Publisher.Timers
import ContentPublishing.Publisher.Resubmission
import ContentPublishing.Nonce.Service
import ContentPublishing.Nonce.Uniqueness
import ContentPublishing.Nonce.History
import ContentPublishing.Nonce.Search
import ContentPublishing.Nonce.Keys
import ContentPublishing.Validation.DsnpUri
import ContentPublishing.Validation.Duration
import ContentPublishing.Api.Validation
import ContentPublishing.Api.Requests
import ContentPublishing.Dependencies.Processing
import ContentPublishing.Dependencies.Waiting
import ContentPublishing.Dependencies.Availability
import ContentPublishing.Announcements.Content
import ContentPublishing.Announcements.Processor
import ContentPublishing.Announcements.UserId
import ContentPublishing.Announcements.Order
import ContentPublishing.Announcements.Translation
import ContentPublishing.Announcements.Activity
import ContentPublishing.Assets.Lifetime
import ContentPublishing.Assets.Provenance
import ContentPublishing.Announcer.Announce
import ContentPublishing.Announcer.Coherence
import ContentPublishing.Announcements.Pinned
import ContentPublishing.Announcements.Text
import ContentPublishing.Batching.Provenance
import ContentPublishing.Pipeline.System
import ContentPublishing.Pipeline.Provenance
import ContentPublishing.Pipeline.AtMostOnce
import ContentPublishing.Pipeline.Stopped
import ContentPublishing.Api.ReferenceId
import ContentPublishing.Consumer.Shutdown
import ContentPublishing.Batching.Shared
import ContentPublishing.Batching.Texts
import ContentPublishing.Batching.TextRuns
import ContentPublishing.Batching.Progress
import ContentPublishing.Pipeline.Completeness
import ContentPublishing.Pipeline.Progress
