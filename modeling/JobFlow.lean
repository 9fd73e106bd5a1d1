import JobFlow.Lib.Timestamp
import JobFlow.Lib.Transition
import JobFlow.Lib.SortedSet
import JobFlow.Lib.Packing
import JobFlow.Lib.Grouping
import JobFlow.Lib.Decimal
import JobFlow.Lib.Unicode
import JobFlow.Lib.Members
import JobFlow.Lib.Value
import JobFlow.Lib.Binary64
import JobFlow.Lib.Calendar
import JobFlow.Lib.Numeral
import JobFlow.Lib.EventSource
import JobFlow.Lib.Handoff
import JobFlow.Lib.AtomicObject
import JobFlow.Lib.Channel
import JobFlow.Lib.Mailbox
import JobFlow.Lib.Outbox
import JobFlow.Lib.Unwinding
import JobFlow.Lib.ReadCommitted
import JobFlow.Lib.SingleRow
import JobFlow.Model.Job
import JobFlow.Model.JobRepository
import JobFlow.Model.Statement
import JobFlow.Model.Redis
import JobFlow.Model.RedisQueue
import JobFlow.Lib.Waiting
import JobFlow.Queue.PriorityOrder
import JobFlow.Queue.ExactScores
import JobFlow.Queue.Overtaking
import JobFlow.Model.WorkerRepository
import JobFlow.Model.NewPool
import JobFlow.Model.Process
import JobFlow.Model.System
import JobFlow.Model.Broker
import JobFlow.Model.Call
import JobFlow.Model.Dashboard
import JobFlow.Model.Stats
import JobFlow.Model.JobHandler
import JobFlow.Model.AuthService
import JobFlow.Model.Router
import JobFlow.Model.Client
import JobFlow.Model.UseJobFlow
import JobFlow.Model.JobTable
import JobFlow.Model.UseJobFilters
import JobFlow.Model.Wire
import JobFlow.Model.JsonText
import JobFlow.Model.JsonWriter
import JobFlow.Model.JsonValue
import JobFlow.Lib.Entries
import JobFlow.Lib.Loop
import JobFlow.Lib.Paging
import JobFlow.Model.Format
import JobFlow.Model.JavaScript
import JobFlow.Model.JobListing
import JobFlow.Model.JobComposer
import JobFlow.Model.Processor
import JobFlow.Model.CreateJob
import JobFlow.Model.RedisPublisher
import JobFlow.Model.EventStream
import JobFlow.Model.LiveFeed
import JobFlow.Runs.ControlFlow
import JobFlow.Runs.Steps
import JobFlow.Runs.Carried
import JobFlow.Runs.Entries
import JobFlow.Runs.KeySpace
import JobFlow.Runs.Shutdown
import JobFlow.Runs.Payloads
import JobFlow.Runs.History
import JobFlow.Runs.Ownership
import JobFlow.Runs.Delivery
import JobFlow.Runs.Budget
import JobFlow.Runs.Work
import JobFlow.Runs.Rest
import JobFlow.Runs.Progress
import JobFlow.Model.Config
import JobFlow.Runs.Serving
import JobFlow.Runs.Batches
import JobFlow.Runs.Tokens
import JobFlow.Runs.Coherence
import JobFlow.Runs.ScheduledTime
import JobFlow.Runs.Backoff
import JobFlow.Abstract.Lifecycle
import JobFlow.Runs.Lifecycle
import JobFlow.Realtime.Delivery
import JobFlow.Realtime.Framing
import JobFlow.Realtime.LiveFeed
import JobFlow.Service.Atomicity
import JobFlow.Runs.DeadLetters
import JobFlow.Runs.QueueDepth
import JobFlow.Runs.EventOrder
import JobFlow.Runs.Counters
import JobFlow.Service.Tenants
import JobFlow.Service.Accounts
import JobFlow.Web.Actions
import JobFlow.Web.Session
import JobFlow.Web.Import
import JobFlow.Web.Payload
import JobFlow.Web.RoundTrip
import JobFlow.Web.Creation
import JobFlow.Web.PayloadDisplay
import JobFlow.Web.BulkActions
import JobFlow.Web.Paging
import JobFlow.Service.Promotion
import JobFlow.Service.Overlap
import JobFlow.Realtime.Privacy
import JobFlow.Model.PromoteScheduled
import JobFlow.Service.DroppedRetries
import JobFlow.Service.Stranded
import JobFlow.Service.BrokenStreams
import JobFlow.Worker.Delay
import JobFlow.Worker.Registration
import JobFlow.Worker.Webhook
import JobFlow.Worker.Doomed
import JobFlow.Web.ForceFail
