import SuperNova.Approval.Open
import SuperNova.Approval.Scope
import SuperNova.Chat.Answered
import SuperNova.Chat.Answers
import SuperNova.Chat.Blobs
import SuperNova.Chat.ForceClosed
import SuperNova.Chat.Outcomes
import SuperNova.Client.Sse
import SuperNova.ClientEnv.Disclosure
import SuperNova.Containers.Active
import SuperNova.Containers.Current
import SuperNova.Containers.Migrated
import SuperNova.Context.Fits
import SuperNova.Credentials.Keys
import SuperNova.Data.CopySet
import SuperNova.Data.Destinations
import SuperNova.Data.Duplicates
import SuperNova.Data.Records
import SuperNova.Feed.Delivered
import SuperNova.Feed.Numbered
import SuperNova.Feed.Pushdown
import SuperNova.Gate.Verdict
import SuperNova.Jobs.Finality
import SuperNova.Jobs.Separate
import SuperNova.Limiter.Exclusion
import SuperNova.Office.Accounted
import SuperNova.Office.Rollback
import SuperNova.Os.Acquired
import SuperNova.Os.Central
import SuperNova.Os.Copied
import SuperNova.Os.Exclusive
import SuperNova.Os.Snapshots
import SuperNova.Package.Agrees
import SuperNova.Package.Unpacked
import SuperNova.Packs.Kept
import SuperNova.Provider.Ledger
import SuperNova.Provider.Offered
import SuperNova.Provider.Refs
import SuperNova.Provider.Retry
import SuperNova.Provider.Strict
import SuperNova.Readers.Refs
import SuperNova.Registry.Binding
import SuperNova.Root.Retried
import SuperNova.Runs.Blocking
import SuperNova.Runs.Restored
import SuperNova.Stream.Replayed
import SuperNova.Stream.Same
import SuperNova.TaskAgent.Answers
import SuperNova.TaskAgent.Budget
import SuperNova.Tasks.DraftText
import SuperNova.Tasks.Rows
import SuperNova.Tasks.Timeline
import SuperNova.Tasks.Verified
import SuperNova.Terminal.Logs
import SuperNova.Terminal.Mutations
import SuperNova.Terminal.Registered
import SuperNova.Truth.Checkpoints
import SuperNova.Workbench.Shown
