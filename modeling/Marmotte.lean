import Marmotte.Effects.Program
import Marmotte.Effects.Protocol
import Marmotte.Effects.Pool
import Marmotte.Effects.Uses
import Marmotte.Effects.Failing
import Marmotte.Effects.Endings
import Marmotte.Effects.Rely
import Marmotte.Effects.Credible
import Marmotte.Effects.Chronicle
import Marmotte.Effects.TaskGroup
import Marmotte.Tables.Table
import Marmotte.Models
import Marmotte.Db
import Marmotte.Repositories
import Marmotte.Lookups
import Marmotte.Transactions
import Marmotte.Environment
import Marmotte.Sample
import Marmotte.Storage
import Marmotte.Runtime
import Marmotte.CallEffects
import Marmotte.Frames
import Marmotte.Footprints
import Marmotte.Yocto
import Marmotte.Custody.Protocol
import Marmotte.Custody.Follows
import Marmotte.Custody.Ownership
import Marmotte.Custody.Intact
import Marmotte.Custody.Interference
import Marmotte.Concurrency.Requests
import Marmotte.Concurrency.PutVersusGc
import Marmotte.Concurrency.PutVersusScan
import Marmotte.Sequential.Evictions
import Marmotte.Sequential.Sweep
import Marmotte.Sequential.Scan
import Marmotte.Admin
import Marmotte.Operations
import Marmotte.Refcounts
import Marmotte.GlobalQuota
import Marmotte.Recovery
import Marmotte.Sequential.Download
import Marmotte.Sequential.Upload
import Marmotte.CacheMap
import Marmotte.ProjectQuota
import Marmotte.ConfigArithmetic
import Marmotte.Sequential.Authentication
import Marmotte.Web.Percent
import Marmotte.Web.Base64
import Marmotte.Web.Url
import Marmotte.PushAddress
import Marmotte.HeadAgreement
import Marmotte.Concurrency.Clients
import Marmotte.UsageCounters
import Marmotte.ImmutableResponses
import Marmotte.AllOrNothing
import Marmotte.DryRun
import Marmotte.RevocationLag
import Marmotte.Paging.Keyset
import Marmotte.Paging.Base64Url
import Marmotte.Paging.FlatJson
import Marmotte.Listing
import Marmotte.Pagination
import Marmotte.SweepReport
import Marmotte.UpsertResult
import Marmotte.Credentials
import Marmotte.PushRun
import Marmotte.PrefixFilter
import Marmotte.UploadCleanup
import Marmotte.Reconciliation
import Marmotte.Concurrency.SecureSweep
import Marmotte.Concurrency.SweepVersusDeletes
import Marmotte.Concurrency.PushSession
import Marmotte.Concurrency.PushRequests
import Marmotte.Concurrency.ResumablePush
import Marmotte.Concurrency.AccessControl
import Marmotte.Concurrency.UploadTrails
import Marmotte.Concurrency.ConvergingPuts
import Marmotte.CounterLog
import Marmotte.Concurrency.BlobDirectory
import Marmotte.PushTasks
import Marmotte.Concurrency.SweepVersusPins
import Marmotte.Effects.History
import Marmotte.OperationCalls
import Marmotte.Concurrency.LinearCache
import Marmotte.Concurrency.Misses
import Marmotte.Effects.Mutex
import Marmotte.Concurrency.Collections
import Marmotte.Convergence
import Marmotte.AdminApi
import Marmotte.Concurrency.AdminControl
import Marmotte.Concurrency.AuditTrail
import Marmotte.Paging.Tail
import Marmotte.Concurrency.AuditPolls
import Marmotte.Concurrency.SteadyCredentials
