import FoundationLang.Flow.Safety
import FoundationLang.Package.ResolverOrder
import FoundationLang.Package.ResolvedLock
import FoundationLang.Package.SourceDigest
import FoundationLang.Selfhost.LockAgreement
import FoundationLang.Selfhost.Arena
import FoundationLang.Runtime.WokenOnce
import FoundationLang.Runtime.Settled
import FoundationLang.Resiliency.Cancellation
import FoundationLang.Standard.CpioSafety
import FoundationLang.Standard.JsonAcceptance
import FoundationLang.Standard.JsonRoundTrip
import FoundationLang.Standard.RingQueue
import FoundationLang.Caching.Agreement
import FoundationLang.Caching.History
import FoundationLang.Lock.Safety
import FoundationLang.SafeMap.Shards
import FoundationLang.Httpx.Redirect
import FoundationLang.Httpx.Encoding
import FoundationLang.Httpx.Framing
import FoundationLang.Web.Response
import FoundationLang.Web.Routing
import FoundationLang.Saga.Runs
import FoundationLang.Parallel.Runs
import FoundationLang.Crypto.Digest
import FoundationLang.Crypto.Counters
import FoundationLang.Match.Reach
import FoundationLang.Package.Range
import FoundationLang.Package.VersionGrammar
import FoundationLang.Package.LockAcceptance
import FoundationLang.Selfhost.LineReads
import FoundationLang.Selfhost.Quoting
import FoundationLang.Contract.Reordering
import FoundationLang.Layout.Unfolding
import FoundationLang.Standard.JsonObject
import FoundationLang.Standard.PathReads
import FoundationLang.Standard.PatternGrammar
import FoundationLang.Standard.Integers
import FoundationLang.Standard.Iter
import FoundationLang.Standard.Sorting
import FoundationLang.Scheduler.Due
import FoundationLang.Resiliency.Retry
