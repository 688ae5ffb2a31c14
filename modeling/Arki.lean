import Arki.Journal.Fence
import Arki.Journal.ForwardLane
import Arki.Journal.ForwardRetry
import Arki.Journal.CatchUp
import Arki.Journal.Receipts
import Arki.Journal.Command
import Arki.Journal.Replay
import Arki.Journal.EventLog
import Arki.Journal.PagingWalk
import Arki.Journal.Prune
import Arki.Workflow.Visits
import Arki.Workflow.Keys
import Arki.Expr.RoundTrip
import Arki.Expr.Folding
import Arki.Lock.MemoryExcludes
import Arki.Lock.RedisLeases
import Arki.Math.DecimalReached
import Arki.Math.Approximate
import Arki.Math.ToNumber
import Arki.Math.Roots
import Arki.Math.Amortization
import Arki.Math.WordsExact
import Arki.Money.Provider
import Arki.Dot.OneApp
import Arki.Live.SseMessages
import Arki.Live.HubRuns
import Arki.Offline.Idempotency
import Arki.Queue.FlowOnce
import Arki.Async.ScopeRuns
import Arki.Async.ScheduleRates
import Arki.Payments.RefundBounds
import Arki.Payments.WebhookAttempts
import Arki.Payments.PaymentOrders
import Arki.Payments.ProrationShares
import Arki.Payments.SubscriptionSync
import Arki.Strings.Base64
import Arki.Strings.CaseWords
import Arki.Strings.Edit
import Arki.Dates.Interval
import Arki.Dates.BusinessDays
import Arki.Dates.BusinessZoned
import Arki.Dates.Weeks
import Arki.Dates.IsoAgreement
