import ConjureRuntime.Blocking.Buffers
import ConjureRuntime.Blocking.ShimProgress
import ConjureRuntime.Blocking.Upload
import ConjureRuntime.Cache.LruRefinement
import ConjureRuntime.Client.LiveReload
import ConjureRuntime.Client.PerHostIndex
import ConjureRuntime.Client.StateSharing
import ConjureRuntime.Config.HostAndPort
import ConjureRuntime.Foundation.Alphabet
import ConjureRuntime.Foundation.Linked
import ConjureRuntime.Foundation.ListSum
import ConjureRuntime.Limiter.CiadRuns
import ConjureRuntime.Limiter.CiadSequential
import ConjureRuntime.Limiter.Fairness
import ConjureRuntime.Limiter.PermitAccounting
import ConjureRuntime.Limiter.WaiterList
import ConjureRuntime.Node.Admission
import ConjureRuntime.Node.InFlight
import ConjureRuntime.Node.LimiterSteps
import ConjureRuntime.Node.Failover
import ConjureRuntime.Node.GaugeReads
import ConjureRuntime.Node.HostMetricsRuns
import ConjureRuntime.Node.PinRuns
import ConjureRuntime.Node.ReservoirDecay
import ConjureRuntime.Node.ReservoirRuns
import ConjureRuntime.Node.Reshuffle
import ConjureRuntime.Node.Uri
import ConjureRuntime.Proxy.Routing
import ConjureRuntime.Service.Backoff
import ConjureRuntime.Service.BodyDelivery
import ConjureRuntime.Service.BodyResetLaw
import ConjureRuntime.Service.BodyResetRefinement
import ConjureRuntime.Service.BufferedBody
import ConjureRuntime.Service.Download
import ConjureRuntime.Service.GzipDelivery
import ConjureRuntime.Service.GzipLeak
import ConjureRuntime.Service.HttpErrorChunks
import ConjureRuntime.Service.ResponseBody
import ConjureRuntime.Service.StreamingRetry
import ConjureRuntime.Service.Telemetry
import ConjureRuntime.Proxy.Tls
