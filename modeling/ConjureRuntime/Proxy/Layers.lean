import ConjureRuntime.Foundation.Returns
import ConjureRuntime.Proxy.Tunnel

/-!
# The layers of a request

An attempt starts from the caller's request and gets its URI and its headers
in the layers below the selection of a node.
-/

namespace ConjureRuntime.Proxy

open ConjureRuntime.Foundation ConjureRuntime.Service ConjureRuntime.Node

structure Parts where
  method : Method
  uri : Uri
  headers : HeaderMap
  endpoint : Option Client.Endpoint

inductive Panic where
  | uri (panic : UriPanic)
  | userAgent (panic : Client.Panic)
  deriving DecidableEq

/-- The layers with what they were built with; `setTraceContext` is that of
`http_zipkin`. -/
structure Layers (τ : Type) where
  http : Http
  proxy : ProxyConfig
  userAgent : Client.UserAgentService
  errorParameterFormat : Client.ErrorParameterFormat
  setTraceContext : τ → HeaderMap → HeaderMap

/-- The bytes of `JSON`. -/
def ErrorParameterFormat.headerValue :
    Client.ErrorParameterFormat → Option (List UInt8)
  | .legacy => none
  | .json => some [74, 83, 79, 78]

def acceptConjureErrorParameterFormat : String :=
  "accept-conjure-error-parameter-format"

def ErrorParameterFormatService.call (value : Option (List UInt8))
    (headers : HeaderMap) : HeaderMap :=
  match value with
  | none => headers
  | some value =>
      match headers.get acceptConjureErrorParameterFormat with
      | none => headers ++ [(acceptConjureErrorParameterFormat, value)]
      | some _ => headers

/-- The copy of the request that an attempt starts with; the node is not yet
among its extensions. -/
def cloneRequest (parts : Parts) : Parts where
  method := parts.method
  uri := parts.uri
  headers := parts.headers
  endpoint := parts.endpoint

namespace Layers

variable {τ : Type} (layers : Layers τ)

/-- `TracePropagationService::call`, in the span `trace`. -/
def tracePropagation (trace : Option τ) (headers : HeaderMap) : HeaderMap :=
  match trace with
  | some context => layers.setTraceContext context headers
  | none => headers

def headers (uri : Uri) (trace : Option τ) (parts : Parts) :
    Except Panic HeaderMap :=
  let headers := ProxyService.call layers.proxy uri parts.headers
  let headers := layers.tracePropagation trace headers
  match layers.userAgent.call layers.http.tryFrom parts.endpoint headers with
  | .error panic => .error (.userAgent panic)
  | .ok headers =>
      .ok (Gzip.acceptGzip (ErrorParameterFormatService.call
        (ErrorParameterFormat.headerValue layers.errorParameterFormat)
        headers))

def attempt (node : String) (trace : Option τ) (request : Parts) :
    Except Panic Parts :=
  let parts := cloneRequest request
  match NodeUriService.call layers.http.parse (some node) parts.uri with
  | .error panic => .error (.uri panic)
  | .ok uri =>
      match layers.headers uri trace parts with
      | .error panic => .error panic
      | .ok headers => .ok { parts with uri := uri, headers := headers }

end Layers

/-! ## Headers -/

/-- The headers that `http_zipkin` sets. -/
def traceHeaders : List String :=
  ["x-b3-traceid", "x-b3-parentspanid", "x-b3-spanid", "x-b3-sampled",
    "x-b3-flags"]

/-- `set_trace_context` leaves all other headers alone. -/
def Layers.TracesOnly {τ : Type} (layers : Layers τ) : Prop :=
  ∀ context headers name, name ∉ traceHeaders →
    HeaderMap.get (layers.setTraceContext context headers) name =
      headers.get name

def added : List String :=
  ["accept-encoding", acceptConjureErrorParameterFormat]

theorem UserAgentService.get_of_ne {service : Client.UserAgentService}
    {tryFrom : String → Option (List UInt8)}
    {endpoint : Option Client.Endpoint} {headers headers' : HeaderMap}
    (h : service.call tryFrom endpoint headers = .ok headers')
    {name : String} (hname : name ≠ "user-agent") :
    headers'.get name = headers.get name := by
  cases endpoint with
  | none => cases h
  | some endpoint =>
      unfold Client.UserAgentService.call at h
      obtain ⟨serviceAgent, -, h⟩ := bind_eq_ok h
      obtain ⟨runtimeAgent, -, h⟩ := bind_eq_ok h
      dsimp only at h
      split at h
      · cases h
      · cases h
        exact get_insert_of_ne hname

def orInsert (headers : HeaderMap) (name : String) (value : List UInt8) :
    HeaderMap :=
  match headers.get name with
  | none => headers ++ [(name, value)]
  | some _ => headers

section OrInsert

variable {headers : HeaderMap} {name other : String} {value : List UInt8}

theorem orInsert_get_of_some {bytes : List UInt8}
    (h : headers.get other = some bytes) :
    (orInsert headers name value).get other = some bytes := by
  unfold orInsert
  split
  · rename_i hvacant
    have hname : other ≠ name := by
      rintro rfl
      rw [hvacant] at h
      cases h
    rw [get_append_of_ne hname, h]
  · exact h

theorem orInsert_get_of_ne (h : other ≠ name) :
    (orInsert headers name value).get other = headers.get other := by
  unfold orInsert
  split
  · exact get_append_of_ne h
  · rfl

end OrInsert

theorem acceptGzip_eq (headers : HeaderMap) :
    Gzip.acceptGzip headers =
      orInsert headers "accept-encoding" Gzip.gzip := rfl

theorem ErrorParameterFormatService.get_of_some {value : Option (List UInt8)}
    {headers : HeaderMap} {name : String} {bytes : List UInt8}
    (h : headers.get name = some bytes) :
    (call value headers).get name = some bytes := by
  cases value with
  | none => exact h
  | some value => exact orInsert_get_of_some h

theorem ErrorParameterFormatService.get_of_ne {value : Option (List UInt8)}
    {headers : HeaderMap} {name : String}
    (h : name ≠ acceptConjureErrorParameterFormat) :
    (call value headers).get name = headers.get name := by
  cases value with
  | none => rfl
  | some value => exact orInsert_get_of_ne h

namespace Layers

variable {τ : Type} {layers : Layers τ} {uri : Uri} {trace : Option τ}
  {parts : Parts} {headers : HeaderMap} {name : String}

theorem tracePropagation_get (htraces : layers.TracesOnly)
    (h : name ∉ traceHeaders) :
    (layers.tracePropagation trace headers).get name = headers.get name := by
  cases trace with
  | none => rfl
  | some context => exact htraces context headers name h

theorem headers_get (htraces : layers.TracesOnly)
    (h : layers.headers uri trace parts = .ok headers)
    (hname : name ∉ "user-agent" :: traceHeaders) :
    (∀ bytes, (ProxyService.call layers.proxy uri parts.headers).get name =
      some bytes → headers.get name = some bytes) ∧
    (name ∉ added → headers.get name =
      (ProxyService.call layers.proxy uri parts.headers).get name) := by
  rw [List.mem_cons, not_or] at hname
  unfold Layers.headers at h
  dsimp only at h
  split at h
  · cases h
  · rename_i agreed hagreed
    cases h
    have hget : agreed.get name =
        (ProxyService.call layers.proxy uri parts.headers).get name :=
      (UserAgentService.get_of_ne hagreed hname.1).trans
        (tracePropagation_get htraces hname.2)
    constructor
    · intro bytes hbytes
      rw [acceptGzip_eq]
      exact orInsert_get_of_some
        (ErrorParameterFormatService.get_of_some (hget.trans hbytes))
    · intro hadded
      rw [added, List.mem_cons, List.mem_singleton, not_or] at hadded
      rw [acceptGzip_eq, orInsert_get_of_ne hadded.1,
        ErrorParameterFormatService.get_of_ne hadded.2, hget]

theorem attempt_ok {node : String} {request attempt : Parts}
    (h : layers.attempt node trace request = .ok attempt) :
    ∃ uri headers, layers.headers uri trace request = .ok headers ∧
      attempt = { request with uri := uri, headers := headers } := by
  unfold Layers.attempt at h
  dsimp only at h
  split at h
  · cases h
  · split at h
    · cases h
    · rename_i uri _ _ headers hheaders
      cases h
      exact ⟨uri, headers, hheaders, rfl⟩

theorem attempt_of {node : String} {request : Parts}
    (huri : NodeUriService.call layers.http.parse (some node) request.uri =
      .ok uri)
    {tryFrom : String → Option (List UInt8)} (htryFrom : layers.http.tryFrom =
      tryFrom) {endpoint : Option Client.Endpoint}
    (hendpoint : request.endpoint = endpoint)
    (huserAgent : ∀ headers, ∃ headers',
      layers.userAgent.call tryFrom endpoint headers = .ok headers')
    (trace : Option τ) :
    ∃ attempt, layers.attempt node trace request = .ok attempt ∧
      attempt.uri = uri := by
  obtain ⟨headers, hheaders⟩ := huserAgent (layers.tracePropagation trace
    (ProxyService.call layers.proxy uri request.headers))
  unfold Layers.attempt Layers.headers
  simp only [cloneRequest, huri, htryFrom, hendpoint, hheaders]
  exact ⟨_, rfl, rfl⟩

theorem attempt_proxyAuthorization (htraces : layers.TracesOnly)
    {node : String} {request attempt : Parts}
    (h : layers.attempt node trace request = .ok attempt) :
    (ReadsRequests layers.proxy attempt.uri →
      attempt.headers.get proxyAuthorization =
        layers.proxy.credentials.or
          (request.headers.get proxyAuthorization)) ∧
    (¬ ReadsRequests layers.proxy attempt.uri →
      attempt.headers.get proxyAuthorization =
        request.headers.get proxyAuthorization) := by
  obtain ⟨uri, headers, hheaders, rfl⟩ := attempt_ok h
  have hget := (headers_get htraces hheaders (by decide)).2
    (show proxyAuthorization ∉ added by decide)
  obtain ⟨hreads, hother⟩ :=
    ProxyService.get_proxyAuthorization layers.proxy uri request.headers
  constructor
  · exact fun h => hget.trans (hreads h)
  · intro h
    rw [hget, hother h]

end Layers

end ConjureRuntime.Proxy
