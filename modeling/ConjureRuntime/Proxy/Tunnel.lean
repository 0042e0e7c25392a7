import ConjureRuntime.Client.Builder
import ConjureRuntime.Node.Uri
import ConjureRuntime.Service.Gzip

/-!
# Proxies

A proxy is respected in two places.  A layer of the request adds the
credentials when the proxy reads the request itself; a layer of the connector
connects to the proxy instead of the server, and for https it asks the proxy
for a tunnel, with the credentials in that request.
-/

namespace ConjureRuntime.Proxy

open ConjureRuntime.Config ConjureRuntime.Service ConjureRuntime.Node

/-! ## Headers -/

section Headers

variable {headers : HeaderMap} {name other : String} {value : List UInt8}

@[simp] theorem get_insert_self :
    (headers.insert name value).get name = some value :=
  by simp [HeaderMap.insert, HeaderMap.get]

theorem get_filter_ne (h : other ≠ name) :
    HeaderMap.get (headers.filter fun header => header.1 ≠ name) other =
      headers.get other := by
  induction headers with
  | nil => rfl
  | cons header headers ih =>
      obtain ⟨first, bytes⟩ := header
      simp only [HeaderMap.get] at ih ⊢
      by_cases hname : first = name
      · subst hname
        have hother : (other == first) = false := by simpa using h
        simpa [List.lookup_cons, hother] using ih
      · rw [List.filter_cons_of_pos (by simpa using hname),
          List.lookup_cons, List.lookup_cons, ih]

theorem get_insert_of_ne (h : other ≠ name) :
    (headers.insert name value).get other = headers.get other := by
  have hother : (other == name) = false := by simpa using h
  have hrest : HeaderMap.get (headers.filter fun header => header.1 ≠ name)
    other = headers.get other := get_filter_ne h
  simpa only [HeaderMap.insert, HeaderMap.get, List.lookup_cons, hother]
    using hrest

theorem get_append_of_ne (h : other ≠ name) :
    HeaderMap.get (headers ++ [(name, value)]) other = headers.get other := by
  have hother : (other == name) = false := by simpa using h
  induction headers with
  | nil => simp [HeaderMap.get, List.lookup_cons, hother]
  | cons header headers ih =>
      obtain ⟨first, bytes⟩ := header
      simp only [HeaderMap.get, List.cons_append, List.lookup_cons] at ih ⊢
      rw [ih]

end Headers

/-! ## Configuration -/

/-- What the layers use of `http` and `hyper`: the parsers of URIs and header
values, the two parts of an authority, and the name that a certificate is
checked against. -/
structure Http where
  parse : String → Option Uri
  tryFrom : String → Option (List UInt8)
  host : String → String
  portU16 : String → Option UInt16
  serverName : Option String → String

namespace Http

variable (http : Http)

/-- `Uri::host`. -/
def uriHost (uri : Uri) : Option String := uri.authority.map http.host

/-- `Uri::port_u16`. -/
def uriPortU16 (uri : Uri) : Option UInt16 := uri.authority.bind http.portU16

end Http

structure HttpProxyConfig where
  uri : Uri
  credentials : Option (List UInt8)
  deriving DecidableEq

inductive ProxyConfig where
  | http (config : HttpProxyConfig)
  | direct
  deriving DecidableEq

inductive ConfigError where
  | invalidUri
  | unwrap
  deriving DecidableEq, Repr

/-- The value of the header; `base64` is the standard encoding. -/
def authorization (http : Http) (base64 : List UInt8 → String)
    (credentials : Client.BasicCredentials) : Option (List UInt8) :=
  let auth := credentials.username ++ ":" ++ credentials.password
  http.tryFrom ("Basic " ++ base64 auth.toUTF8.toList)

def ProxyConfig.fromConfig (http : Http) (base64 : List UInt8 → String)
    (config : Client.ProxyConfig) : Except ConfigError ProxyConfig :=
  match config with
  | .direct => .ok .direct
  | .http config =>
      match http.parse ("http://" ++ config.hostAndPort.host ++ ":" ++
          toString config.hostAndPort.port) with
      | none => .error .invalidUri
      | some uri =>
          match config.credentials with
          | none => .ok (.http ⟨uri, none⟩)
          | some credentials =>
              match authorization http base64 credentials with
              | none => .error .unwrap
              | some header => .ok (.http ⟨uri, some header⟩)

/-! ## The layer of the request -/

def Scheme.http : String := "http"

def Scheme.https : String := "https"

def proxyAuthorization : String := "proxy-authorization"

def ProxyService.call (config : ProxyConfig) (uri : Uri)
    (headers : HeaderMap) : HeaderMap :=
  match config with
  | .http config =>
      if uri.scheme = some Scheme.http then
        match config.credentials with
        | some credentials => headers.insert proxyAuthorization credentials
        | none => headers
      else headers
  | .direct => headers

/-! ## The layer of the connector -/

def ProxyConnectorLayer.new (config : ProxyConfig) : Option HttpProxyConfig :=
  match config with
  | .http config => some config
  | .direct => none

/-- A socket by what it is connected to, and what to from there. -/
structure Stream where
  peer : Uri
  tunnel : Option String
  deriving DecidableEq

structure ProxyConnection where
  stream : Stream
  proxy : Bool
  deriving DecidableEq

/-- A `CONNECT` request. -/
structure ConnectRequest where
  target : String
  headers : HeaderMap
  deriving DecidableEq

inductive ConnectError where
  | message (message : String)
  | unwrap
  | proxyTunnel (status : StatusCode)
  deriving DecidableEq

def tunnelTarget (http : Http) (uri : Uri) (host : String) : String :=
  host ++ ":" ++ toString ((http.uriPortU16 uri).getD 443)

/-- The request of `connect_https`. -/
def connectHttps (http : Http) (uri : Uri) (config : HttpProxyConfig) :
    Except ConnectError ConnectRequest :=
  match http.uriHost uri with
  | none => .error (.message "host missing from URI")
  | some host =>
      let authority := tunnelTarget http uri host
      match http.parse authority, http.tryFrom authority with
      | some _, some hostValue =>
          let headers := HeaderMap.insert [] "host" hostValue
          match config.credentials with
          | some credentials =>
              .ok ⟨authority, headers.insert proxyAuthorization credentials⟩
          | none => .ok ⟨authority, headers⟩
      | _, _ => .error .unwrap

/-- What `connect_https` returns when the proxy has answered. -/
def tunneled (stream : Stream) (target : String) (status : StatusCode) :
    Except ConnectError Stream :=
  if status.isSuccess then .ok { stream with tunnel := some target }
  else .error (.proxyTunnel status)

namespace ProxyConnectorService

def call (config : Option HttpProxyConfig) (req : Uri) : Uri :=
  match config with
  | some proxy => proxy.uri
  | none => req

/-- What is done with the stream of the inner connector: it is the connection,
or the proxy is asked for a tunnel. -/
def connected (http : Http) (config : Option HttpProxyConfig) (req : Uri)
    (stream : Stream) :
    Except ConnectError (ProxyConnection ⊕ ConnectRequest) :=
  match config with
  | none => .ok (.inl ⟨stream, false⟩)
  | some proxy =>
      if req.scheme = some Scheme.http then .ok (.inl ⟨stream, true⟩)
      else (connectHttps http req proxy).map .inr

end ProxyConnectorService

/-! ## Credentials -/

def ReadsRequests (config : ProxyConfig) (uri : Uri) : Prop :=
  config ≠ .direct ∧ uri.scheme = some Scheme.http

def ProxyConfig.credentials : ProxyConfig → Option (List UInt8)
  | .http config => config.credentials
  | .direct => none

theorem ProxyService.get_proxyAuthorization (config : ProxyConfig) (uri : Uri)
    (headers : HeaderMap) :
    (ReadsRequests config uri →
      (ProxyService.call config uri headers).get proxyAuthorization =
        config.credentials.or (headers.get proxyAuthorization)) ∧
    (¬ ReadsRequests config uri →
      ProxyService.call config uri headers = headers) := by
  cases config with
  | direct => exact ⟨fun h => absurd rfl h.1, fun _ => rfl⟩
  | http config =>
      refine ⟨fun h => ?_, fun h => if_neg fun hscheme => h ⟨by simp, hscheme⟩⟩
      unfold call
      dsimp only [ProxyConfig.credentials]
      rw [if_pos h.2]
      cases config.credentials with
      | none => rfl
      | some credentials => exact get_insert_self

theorem ProxyService.get_of_ne {name : String} (h : name ≠ proxyAuthorization)
    (config : ProxyConfig) (uri : Uri) (headers : HeaderMap) :
    (ProxyService.call config uri headers).get name = headers.get name := by
  unfold call
  split
  · split
    · split
      · exact get_insert_of_ne h
      · rfl
    · rfl
  · rfl

theorem connectHttps_ok {http : Http} {uri : Uri} {config : HttpProxyConfig}
    {request : ConnectRequest}
    (h : connectHttps http uri config = .ok request) :
    ∃ host, http.uriHost uri = some host ∧
      request.target = tunnelTarget http uri host ∧
      request.headers.get proxyAuthorization = config.credentials := by
  unfold connectHttps at h
  split at h
  · cases h
  · rename_i host hhost
    dsimp only at h
    split at h
    · split at h
      · rename_i credentials hcredentials
        cases h
        exact ⟨host, hhost, rfl, hcredentials ▸ get_insert_self⟩
      · rename_i hcredentials
        cases h
        refine ⟨host, hhost, rfl, ?_⟩
        rw [hcredentials]
        rfl
    · cases h

end ConjureRuntime.Proxy
