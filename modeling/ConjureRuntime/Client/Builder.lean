import ConjureRuntime.Client.PerHostClients
import ConjureRuntime.Client.UserAgent
import ConjureRuntime.Config.HostAndPort
import ConjureRuntime.Service.HttpError
import ConjureRuntime.Service.Retry

/-!
# The client builder

What a client is built from: the part that clients with equal configuration
can share, which is the key of the state cache, and the part that they cannot.
Registries and runtimes are shared objects; they are known by name.
-/

namespace ConjureRuntime.Client

open ConjureRuntime.Config ConjureRuntime.Service

/-! ## The configuration of a service -/

structure SecurityConfig where
  caFile : Option String
  keyFile : Option String
  certFile : Option String
  pinnedCerts : List String
  deriving DecidableEq

structure BasicCredentials where
  username : String
  password : String
  deriving DecidableEq

structure HttpProxyConfig where
  hostAndPort : HostAndPort
  credentials : Option BasicCredentials
  deriving DecidableEq

inductive ProxyConfig where
  | direct
  | http (config : HttpProxyConfig)
  deriving DecidableEq

/-- All of a `ServiceConfig` but its URIs. -/
structure ServiceSettings where
  security : Option SecurityConfig
  proxy : Option ProxyConfig
  connectTimeout : Option Duration
  readTimeout : Option Duration
  writeTimeout : Option Duration
  backoffSlotSize : Option Duration
  maxNumRetries : Option Nat
  deriving DecidableEq

inductive ClientQos where
  | enabled
  | dangerousDisableSympatheticClientQos
  deriving DecidableEq

inductive NodeSelectionStrategy where
  | pinUntilError
  | pinUntilErrorWithoutReshuffle
  | balanced
  deriving DecidableEq

inductive ErrorParameterFormat where
  | legacy
  | json
  deriving DecidableEq

/-! ## The builder -/

structure CachedConfig where
  service : String
  userAgent : UserAgent
  uris : List Url
  security : SecurityConfig
  proxy : ProxyConfig
  connectTimeout : Duration
  readTimeout : Duration
  writeTimeout : Duration
  backoffSlotSize : Duration
  maxNumRetries : Nat
  clientQos : ClientQos
  serverQos : ServerQos
  serviceError : ServiceError
  idempotency : Retry.Idempotency
  nodeSelectionStrategy : NodeSelectionStrategy
  overrideHostIndex : Option Nat
  errorParameterFormat : ErrorParameterFormat
  deriving DecidableEq

structure UncachedConfig where
  metrics : Option Nat
  hostMetrics : Option Nat
  blockingHandle : Option Nat
  conjureRuntime : Nat
  deriving DecidableEq

structure Builder where
  cached : CachedConfig
  uncached : UncachedConfig
  deriving DecidableEq

namespace Builder

/-- The builder after `service` and `user_agent`, with its defaults; the
runtime is a new one. -/
def new (service : String) (userAgent : UserAgent) (runtime : Nat) :
    Builder where
  cached :=
    { service
      userAgent
      uris := []
      security := ⟨none, none, none, []⟩
      proxy := .direct
      connectTimeout := .fromSecs 10
      readTimeout := .fromSecs (5 * 60)
      writeTimeout := .fromSecs (5 * 60)
      backoffSlotSize := ⟨250 * 10 ^ 6⟩
      maxNumRetries := 4
      clientQos := .enabled
      serverQos := .automaticRetry
      serviceError := .wrapInNewError
      idempotency := .byMethod
      nodeSelectionStrategy := .pinUntilError
      overrideHostIndex := none
      errorParameterFormat := .legacy }
  uncached :=
    { metrics := none
      hostMetrics := none
      blockingHandle := none
      conjureRuntime := runtime }

def fromConfig (builder : Builder) (config : ServiceConfig ServiceSettings) :
    Builder :=
  let cached := builder.cached
  let settings := config.settings
  { builder with
    cached :=
      { cached with
        uris := config.uris
        security := settings.security.getD cached.security
        proxy := settings.proxy.getD cached.proxy
        connectTimeout := settings.connectTimeout.getD cached.connectTimeout
        readTimeout := settings.readTimeout.getD cached.readTimeout
        writeTimeout := settings.writeTimeout.getD cached.writeTimeout
        backoffSlotSize :=
          settings.backoffSlotSize.getD cached.backoffSlotSize
        maxNumRetries := settings.maxNumRetries.getD cached.maxNumRetries } }

def metrics (builder : Builder) (metrics : Nat) : Builder :=
  { builder with
    uncached := { builder.uncached with metrics := some metrics } }

def hostMetrics (builder : Builder) (hostMetrics : Nat) : Builder :=
  { builder with
    uncached := { builder.uncached with hostMetrics := some hostMetrics } }

def overrideHostIndex (builder : Builder) (index : Nat) : Builder :=
  { builder with
    cached := { builder.cached with overrideHostIndex := some index } }

end Builder

end ConjureRuntime.Client
