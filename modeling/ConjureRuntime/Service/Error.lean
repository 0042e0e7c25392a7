import ConjureRuntime.Service.Http

/-!
# Errors

A conjure error has a kind, which decides how it is reported, and a cause, a
dynamically typed error that may name a further source.  The layers of the
client talk to each other by downcasting the cause.
-/

namespace ConjureRuntime.Service

structure SerializableError where
  errorCode : String
  errorName : String
  errorInstanceId : String
  parameters : List (String × String)
  deriving DecidableEq, Repr

/-- The error types of this crate, and errors of any other type, with or
without a source. -/
inductive Cause where
  | throttledError (retryAfter : Option Duration)
  | unavailableError
  | remoteError (status : StatusCode) (error : Option SerializableError)
  | rawClientError (inner : Cause)
  | requestBodyError
  | foreign (type : String)
  | foreignWithSource (type : String) (source : Cause)
  deriving DecidableEq, Repr

def Cause.isRawClientError : Cause → Bool
  | .rawClientError _ => true
  | _ => false

/-- The error type of a `Service` error. -/
inductive ServiceErrorType where
  | internal
  | internalWithInstanceId (errorInstanceId : String)
  | propagated (error : SerializableError)
  deriving DecidableEq, Repr

inductive ErrorKind where
  | service (type : ServiceErrorType)
  | throttle (retryAfter : Option Duration)
  | unavailable
  deriving DecidableEq, Repr

structure Error where
  kind : ErrorKind
  cause : Cause
  unsafeParams : List (String × List UInt8)
  deriving DecidableEq, Repr

namespace Error

def isService (error : Error) : Bool :=
  match error.kind with
  | .service _ => true
  | _ => false

def internalSafe (cause : Cause) : Error :=
  ⟨.service .internal, cause, []⟩

def serviceSafe (cause : Cause) (type : ServiceErrorType) : Error :=
  ⟨.service type, cause, []⟩

def propagatedServiceSafe (cause : Cause) (error : SerializableError) :
    Error :=
  ⟨.service (.propagated error), cause, []⟩

def throttleSafe (cause : Cause) : Error := ⟨.throttle none, cause, []⟩

def throttleForSafe (cause : Cause) (retryAfter : Duration) : Error :=
  ⟨.throttle (some retryAfter), cause, []⟩

def unavailableSafe (cause : Cause) : Error := ⟨.unavailable, cause, []⟩

/-- Text parameters are kept as the bytes they are decoded from. -/
def withUnsafeParam (error : Error) (name : String) (value : List UInt8) :
    Error :=
  { error with unsafeParams := error.unsafeParams ++ [(name, value)] }

@[simp] theorem withUnsafeParam_kind (error : Error) (name : String)
    (value : List UInt8) :
    (error.withUnsafeParam name value).kind = error.kind := rfl

@[simp] theorem withUnsafeParam_cause (error : Error) (name : String)
    (value : List UInt8) :
    (error.withUnsafeParam name value).cause = error.cause := rfl

end Error

/-- `MapErrorService::call`. -/
def mapError {α : Type} : Except Cause α → Except Error α
  | .ok response => .ok response
  | .error e => .error (Error.internalSafe (.rawClientError e))

end ConjureRuntime.Service
