import Mathlib.Algebra.Group.Nat.Defs

/-!
# HTTP messages

The parts of the `http` types that the layers of the client look at.
-/

namespace ConjureRuntime.Service

/-- A `std::time::Duration`. -/
structure Duration where
  nanos : Nat
  deriving DecidableEq, Repr

namespace Duration

def max : Duration := ⟨(2 ^ 64 - 1) * 10 ^ 9 + 999999999⟩

def fromSecs (secs : Nat) : Duration := ⟨secs * 10 ^ 9⟩

end Duration

inductive Method where
  | options
  | get
  | post
  | put
  | delete
  | head
  | trace
  | connect
  | patch
  | extension (name : String)
  deriving DecidableEq, Repr

namespace Method

def isSafe : Method → Bool
  | .get | .head | .options | .trace => true
  | _ => false

def isIdempotent : Method → Bool
  | .put | .delete => true
  | method => method.isSafe

end Method

structure StatusCode where
  code : Nat
  valid : 100 ≤ code ∧ code < 1000
  deriving DecidableEq, Repr

namespace StatusCode

def isSuccess (status : StatusCode) : Bool :=
  200 ≤ status.code ∧ status.code < 300

def isServerError (status : StatusCode) : Bool :=
  500 ≤ status.code ∧ status.code < 600

def ok : StatusCode := ⟨200, by decide⟩

def tooManyRequests : StatusCode := ⟨429, by decide⟩

def internalServerError : StatusCode := ⟨500, by decide⟩

def serviceUnavailable : StatusCode := ⟨503, by decide⟩

end StatusCode

/-- Header names, in lower case, with the bytes of their values. -/
abbrev HeaderMap := List (String × List UInt8)

namespace HeaderMap

def get (headers : HeaderMap) (name : String) : Option (List UInt8) :=
  headers.lookup name

def insert (headers : HeaderMap) (name : String) (value : List UInt8) :
    HeaderMap :=
  (name, value) :: headers.filter fun header => header.1 ≠ name

end HeaderMap

structure Response (β : Type) where
  status : StatusCode
  headers : HeaderMap
  body : β

end ConjureRuntime.Service
