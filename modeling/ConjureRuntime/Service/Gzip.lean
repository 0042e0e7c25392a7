import ConjureRuntime.Foundation.Channel
import ConjureRuntime.Foundation.Decoder
import ConjureRuntime.Foundation.Transition
import ConjureRuntime.Service.Error

/-!
# Compressed responses

A response that the server compressed is decompressed frame by frame.  The
decompressed body polls the inner one, feeds what it gets to the decoder and
passes on what comes out; how it ends depends on how the inner body says that
it has.
-/

namespace ConjureRuntime.Service

open ConjureRuntime.Foundation

/-! ## The layer -/

def HeaderMap.remove (headers : HeaderMap) (name : String) : HeaderMap :=
  headers.filter fun header => header.1 ≠ name

namespace Gzip

/-- The value `gzip`. -/
def gzip : List UInt8 := [103, 122, 105, 112]

inductive Frame where
  | data (data : List UInt8)
  | trailers (trailers : HeaderMap)
  deriving DecidableEq, Repr

def Frame.dataRef : Frame → Option (List UInt8)
  | .data bytes => some bytes
  | .trailers _ => none

/-- What a `poll_frame` returns. -/
abbrev PolledFrame := Poll (Option (Except Cause Frame))

/-- An inner body: what its polls will return, each with what `is_end_stream`
says after it, and what that says now.  After these polls there is `None`. -/
structure Body where
  polls : List (Poll (Except Cause Frame) × Bool)
  isEndStream : Bool

def Body.pollFrame (body : Body) : PolledFrame × Body :=
  match body.polls with
  | [] => (.ready none, body)
  | (.pending, isEndStream) :: polls => (.pending, ⟨polls, isEndStream⟩)
  | (.ready result, isEndStream) :: polls =>
      (.ready (some result), ⟨polls, isEndStream⟩)

theorem Body.length_polls_pollFrame {body body' : Body}
    {result : Except Cause Frame}
    (h : body.pollFrame = (.ready (some result), body')) :
    body'.polls.length < body.polls.length := by
  unfold pollFrame at h
  split at h
  · cases h
  · cases h
  · rename_i polls hpolls
    cases h
    rw [hpolls]
    exact Nat.lt_succ_self _

/-- Write access to the decoder of `flate2`, with the buffer it writes to. -/
abbrev GzDecoder (δ : Type) := Decoder UInt8 UInt8 Cause δ

inductive State (δ : Type) where
  | decompressing (decoder : δ)
  | last (frame : Frame)
  | done

structure DecodedBody (δ : Type) where
  body : Body
  state : State δ

variable {δ : Type} (gz : GzDecoder δ)

namespace DecodedBody

/-- `poll_frame`; whatever state is not put back has become `Done`. -/
def pollFrame (this : DecodedBody δ) : PolledFrame × DecodedBody δ :=
  match this.state with
  | .decompressing decoder =>
      match _hpolled : this.body.pollFrame with
      | (.ready (some (.ok frame)), body) =>
          match frame.dataRef with
          | some data =>
              match gz.writeAll decoder data with
              | .error e => (.ready (some (.error e)), ⟨body, .done⟩)
              | .ok decoder =>
                  if body.isEndStream then
                    match gz.tryFinish decoder with
                    | .error e => (.ready (some (.error e)), ⟨body, .done⟩)
                    | .ok decoder =>
                        if gz.buffer decoder = [] then
                          (.ready none, ⟨body, .done⟩)
                        else
                          (.ready (some (.ok (.data (gz.buffer decoder)))),
                            ⟨body, .done⟩)
                  else
                    match gz.flush decoder with
                    | .error e => (.ready (some (.error e)), ⟨body, .done⟩)
                    | .ok decoder =>
                        if gz.buffer decoder = [] then
                          pollFrame ⟨body, .decompressing (gz.split decoder)⟩
                        else
                          (.ready (some (.ok (.data (gz.buffer decoder)))),
                            ⟨body, .decompressing (gz.split decoder)⟩)
          | none =>
              match gz.tryFinish decoder with
              | .error e => (.ready (some (.error e)), ⟨body, .done⟩)
              | .ok decoder =>
                  if gz.buffer decoder = [] then
                    (.ready (some (.ok frame)), ⟨body, .done⟩)
                  else
                    (.ready (some (.ok (.data (gz.buffer decoder)))),
                      ⟨body, .last frame⟩)
      | (.ready (some (.error e)), body) =>
          (.ready (some (.error e)), ⟨body, .done⟩)
      | (.ready none, body) =>
          match gz.tryFinish decoder with
          | .error e => (.ready (some (.error e)), ⟨body, .done⟩)
          | .ok decoder =>
              if gz.buffer decoder = [] then (.ready none, ⟨body, .done⟩)
              else
                (.ready (some (.ok (.data (gz.buffer decoder)))),
                  ⟨body, .done⟩)
      | (.pending, body) => (.pending, ⟨body, .decompressing decoder⟩)
  | .last frame => (.ready (some (.ok frame)), ⟨this.body, .done⟩)
  | .done =>
      let (frame, body) := this.body.pollFrame
      (frame, ⟨body, .done⟩)
termination_by this.body.polls.length
decreasing_by exact Body.length_polls_pollFrame _hpolled

def Step (this : DecodedBody δ) (polled : PolledFrame)
    (this' : DecodedBody δ) : Prop :=
  this.pollFrame gz = (polled, this')

end DecodedBody

def acceptGzip (headers : HeaderMap) : HeaderMap :=
  match headers.get "accept-encoding" with
  | none => headers ++ [("accept-encoding", gzip)]
  | some _ => headers

/-- `GzipService::call`, from the headers of the request on. -/
def GzipService.call {ε : Type} (inner : HeaderMap → Except ε (Response Body))
    (headers : HeaderMap) : Except ε (Response (DecodedBody δ)) := do
  let response ← inner (acceptGzip headers)
  if response.headers.get "content-encoding" = some gzip then
    pure
      { response with
        headers := (response.headers.remove "content-encoding").remove
          "content-length"
        body := ⟨response.body, .decompressing gz.new⟩ }
  else
    pure { response with body := ⟨response.body, .done⟩ }

end Gzip

end ConjureRuntime.Service
