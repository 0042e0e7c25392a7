import ConjureRuntime.Foundation.Chunks
import ConjureRuntime.Service.HttpError

/-!
# Error bodies in frames

An error body is read until it is over or past 500 KiB, and what was read by
then is decoded.  Where the frames of the body end decides how much that is,
once the body is longer.
-/

namespace ConjureRuntime.Service

open ConjureRuntime.Foundation

/-- The cause as a `RemoteError`. -/
def Error.remote (error : Error) :
    Option (StatusCode × Option SerializableError) :=
  match error.cause with
  | .remoteError status decoded => some (status, decoded)
  | _ => none

/-- Two results are errors of the same kind, and remote errors with the same
status and the same decoded error, or none. -/
def SameError {ρ : Type} (result result' : Except Error ρ) : Prop :=
  ∃ error error' remote, result = .error error ∧ result' = .error error' ∧
    error.kind = error'.kind ∧ error.remote = some remote ∧
    error'.remote = some remote

def framed (status : StatusCode) (headers : HeaderMap)
    (frames : List (List UInt8)) : Response BodyStream :=
  ⟨status, headers, frames.map .ok⟩

theorem readErrorBody_frames (body : List UInt8) (frames : List (List UInt8)) :
    readErrorBody body (frames.map .ok) =
      Chunks.collect (500 * 1024) body frames := by
  induction frames generalizing body with
  | nil => rfl
  | cons frame frames ih =>
      simp only [List.map_cons, readErrorBody, Chunks.collect, ih]

namespace HttpErrorService

variable (service : HttpErrorService) {status : StatusCode}
  {headers : HeaderMap} {frames frames' : List (List UInt8)}

def kind (decoded : Option SerializableError) : ErrorKind :=
  match decoded, service.serviceError with
  | some error, .propagateToCaller => .service (.propagated error)
  | some error, .wrapInNewError =>
      .service (.internalWithInstanceId error.errorInstanceId)
  | none, _ => .service .internal

theorem remoteError_spec (response : Response BodyStream) :
    (service.remoteError response).kind =
        service.kind (service.deserialize response.headers
          (readErrorBody [] response.body)) ∧
      (service.remoteError response).remote =
        some (response.status, service.deserialize response.headers
          (readErrorBody [] response.body)) := by
  unfold remoteError kind Error.remote
  dsimp only
  cases service.deserialize response.headers
      (readErrorBody [] response.body) with
  | none => exact ⟨rfl, rfl⟩
  | some error => cases service.serviceError <;> exact ⟨rfl, rfl⟩

theorem call_remoteError {response : Response BodyStream}
    (hsuccess : response.status.isSuccess = false)
    (hthrottled : response.status ≠ .tooManyRequests)
    (hunavailable : response.status ≠ .serviceUnavailable) :
    service.call (.ok response) = .error (service.remoteError response) := by
  simp only [call, hsuccess, if_neg hthrottled, if_neg hunavailable,
    Bool.false_eq_true, if_false]

theorem sameError_iff (hsuccess : status.isSuccess = false)
    (hthrottled : status ≠ .tooManyRequests)
    (hunavailable : status ≠ .serviceUnavailable) :
    SameError (service.call (.ok (framed status headers frames)))
        (service.call (.ok (framed status headers frames'))) ↔
      service.deserialize headers
          (Chunks.collect (500 * 1024) [] frames) =
        service.deserialize headers
          (Chunks.collect (500 * 1024) [] frames') := by
  have hcall : ∀ frames,
      service.call (.ok (framed status headers frames)) =
        .error (service.remoteError (framed status headers frames)) :=
    fun frames =>
      service.call_remoteError hsuccess hthrottled hunavailable
  have hspec : ∀ frames,
      (service.remoteError (framed status headers frames)).kind =
          service.kind (service.deserialize headers
            (Chunks.collect (500 * 1024) [] frames)) ∧
        (service.remoteError (framed status headers frames)).remote =
          some (status, service.deserialize headers
            (Chunks.collect (500 * 1024) [] frames)) := by
    intro frames
    rw [← readErrorBody_frames]
    exact service.remoteError_spec (framed status headers frames)
  obtain ⟨hkind, hremote⟩ := hspec frames
  obtain ⟨hkind', hremote'⟩ := hspec frames'
  constructor
  · rintro ⟨error, error', remote, herror, herror', -, hsame, hsame'⟩
    cases (hcall frames).symm.trans herror
    cases (hcall frames').symm.trans herror'
    have hdecoded := Option.some.inj (hremote.symm.trans hsame)
    have hdecoded' := Option.some.inj (hremote'.symm.trans hsame')
    exact congrArg Prod.snd (hdecoded.trans hdecoded'.symm)
  · intro hsame
    refine ⟨_, _, _, hcall frames, hcall frames', ?_, hremote, ?_⟩
    · rw [hkind, hkind', hsame]
    · rw [hremote', hsame]

/-- The error does not depend on where the frames of the body end, if and only
if all of its prefixes past 500 KiB decode as it does. -/
theorem same_for_all_frames_iff (hsuccess : status.isSuccess = false)
    (hthrottled : status ≠ .tooManyRequests)
    (hunavailable : status ≠ .serviceUnavailable)
    (headers : HeaderMap) (body : List UInt8) :
    (∀ frames frames', frames.flatten = body → frames'.flatten = body →
      SameError (service.call (.ok (framed status headers frames)))
        (service.call (.ok (framed status headers frames')))) ↔
    ∀ cut, cut <+: body → 500 * 1024 < cut.length →
      service.deserialize headers cut = service.deserialize headers body := by
  rw [← Chunks.same_for_all_chunks_iff]
  refine forall₂_congr fun frames frames' => ?_
  refine imp_congr_right fun _ => imp_congr_right fun _ => ?_
  exact service.sameError_iff hsuccess hthrottled hunavailable

/-! ## An error behind spaces -/

def conflict : SerializableError where
  errorCode := "CONFLICT"
  errorName := "Default:Conflict"
  errorInstanceId := "00000000-0000-0000-0000-000000000000"
  parameters := []

def conflictFields : List UInt8 :=
  ("\"errorCode\":\"CONFLICT\",\"errorName\":\"Default:Conflict\"," ++
    "\"errorInstanceId\":\"00000000-0000-0000-0000-000000000000\"," ++
    "\"parameters\":\x7b\x7d\x7d").toList.map fun c => c.toNat.toUInt8

def conflictJson : List UInt8 := 123 :: conflictFields

def decodeConflict (body : List UInt8) : Option SerializableError :=
  if body.dropWhile (· = 32) = conflictJson then some conflict else none

def conflictService : HttpErrorService where
  serverQos := .automaticRetry
  serviceError := .propagateToCaller
  deserialize := fun _ body => decodeConflict body

def status409 : StatusCode := ⟨409, by decide⟩

def spaces (n : Nat) : List UInt8 := List.replicate n 32

theorem decodeConflict_spaces (n : Nat) : decodeConflict (spaces n) = none := by
  refine if_neg ?_
  simp [spaces, conflictJson]

theorem decodeConflict_behind (n : Nat) :
    decodeConflict (spaces n ++ conflictJson) = some conflict := by
  refine if_pos ?_
  rw [List.dropWhile_append_of_pos (by simp [spaces]), conflictJson,
    List.dropWhile_cons_of_neg (by decide)]

/-- The error alone is the same in one frame and in two. -/
theorem small_body_same :
    SameError
      (conflictService.call (.ok (framed status409 [] [conflictJson])))
      (conflictService.call
        (.ok (framed status409 [] [[123], conflictJson.tail]))) := by
  have hframes : [[123], conflictJson.tail].flatten = conflictJson := by
    simp [conflictJson]
  refine (conflictService.same_for_all_frames_iff (by decide) (by decide)
    (by decide) [] conflictJson).mpr (fun cut hcut hlong => ?_) _ _
    (by simp) hframes
  have hle := hcut.length_le
  have hshort : conflictJson.length ≤ 500 * 1024 := by decide +kernel
  omega

theorem spaces_hide_the_error {n : Nat} (hlong : 500 * 1024 < n) :
    ¬ SameError
      (conflictService.call
        (.ok (framed status409 [] [spaces n ++ conflictJson])))
      (conflictService.call
        (.ok (framed status409 [] [spaces n, conflictJson]))) := by
  intro hsame
  have hdecoded := (conflictService.sameError_iff (by decide) (by decide)
    (by decide)).mp hsame
  have hlength : 500 * 1024 < ([] ++ spaces n).length := by
    rwa [List.nil_append, spaces, List.length_replicate]
  rw [Chunks.collect_one, Chunks.collect, if_pos hlength] at hdecoded
  have hwhole : some conflict = none :=
    (decodeConflict_behind n).symm.trans
      (hdecoded.trans (decodeConflict_spaces n))
  cases hwhole

/-- Behind 512001 spaces the error is propagated when it comes with them, and
not when they come first. -/
theorem spaces_first_lose_the_error :
    [spaces 512001 ++ conflictJson].flatten =
        [spaces 512001, conflictJson].flatten ∧
      ¬ SameError
        (conflictService.call
          (.ok (framed status409 [] [spaces 512001 ++ conflictJson])))
        (conflictService.call
          (.ok (framed status409 [] [spaces 512001, conflictJson]))) :=
  ⟨by simp, spaces_hide_the_error (by decide)⟩

end HttpErrorService

end ConjureRuntime.Service
