import ConjureRuntime.Node.PinUntilError
import ConjureRuntime.Service.RetryLaw
import Mathlib.Data.Nat.Find
import Mathlib.Data.Set.Basic

/-!
# Failing over

A request that fails at the pinned node moves the pin, and if it may be sent
again it goes to the next node.  Whatever failures the nodes answer with, the
two layers agree on which of them ask for another node.

There are no other requests here, and the nodes stay where they are.
-/

namespace ConjureRuntime.Node.PinUntilError

open ConjureRuntime.Foundation ConjureRuntime.Service
open ConjureRuntime.Service.Retry

variable {n : Nat}

/-! ## The first healthy node -/

def slotAfter (pin : Fin n) (moves : Nat) : Fin n :=
  ⟨(pin + moves) % n, Nat.mod_lt _ pin.pos⟩

@[simp] theorem slotAfter_zero (pin : Fin n) : slotAfter pin 0 = pin :=
  Fin.ext (Nat.mod_eq_of_lt pin.isLt)

@[simp] theorem slotAfter_newPin (pin : Fin n) (moves : Nat) :
    slotAfter (newPin pin) moves = slotAfter pin (moves + 1) := by
  apply Fin.ext
  simp only [slotAfter, newPin]
  rw [Nat.mod_add_mod, Nat.add_assoc, Nat.add_comm 1]

theorem exists_slotAfter (pin slot : Fin n) :
    ∃ moves, moves < n ∧ slotAfter pin moves = slot := by
  have hpin := pin.isLt
  have hslot := slot.isLt
  by_cases hle : pin.val ≤ slot.val
  · refine ⟨slot - pin, by omega, Fin.ext ?_⟩
    have hsum : pin.val + (slot.val - pin.val) = slot.val := by omega
    simp only [slotAfter]
    rw [hsum, Nat.mod_eq_of_lt hslot]
  · refine ⟨slot + n - pin, by omega, Fin.ext ?_⟩
    have hsum : pin.val + (slot.val + n - pin.val) = slot.val + n := by omega
    simp only [slotAfter]
    rw [hsum, Nat.add_mod_right, Nat.mod_eq_of_lt hslot]

/-- Of the slots from the pin on, in cyclic order, the first with a healthy
node is so many moves away. -/
structure FirstHealthy (shuffle : Equiv.Perm (Fin n)) (healthy : Set (Fin n))
    (pin : Fin n) (moves : Nat) : Prop where
  found : shuffle (slotAfter pin moves) ∈ healthy
  first : ∀ earlier < moves, shuffle (slotAfter pin earlier) ∉ healthy

theorem exists_firstHealthy (shuffle : Equiv.Perm (Fin n))
    {healthy : Set (Fin n)} (hnonempty : healthy.Nonempty) (pin : Fin n) :
    ∃ moves, moves < n ∧ FirstHealthy shuffle healthy pin moves := by
  classical
  obtain ⟨node, hnode⟩ := hnonempty
  obtain ⟨moves, hlt, hslot⟩ := exists_slotAfter pin (shuffle.symm node)
  have hexists : ∃ moves, shuffle (slotAfter pin moves) ∈ healthy :=
    ⟨moves, by rw [hslot, Equiv.apply_symm_apply]; exact hnode⟩
  refine ⟨Nat.find hexists, ?_, Nat.find_spec hexists, fun _ =>
    Nat.find_min hexists⟩
  apply Nat.lt_of_le_of_lt (Nat.find_min' hexists _) hlt
  rw [hslot, Equiv.apply_symm_apply]
  exact hnode

theorem FirstHealthy.of_newPin {shuffle : Equiv.Perm (Fin n)}
    {healthy : Set (Fin n)} {pin : Fin n} {moves : Nat}
    (h : FirstHealthy shuffle healthy pin (moves + 1)) :
    FirstHealthy shuffle healthy (newPin pin) moves where
  found := by
    rw [slotAfter_newPin]
    exact h.found
  first earlier hlt := by
    rw [slotAfter_newPin]
    exact h.first (earlier + 1) (Nat.succ_lt_succ hlt)

/-! ## Lone requests -/

structure BodyWrite where
  write : Except Error Unit
  needsReset : Bool
  reset : Bool

/-- A request, with what becomes of its body if that is streaming, and the
random choices of its backoffs, by attempt. -/
structure LoneRequest where
  method : Method
  streaming : Option (Nat → BodyWrite)
  randomRange : Nat → Duration → Duration

def LoneRequest.toAttempt (request : LoneRequest) (http : HttpErrorService)
    (attempt : Nat) (result : InnerResult) : Attempt (Response BodyStream) :=
  match request.streaming with
  | none => fixedAttempt http result (request.randomRange attempt)
  | some body =>
      { write := (body attempt).write
        response := http.call result.toExcept
        needsReset := some (body attempt).needsReset
        reset := (body attempt).reset
        randomRange := request.randomRange attempt }

/-- Where `PinUntilErrorNodeSelectorService::call` leaves the pin if no other
request comes in between. -/
def pinAfter (pin : Fin n) (result : Except Error (Response BodyStream)) :
    Fin n :=
  if incrementHost (result.map Response.status) then newPin pin else pin

/-- The layers of a client with the request they are at, and how many attempts
they have sent. -/
structure Client (n : Nat) where
  shuffle : Equiv.Perm (Fin n)
  currentPin : Fin n
  loop : Loop (Response BodyStream)
  attempts : Nat

namespace Client

variable (service : RetryService) (http : HttpErrorService)
  (answer : Nat → Fin n → InnerResult)

/-- Send an attempt, unless the request is done; `answer` is what each node
would answer to each attempt. -/
def attempt (request : LoneRequest) (client : Client n) : Client n :=
  match client.loop with
  | .attempting state =>
      let result := answer client.attempts (client.shuffle client.currentPin)
      { client with
        currentPin := pinAfter client.currentPin result.toExcept
        loop := service.iterate state
          (request.toAttempt http state.attempt result)
        attempts := client.attempts + 1 }
  | .returned _ | .panicked _ => client

def request (client : Client n) (request : LoneRequest) : Client n :=
  (attempt service http answer request)^[service.maxNumRetries + 1]
    { client with loop := service.call _ request.method }

end Client

/-- The answers of healthy nodes are successes; the others fail with an IO
error, a 500 or a 503. -/
structure Answers (healthy : Set (Fin n))
    (answer : Nat → Fin n → InnerResult) : Prop where
  success : ∀ attempt node, node ∈ healthy → (answer attempt node).IsSuccess
  failure : ∀ attempt node, node ∉ healthy →
    (∃ inner, answer attempt node = .rawClientError inner) ∨
    ∃ response, answer attempt node = .answered response ∧
      (response.status = .internalServerError ∨
        response.status = .serviceUnavailable)

/-! ## The pin of a request that no other interrupts -/

namespace System

def withRequest (system : System n) (request : Request n) : System n :=
  { system with requests := system.requests ++ [request] }

@[simp] theorem getElem?_withRequest (system : System n)
    (request : Request n) :
    (system.withRequest request).requests[system.requests.length]? =
      some request := by
  simp [withRequest]

@[simp] theorem setRequest_withRequest (system : System n)
    (request request' : Request n) :
    (system.withRequest request).setRequest system.requests.length request' =
      system.withRequest request' := by
  simp [withRequest, setRequest]

theorem run_alone {system : System n} (hfixed : system.nodes = .fixed)
    (result : Except Error (Response BodyStream)) :
    ∃ events system', Run Step system events system' ∧
      .resolved system.requests.length (system.nodeAt system.currentPin) ∈
        events ∧
      system'.currentPin = pinAfter system.currentPin result := by
  let status : Except Unit StatusCode :=
    (result.map Response.status).mapError fun _ => ()
  have hstatus : incrementHost status =
      incrementHost (result.map Response.status) := by
    cases result <;> rfl
  let read : Read n := ⟨system.currentPin, system.rotations⟩
  have hcall : Step system .called (system.withRequest .starting) :=
    ⟨.call, rfl⟩
  have hload : Step (system.withRequest .starting)
      (.pinLoaded system.requests.length system.currentPin)
      (system.withRequest (.pinned read)) :=
    ⟨.loadPin system.requests.length, by
      simp only [next, getElem?_withRequest, setRequest_withRequest]
      rfl⟩
  have hget : Step (system.withRequest (.pinned read))
      (.resolved system.requests.length (system.nodeAt system.currentPin))
      (system.withRequest (.calling (system.resolve read))) :=
    ⟨.getFixed system.requests.length, by
      have hnodes : (system.withRequest (.pinned read)).nodes = .fixed :=
        hfixed
      simp only [next, hnodes, getElem?_withRequest, setRequest_withRequest]
      rfl⟩
  have run := ((Run.refl.step hcall).step hload).step hget
  by_cases hfailed : incrementHost status = true
  · let failed : System n :=
      { system with failed := system.nodeAt system.currentPin :: system.failed }
    have hanswer : Step (system.withRequest (.calling (system.resolve read)))
        (.answered system.requests.length true)
        (failed.withRequest (.rotating (system.resolve read))) :=
      ⟨.answer system.requests.length status, by
        simp only [next, getElem?_withRequest, setRequest_withRequest,
          if_pos hfailed]
        rfl⟩
    have hexchange : Step (failed.withRequest (.rotating (system.resolve read)))
        (.pinExchanged system.requests.length true)
        { failed.withRequest .done with
          currentPin := newPin system.currentPin
          rotations := system.rotations + 1
          failed := [] } :=
      ⟨.exchangePin failed.requests.length, by
        simp only [next, getElem?_withRequest, setRequest_withRequest]
        exact if_pos rfl⟩
    refine ⟨_, _, (run.step hanswer).step hexchange, by simp, ?_⟩
    rw [pinAfter, if_pos (hstatus ▸ hfailed)]
  · have hanswer : Step (system.withRequest (.calling (system.resolve read)))
        (.answered system.requests.length false)
        (system.withRequest .done) :=
      ⟨.answer system.requests.length status, by
        simp only [next, getElem?_withRequest, setRequest_withRequest,
          if_neg hfailed]⟩
    refine ⟨_, _, run.step hanswer, by simp, ?_⟩
    rw [pinAfter, if_neg (hstatus ▸ hfailed)]
    rfl

end System

/-! ## One attempt -/

theorem pinAfter_success {pin : Fin n} {result : InnerResult}
    (h : result.IsSuccess) : pinAfter pin result.toExcept = pin := by
  obtain ⟨response, rfl, hstatus⟩ := h.answered
  have hserver : response.status.isServerError = false := by
    simp only [StatusCode.isSuccess, decide_eq_true_eq] at hstatus
    simp only [StatusCode.isServerError, decide_eq_false_iff_not]
    omega
  simp [pinAfter, InnerResult.toExcept, Except.map, incrementHost, hserver]

variable {service : RetryService} {http : HttpErrorService}
  {healthy : Set (Fin n)} {answer : Nat → Fin n → InnerResult}

theorem Answers.failed (h : Answers healthy answer)
    (hqos : http.serverQos = .automaticRetry) {node : Fin n}
    (hnode : node ∉ healthy) (attempt : Nat) (pin : Fin n) :
    pinAfter pin (answer attempt node).toExcept = newPin pin ∧
      (answer attempt node).Retryable http.serverQos true := by
  rcases h.failure attempt node hnode with ⟨inner, heq⟩ |
    ⟨response, heq, hstatus | hstatus⟩
  · rw [heq]
    exact ⟨rfl, rfl⟩
  · rw [heq]
    refine ⟨?_, .inr ⟨rfl, hstatus⟩⟩
    simp [pinAfter, InnerResult.toExcept, Except.map, incrementHost, hstatus,
      StatusCode.isServerError, StatusCode.internalServerError]
  · rw [heq]
    refine ⟨?_, .inl ⟨.inr hstatus, hqos⟩⟩
    simp [pinAfter, InnerResult.toExcept, Except.map, incrementHost, hstatus,
      StatusCode.isServerError, StatusCode.serviceUnavailable]

namespace Client

variable {client : Client n} {request : LoneRequest} {state : State}

theorem attempt_success (service : RetryService) (http : HttpErrorService)
    (request : LoneRequest) (client : Client n) (h : Answers healthy answer)
    (hloop : client.loop = .attempting state)
    (hnode : client.shuffle client.currentPin ∈ healthy) :
    ∃ response, response.status.isSuccess ∧
      client.attempt service http answer request =
        { client with
          loop := .returned (.ok response)
          attempts := client.attempts + 1 } := by
  have hsuccess := h.success client.attempts _ hnode
  obtain ⟨response, heq, hstatus⟩ := hsuccess.answered
  refine ⟨response, hstatus, ?_⟩
  have hresponse : http.call (answer client.attempts
      (client.shuffle client.currentPin)).toExcept = .ok response := by
    rw [heq]
    exact call_success hstatus
  have hiterate : service.iterate state (request.toAttempt http state.attempt
      (answer client.attempts (client.shuffle client.currentPin))) =
      .returned (.ok response) := by
    unfold LoneRequest.toAttempt fixedAttempt RetryService.iterate
    cases request.streaming with
    | none => simp only [hresponse, sendRaw, sendAttempt]
    | some body =>
        cases hwrite : (body state.attempt).write <;>
          simp only [hresponse, hwrite, sendRaw, sendAttempt]
  unfold attempt
  simp only [hloop, hiterate, pinAfter_success hsuccess]

theorem attempt_failure (h : Answers healthy answer)
    (hqos : http.serverQos = .automaticRetry)
    (hbackoff : service.BackoffDefined) (hbody : request.streaming = none)
    (hloop : client.loop = .attempting state)
    (hidempotent : state.idempotent = true)
    (hallowed : state.attempt + 1 ≤ service.maxNumRetries)
    (hnode : client.shuffle client.currentPin ∉ healthy) :
    client.attempt service http answer request =
      { client with
        currentPin := newPin client.currentPin
        loop := .attempting { state with attempt := state.attempt + 1 }
        attempts := client.attempts + 1 } := by
  obtain ⟨hpin, hretryable⟩ :=
    h.failed hqos hnode client.attempts client.currentPin
  have hiterate : service.iterate state (request.toAttempt http state.attempt
      (answer client.attempts (client.shuffle client.currentPin))) =
      .attempting { state with attempt := state.attempt + 1 } := by
    unfold LoneRequest.toAttempt
    rw [hbody]
    dsimp only
    rw [iterate_fixed hbackoff (Nat.le_of_succ_le hallowed),
      if_pos ⟨hallowed, hidempotent ▸ hretryable⟩]
  unfold attempt
  simp only [hloop, hiterate, hpin]

theorem attempt_returned {result : Except Error (Response BodyStream)}
    (hloop : client.loop = .returned result) :
    client.attempt service http answer request = client := by
  unfold attempt
  simp only [hloop]

/-! ## Whole requests -/

theorem attempts_reach (client : Client n) (state : State)
    (h : Answers healthy answer)
    (hqos : http.serverQos = .automaticRetry)
    (hbackoff : service.BackoffDefined) (hbody : request.streaming = none)
    (hidempotent : state.idempotent = true) {moves : Nat}
    (hloop : client.loop = .attempting state)
    (hallowed : state.attempt + moves ≤ service.maxNumRetries)
    (hfirst : FirstHealthy client.shuffle healthy client.currentPin moves) :
    ∃ response, response.status.isSuccess ∧
      (attempt service http answer request)^[moves + 1] client =
        { client with
          currentPin := slotAfter client.currentPin moves
          loop := .returned (.ok response)
          attempts := client.attempts + (moves + 1) } := by
  induction moves generalizing client state with
  | zero =>
      have hnode := hfirst.found
      rw [slotAfter_zero] at hnode
      obtain ⟨response, hstatus, hattempt⟩ :=
        attempt_success service http request client h hloop hnode
      refine ⟨response, hstatus, ?_⟩
      rw [Function.iterate_one, hattempt, slotAfter_zero]
  | succ moves ih =>
      have hnode := hfirst.first 0 (Nat.succ_pos moves)
      rw [slotAfter_zero] at hnode
      have hattempt := attempt_failure h hqos hbackoff hbody hloop
        hidempotent (by omega) hnode
      rw [Function.iterate_succ_apply, hattempt]
      have hmore : state.attempt + 1 + moves ≤ service.maxNumRetries := by
        omega
      obtain ⟨response, hstatus, hreach⟩ := ih
        { client with
          currentPin := newPin client.currentPin
          loop := .attempting { state with attempt := state.attempt + 1 }
          attempts := client.attempts + 1 }
        { state with attempt := state.attempt + 1 } hidempotent rfl hmore
        hfirst.of_newPin
      refine ⟨response, hstatus, ?_⟩
      rw [hreach, slotAfter_newPin]
      simp only [Nat.add_assoc, Nat.add_comm 1]

theorem attempts_counted (client : Client n) (request : LoneRequest)
    (count : Nat)
    (h : ((attempt service http answer request)^[count]
      { client with loop := service.call _ request.method }).loop =
        .attempting state) :
    state.attempt = count ∧ count ≤ service.maxNumRetries := by
  induction count generalizing state with
  | zero =>
      cases h
      exact ⟨rfl, Nat.zero_le _⟩
  | succ count ih =>
      rw [Function.iterate_succ_apply'] at h
      generalize (attempt service http answer request)^[count]
        { client with loop := service.call _ request.method } = mid at h ih
      unfold attempt at h
      split at h
      · rename_i before hbefore
        obtain ⟨error, -, -, hprepare⟩ :=
          service.iterate_eq_attempting_iff.mp h
        obtain ⟨hallowed, -, -, rfl⟩ :=
          service.prepareForRetry_eq_ok_iff.mp hprepare
        obtain ⟨hattempt, -⟩ := ih hbefore
        exact ⟨congrArg (· + 1) hattempt, hattempt ▸ hallowed⟩
      · rename_i hreturned
        rw [hreturned] at h
        cases h
      · rename_i hpanicked
        rw [hpanicked] at h
        cases h

theorem request_ended (client : Client n) (request : LoneRequest) :
    ¬ ∃ state, (client.request service http answer request).loop =
      .attempting state := by
  rintro ⟨state, hloop⟩
  exact absurd (attempts_counted client request _ hloop).2 (by omega)

theorem request_success (service : RetryService) (http : HttpErrorService)
    (request : LoneRequest) (client : Client n) (h : Answers healthy answer)
    (hnode : client.shuffle client.currentPin ∈ healthy) :
    ∃ response, response.status.isSuccess ∧
      client.request service http answer request =
        { client with
          loop := .returned (.ok response)
          attempts := client.attempts + 1 } := by
  obtain ⟨response, hstatus, hattempt⟩ := attempt_success service http request
    { client with loop := service.call _ request.method } h rfl hnode
  refine ⟨response, hstatus, ?_⟩
  unfold Client.request
  rw [Function.iterate_succ_apply, hattempt]
  exact Function.iterate_fixed (attempt_returned rfl) _

theorem later_requests (h : Answers healthy answer)
    (hnode : client.shuffle client.currentPin ∈ healthy)
    (later : List LoneRequest) :
    (later.foldl (Client.request service http answer) client).currentPin =
      client.currentPin := by
  induction later generalizing client with
  | nil => rfl
  | cons request later ih =>
      obtain ⟨response, -, hrequest⟩ :=
        request_success service http request client h hnode
      rw [List.foldl_cons, hrequest]
      exact ih hnode

/-- A lone idempotent request finds the first healthy node at or after the pin,
and the pin stays there. -/
theorem failover_complete (http : HttpErrorService) (client : Client n)
    (request : LoneRequest) (h : Answers healthy answer)
    (hnonempty : healthy.Nonempty) (hqos : http.serverQos = .automaticRetry)
    (hbackoff : service.BackoffDefined)
    (hretries : n - 1 ≤ service.maxNumRetries)
    (hidempotent : isIdempotent service.idempotency request.method = true)
    (hbody : request.streaming = none) :
    ∃ moves, FirstHealthy client.shuffle healthy client.currentPin moves ∧
      moves + 1 ≤ n ∧
      ∃ response, response.status.isSuccess ∧
        client.request service http answer request =
          { client with
            currentPin := slotAfter client.currentPin moves
            loop := .returned (.ok response)
            attempts := client.attempts + (moves + 1) } ∧
        ∀ later : List LoneRequest,
          (later.foldl (Client.request service http answer)
            (client.request service http answer request)).currentPin =
            slotAfter client.currentPin moves := by
  obtain ⟨moves, hlt, hfirst⟩ :=
    exists_firstHealthy client.shuffle hnonempty client.currentPin
  have hallowed : moves ≤ service.maxNumRetries := by omega
  obtain ⟨response, hstatus, hreach⟩ := attempts_reach
    { client with loop := service.call _ request.method }
    (.new (isIdempotent service.idempotency request.method)) h hqos hbackoff
    hbody hidempotent rfl (by simpa [State.new]) hfirst
  have hrequest : client.request service http answer request =
      { client with
        currentPin := slotAfter client.currentPin moves
        loop := .returned (.ok response)
        attempts := client.attempts + (moves + 1) } := by
    have hsplit : service.maxNumRetries + 1 =
        (service.maxNumRetries - moves) + (moves + 1) := by omega
    unfold Client.request
    rw [hsplit, Function.iterate_add_apply, hreach]
    exact Function.iterate_fixed (attempt_returned rfl) _
  refine ⟨moves, hfirst, hlt, response, hstatus, hrequest, fun later => ?_⟩
  rw [later_requests h, hrequest]
  rw [hrequest]
  exact hfirst.found

def lastHealthy (_ : Nat) (node : Fin 3) : InnerResult :=
  if node = 2 then .answered ⟨.ok, [], []⟩
  else if node = 0 then .rawClientError (.foreign "connection refused")
  else .answered ⟨.serviceUnavailable, [], []⟩

theorem get_fails_over_twice :
    let http : HttpErrorService :=
      ⟨.automaticRetry, .wrapInNewError, fun _ _ => none⟩
    let client : Client 3 :=
      ⟨Equiv.refl _, 0, .returned (.ok ⟨.ok, [], []⟩), 7⟩
    let request : LoneRequest := ⟨.get, none, fun _ => id⟩
    (client.request .default http lastHealthy request).currentPin = 2 := by
  intro http client request
  have hanswers : Answers {2} lastHealthy := by
    constructor
    · rintro attempt node rfl
      rfl
    · intro attempt node hnode
      by_cases hfirst : node = 0
      · exact .inl
          ⟨.foreign "connection refused", by simp [lastHealthy, hfirst]⟩
      · have hlast : node ≠ 2 := hnode
        exact .inr ⟨_, by simp [lastHealthy, hfirst, hlast]; rfl, .inr rfl⟩
  obtain ⟨moves, hfirst, -, response, -, hrequest, -⟩ :=
    failover_complete http client request hanswers ⟨2, rfl⟩ rfl
      default_backoffDefined (by decide) rfl rfl
  rw [hrequest]
  exact hfirst.found

end Client

end ConjureRuntime.Node.PinUntilError
