import ConjureRuntime.Blocking.Forwarding
import ConjureRuntime.Service.BodyDelivery
import ConjureRuntime.Service.BodyStart

/-!
# A blocking body on its way to the HTTP client

Every attempt of a request has a body of its own for the HTTP client and a
task that writes it.  For a blocking body that task calls the shim, which
hands on to the async `BodyWriter` what the thread sends.  The two move alone,
except where the task is in the code of the shim: there a call of one side is
the call of the other.
-/

namespace ConjureRuntime.Blocking

open ConjureRuntime.Foundation ConjureRuntime.Service

structure Attempt where
  transfer : Transfer
  call : Option Nat

structure Upload where
  shim : System
  attempts : List Attempt

namespace Upload

def new : Upload := ⟨.new, []⟩

inductive Op where
  | send
  | shim (op : System.Op)
  | transfer (attempt : Nat) (op : Transfer.Op)
  | writeBody (attempt : Nat)
  | writeBytes (attempt : Nat)
  | writeBytesReturns (attempt : Nat)
  | drop (attempt : Nat)
  deriving DecidableEq

structure Event where
  shim : Option System.Event
  transfer : Option (Nat × Transfer.Event)
  deriving DecidableEq

/-! ## Who moves alone -/

/-- The steps of the shim that are not at the same time steps of the task
that has called it. -/
def shimAlone (op : System.Op) (event : System.Event) : Bool :=
  match op, event with
  | .callWrite, _ => false
  | .shimWrite (.forwardReturned _), _ => false
  | _, .write _ (.forwarded _) => false
  | _, .abandoned (.write _) => false
  | _, _ => true

def inCall (upload : Upload) (attempt : Attempt) : Bool :=
  match attempt.call, upload.shim.shim with
  | some call, .sending request | some call, .flushing request
  | some call, .calling request => request = .write call
  | _, _ => false

def returned (upload : Upload) (attempt : Attempt)
    (result : Except Error Unit) : Bool :=
  match attempt.call with
  | none => false
  | some call =>
      ((upload.shim.writes[call]?).map WriteBody.reader) =
        some (.returned result)

/-- The steps of a body and its writer that are none of the shim's: those of
the HTTP client, and the writer's except where a call of the task or of the
shim begins or returns. -/
def transferAlone (upload : Upload) (attempt : Attempt) (op : Transfer.Op)
    (event : Transfer.Event) : Bool :=
  match op, event with
  | .firstPoll, _ | .pollFrame, _ | .hangUp, _ => true
  | .awaitPolled, .returned _ => true
  | .proceed, .proceeded | .proceed, .doneSent | .proceed, .returned _ => true
  | .writeBodyReturns result, _ => upload.returned attempt result
  | .dropWriter, _ => !upload.inCall attempt
  | _, _ => false

/-! ## Steps -/

def setAttempt (upload : Upload) (index : Nat) (attempt : Attempt) : Upload :=
  { upload with attempts := upload.attempts.set index attempt }

def next (upload : Upload) : Op → Option (Event × Upload)
  | .send =>
      some (⟨none, none⟩,
        { upload with attempts := upload.attempts ++ [⟨.new, none⟩] })
  | .shim op => do
      let (event, shim) ← upload.shim.next op
      if shimAlone op event then
        some (⟨some event, none⟩, { upload with shim })
      else none
  | .transfer index op => do
      let attempt ← upload.attempts[index]?
      let (event, transfer) ← attempt.transfer.next op
      if upload.transferAlone attempt op event then
        some (⟨none, some (index, event)⟩,
          upload.setAttempt index { attempt with transfer })
      else none
  | .writeBody index => do
      let attempt ← upload.attempts[index]?
      let (event, transfer) ← attempt.transfer.next .awaitPolled
      let (event', shim) ← upload.shim.next .callWrite
      if event = .writeBody then
        some (⟨some event', some (index, event)⟩,
          { upload.setAttempt index
              ⟨transfer, some upload.shim.writes.length⟩ with shim })
      else none
  | .writeBytes index => do
      let attempt ← upload.attempts[index]?
      let call ← attempt.call
      match upload.shim.next (.shimWrite .receive) with
      | some (.write other (.forwarded bytes), shim) =>
          let (event, transfer) ← attempt.transfer.next (.writeBytes bytes)
          if other = call then
            some (⟨some (.write other (.forwarded bytes)),
                some (index, event)⟩,
              { upload.setAttempt index { attempt with transfer } with shim })
          else none
      | _ => none
  | .writeBytesReturns index => do
      let attempt ← upload.attempts[index]?
      match attempt.transfer.next .proceed with
      | some (.writeBytesReturned result, transfer) =>
          let (event, shim) ←
            upload.shim.next (.shimWrite (.forwardReturned result))
          if upload.inCall attempt then
            some (⟨some event, some (index, .writeBytesReturned result)⟩,
              { upload.setAttempt index { attempt with transfer } with shim })
          else none
      | _ => none
  | .drop index => do
      let attempt ← upload.attempts[index]?
      let (event, transfer) ← attempt.transfer.next .dropWriter
      let (event', shim) ← upload.shim.next .abandon
      if upload.inCall attempt then
        some (⟨some event', some (index, event)⟩,
          { upload.setAttempt index { attempt with transfer } with shim })
      else none

def Step (upload : Upload) (event : Event) (upload' : Upload) : Prop :=
  ∃ op, upload.next op = some (event, upload')

/-! ## What a step is to the two sides -/

variable {upload upload' : Upload} {event : Event}

theorem shimAlone_quiet {op : System.Op} {event : System.Event}
    (h : shimAlone op event = true) (call : Nat) :
    event.forwardedData call = [] := by
  cases event with
  | write other event =>
      cases event with
      | forwarded bytes =>
          unfold shimAlone at h
          split at h <;> simp_all
      | _ => simp [System.Event.forwardedData, WriteBody.Event.forwardedData]
  | _ => rfl

theorem of_returned {attempt : Attempt} {result : Except Error Unit}
    (h : upload.returned attempt result = true) :
    ∃ call, attempt.call = some call ∧
      upload.shim.HasReturned call result := by
  unfold returned at h
  split at h
  · cases h
  · rename_i call hcall
    obtain ⟨write, hwrite, hreader⟩ :=
      Option.map_eq_some_iff.mp (of_decide_eq_true h)
    exact ⟨call, hcall, write, hwrite, hreader⟩

structure Aside (upload : Upload) (attempt : Attempt)
    (event : Transfer.Event) : Prop where
  submitted : event.submittedData = []
  started : event ≠ .writeBody
  returns : ∀ result, event = .writeBodyReturned result →
    ∃ call, attempt.call = some call ∧ upload.shim.HasReturned call result

theorem transferAlone_aside {attempt : Attempt} {op : Transfer.Op}
    {event : Transfer.Event} {transfer : Transfer}
    (hnext : attempt.transfer.next op = some (event, transfer))
    (h : upload.transferAlone attempt op event = true) :
    Aside upload attempt event := by
  cases op with
  | firstPoll =>
      simp only [Transfer.next, Transfer.firstPoll] at hnext
      split at hnext <;> cases hnext
      exact ⟨rfl, by simp, by simp⟩
  | pollFrame =>
      have hframe : ∀ frame,
          Aside upload attempt (Transfer.frameEvent frame) := by
        rintro (_ | _ | _ | _) <;>
          exact ⟨rfl, by simp [Transfer.frameEvent],
            by simp [Transfer.frameEvent]⟩
      simp only [Transfer.next, Transfer.pollFrame] at hnext
      split at hnext <;> cases hnext <;> exact hframe _
  | hangUp =>
      simp only [Transfer.next, Transfer.hangUp] at hnext
      split at hnext <;> cases hnext <;> exact ⟨rfl, by simp, by simp⟩
  | awaitPolled | proceed =>
      cases event <;> simp only [transferAlone, Bool.false_eq_true] at h <;>
        exact ⟨rfl, by simp, by simp⟩
  | writeBodyReturns result =>
      have hevent : event = .writeBodyReturned result := by
        rw [Transfer.next, Option.ite_none_right_eq_some] at hnext
        obtain ⟨-, hnext⟩ := hnext
        cases result <;> cases hnext <;> rfl
      subst hevent
      refine ⟨rfl, by simp, fun other hother => ?_⟩
      cases hother
      exact of_returned h
  | dropWriter =>
      simp only [Transfer.next] at hnext
      split at hnext <;> cases hnext
      exact ⟨rfl, by simp, by simp⟩
  | pollWrite | pollFlush | writeBytes => simp [transferAlone] at h

inductive Takes (upload : Upload) : Event → Upload → Prop where
  | send :
      Takes upload ⟨none, none⟩
        { upload with attempts := upload.attempts ++ [⟨.new, none⟩] }
  | shim {event : System.Event} {shim : System}
      (steps : System.Step upload.shim event shim)
      (quiet : ∀ call, event.forwardedData call = []) :
      Takes upload ⟨some event, none⟩ { upload with shim }
  | transfer {index : Nat} {attempt : Attempt} {event : Transfer.Event}
      {transfer : Transfer} (here : upload.attempts[index]? = some attempt)
      (steps : Transfer.Step attempt.transfer event transfer)
      (aside : Aside upload attempt event) :
      Takes upload ⟨none, some (index, event)⟩
        (upload.setAttempt index { attempt with transfer })
  | writeBody {index : Nat} {attempt : Attempt} {transfer : Transfer}
      {event : System.Event} {shim : System}
      (here : upload.attempts[index]? = some attempt)
      (steps : Transfer.Step attempt.transfer .writeBody transfer)
      (calls : upload.shim.next .callWrite = some (event, shim)) :
      Takes upload ⟨some event, some (index, .writeBody)⟩
        { upload.setAttempt index ⟨transfer, some upload.shim.writes.length⟩
          with shim }
  | both {index call : Nat} {attempt : Attempt} {event : Transfer.Event}
      {transfer : Transfer} {event' : System.Event} {shim : System}
      (here : upload.attempts[index]? = some attempt)
      (called : attempt.call = some call)
      (steps : Transfer.Step attempt.transfer event transfer)
      (steps' : System.Step upload.shim event' shim)
      (data : ∀ other, event'.forwardedData other =
        if other = call then event.submittedData else [])
      (started : event ≠ .writeBody)
      (returns : ∀ result, event ≠ .writeBodyReturned result) :
      Takes upload ⟨some event', some (index, event)⟩
        { upload.setAttempt index { attempt with transfer } with shim }

theorem forwardReturned_quiet {shim shim' : System} {event : System.Event}
    {result : Except IoError Unit}
    (h : shim.next (.shimWrite (.forwardReturned result)) =
      some (event, shim')) (call : Nat) : event.forwardedData call = [] := by
  simp only [System.next] at h
  split at h
  · obtain ⟨-, event', stepped, rfl, hstep, -⟩ := System.shimWrite_event h
    obtain ⟨write, write', -, hnext, -⟩ := System.stepWrite_cases hstep
    cases WriteBody.takes_of_next hnext <;>
      simp [System.Event.forwardedData, WriteBody.Event.forwardedData]
  · cases h

theorem abandon_quiet {shim shim' : System} {event : System.Event}
    (h : shim.next .abandon = some (event, shim')) (call : Nat) :
    event.forwardedData call = [] := by
  simp only [System.next] at h
  split at h <;> cases h <;> rfl

theorem callWrite_spec {shim shim' : System} {event : System.Event}
    (h : shim.next .callWrite = some (event, shim')) :
    (∀ call, event.forwardedData call = []) ∧
      shim'.writes.length = shim.writes.length + 1 := by
  simp only [System.next] at h
  split at h
  · cases h
    exact ⟨fun _ => rfl, by simp⟩
  · cases h

theorem call_of_inCall {attempt : Attempt}
    (h : upload.inCall attempt = true) : ∃ call, attempt.call = some call := by
  unfold inCall at h
  split at h
  next hcall _ => exact ⟨_, hcall⟩
  next hcall _ => exact ⟨_, hcall⟩
  next hcall _ => exact ⟨_, hcall⟩
  next => cases h

theorem Step.takes (hstep : Step upload event upload') :
    Takes upload event upload' := by
  obtain ⟨op, hnext⟩ := hstep
  cases op with
  | send =>
      cases hnext
      exact .send
  | shim op =>
      simp only [next, Option.bind_eq_bind, Option.bind_eq_some_iff] at hnext
      obtain ⟨⟨event, shim⟩, hshim, hnext⟩ := hnext
      split at hnext
      · rename_i halone
        cases hnext
        exact .shim ⟨op, hshim⟩ (shimAlone_quiet halone)
      · cases hnext
  | transfer index op =>
      simp only [next, Option.bind_eq_bind, Option.bind_eq_some_iff] at hnext
      obtain ⟨attempt, here, ⟨event, transfer⟩, htransfer, hnext⟩ := hnext
      split at hnext
      · rename_i halone
        cases hnext
        exact .transfer here ⟨op, htransfer⟩
          (transferAlone_aside htransfer halone)
      · cases hnext
  | writeBody index =>
      simp only [next, Option.bind_eq_bind, Option.bind_eq_some_iff] at hnext
      obtain ⟨attempt, here, ⟨event, transfer⟩, htransfer, ⟨event', shim⟩,
        hshim, hnext⟩ := hnext
      split at hnext
      · rename_i hevent
        cases hnext
        cases hevent
        exact .writeBody here ⟨_, htransfer⟩ hshim
      · cases hnext
  | writeBytes index =>
      simp only [next, Option.bind_eq_bind, Option.bind_eq_some_iff] at hnext
      obtain ⟨attempt, here, call, hcall, hnext⟩ := hnext
      split at hnext
      · rename_i other bytes shim hshim
        simp only [Option.bind_eq_some_iff] at hnext
        obtain ⟨⟨event, transfer⟩, htransfer, hnext⟩ := hnext
        split at hnext
        · rename_i hother
          subst hother
          cases hnext
          have hevent : event = .writeBytes bytes := by
            rw [Transfer.next, Option.ite_none_right_eq_some] at htransfer
            obtain ⟨-, htransfer⟩ := htransfer
            cases htransfer
            rfl
          subst hevent
          refine .both here hcall ⟨_, htransfer⟩ ⟨_, hshim⟩ (fun call => ?_)
            (by simp) (by simp)
          simp [System.Event.forwardedData, WriteBody.Event.forwardedData,
            Transfer.Event.submittedData, eq_comm]
        · cases hnext
      · cases hnext
  | writeBytesReturns index =>
      simp only [next, Option.bind_eq_bind, Option.bind_eq_some_iff] at hnext
      obtain ⟨attempt, here, hnext⟩ := hnext
      split at hnext
      · rename_i result transfer htransfer
        simp only [Option.bind_eq_some_iff] at hnext
        obtain ⟨⟨event, shim⟩, hshim, hnext⟩ := hnext
        split at hnext
        · rename_i hin
          obtain ⟨call, hcall⟩ := call_of_inCall hin
          cases hnext
          refine .both here hcall ⟨_, htransfer⟩ ⟨_, hshim⟩ (fun other => ?_)
            (by simp) (by simp)
          rw [forwardReturned_quiet hshim]
          exact (ite_self _).symm
        · cases hnext
      · cases hnext
  | drop index =>
      simp only [next, Option.bind_eq_bind, Option.bind_eq_some_iff] at hnext
      obtain ⟨attempt, here, ⟨event, transfer⟩, htransfer, ⟨event', shim⟩,
        hshim, hnext⟩ := hnext
      split at hnext
      · rename_i hin
        obtain ⟨call, hcall⟩ := call_of_inCall hin
        cases hnext
        have hevent : event = .dropped := by
          simp only [Transfer.next] at htransfer
          split at htransfer <;> cases htransfer
          rfl
        subst hevent
        refine .both here hcall ⟨_, htransfer⟩ ⟨_, hshim⟩ (fun other => ?_)
          (by simp) (by simp)
        rw [abandon_quiet hshim]
        exact (ite_self _).symm
      · cases hnext

/-! ## What is handed on -/

def Event.ofAttempt (index : Nat) (event : Event) : Option Transfer.Event :=
  event.transfer.bind fun moved =>
    if moved.1 = index then some moved.2 else none

def transferEvents (index : Nat) (events : List Event) :
    List Transfer.Event :=
  events.filterMap (Event.ofAttempt index)

def shimEvents (events : List Event) : List System.Event :=
  events.filterMap Event.shim

variable {events : List Event}

theorem run_shim (run : Run Step new events upload) :
    Run System.Step System.new (shimEvents events) upload.shim := by
  refine run.project Upload.shim Event.shim ?_ ?_
  · intro before event after hstep hpick
    cases hstep.takes with
    | send | transfer => rfl
    | shim | writeBody | both => cases hpick
  · intro before event after event' hstep hpick
    cases hstep.takes with
    | send | transfer => cases hpick
    | shim steps =>
        cases hpick
        exact steps
    | writeBody _ _ calls =>
        cases hpick
        exact ⟨_, calls⟩
    | both _ _ _ steps' =>
        cases hpick
        exact steps'

def transferAt (upload : Upload) (index : Nat) : Transfer :=
  ((upload.attempts[index]?).map Attempt.transfer).getD .new

theorem transferAt_of_attempt {index : Nat} {attempt : Attempt}
    (here : upload.attempts[index]? = some attempt) :
    upload.transferAt index = attempt.transfer := by
  simp [transferAt, here]

theorem transferAt_setAttempt {index other : Nat} {attempt attempt' : Attempt}
    (here : upload.attempts[index]? = some attempt) :
    (upload.setAttempt index attempt').transferAt other =
      if other = index then attempt'.transfer
      else upload.transferAt other := by
  have hlt := (List.getElem?_eq_some_iff.mp here).1
  by_cases heq : other = index
  · subst heq
    simp [transferAt, setAttempt, hlt]
  · simp [transferAt, setAttempt, heq, Ne.symm heq]

theorem Step.transferAt (hstep : Step upload event upload') (index : Nat) :
    (event.ofAttempt index = none ∧
      upload'.transferAt index = upload.transferAt index) ∨
    ∃ event', event.ofAttempt index = some event' ∧
      Transfer.Step (upload.transferAt index) event'
        (upload'.transferAt index) := by
  have hmoves : ∀ {moved : Nat} {attempt : Attempt} {event' : Transfer.Event}
      {transfer : Transfer} {shim : Option System.Event}
      {upload' : Upload} {call : Option Nat},
      upload.attempts[moved]? = some attempt →
      Transfer.Step attempt.transfer event' transfer →
      upload'.attempts =
        (upload.setAttempt moved ⟨transfer, call⟩).attempts →
      (Event.ofAttempt index ⟨shim, some (moved, event')⟩ = none ∧
        upload'.transferAt index = upload.transferAt index) ∨
      ∃ event'', Event.ofAttempt index ⟨shim, some (moved, event')⟩ =
          some event'' ∧
        Transfer.Step (upload.transferAt index) event''
          (upload'.transferAt index) := by
    intro moved attempt event' transfer shim upload' call here steps hattempts
    have hafter : upload'.transferAt index =
        if index = moved then transfer else upload.transferAt index := by
      rw [← @transferAt_setAttempt upload moved index attempt
        ⟨transfer, call⟩ here]
      simp only [Upload.transferAt, hattempts]
    by_cases heq : moved = index
    · subst heq
      rw [hafter, if_pos rfl, transferAt_of_attempt here]
      exact .inr ⟨event', by simp [Event.ofAttempt], steps⟩
    · rw [hafter, if_neg (Ne.symm heq)]
      exact .inl ⟨by simp [Event.ofAttempt, heq], rfl⟩
  cases hstep.takes with
  | send =>
      refine .inl ⟨rfl, ?_⟩
      cases hnew : (upload.attempts ++ [⟨.new, none⟩])[index]? with
      | none =>
          have hlength := List.getElem?_eq_none_iff.mp hnew
          rw [List.length_append] at hlength
          have hbefore : upload.attempts[index]? = none :=
            List.getElem?_eq_none_iff.mpr (by omega)
          simp [Upload.transferAt, hnew, hbefore]
      | some attempt =>
          rcases getElem?_append_singleton_cases hnew with
            hbefore | ⟨rfl, rfl⟩
          · simp [Upload.transferAt, hnew, hbefore]
          · simp [Upload.transferAt]
  | shim => exact .inl ⟨rfl, rfl⟩
  | transfer here steps => exact hmoves here steps rfl
  | writeBody here steps => exact hmoves here steps rfl
  | both here _ steps => exact hmoves here steps rfl

theorem run_transfer (run : Run Step new events upload) (index : Nat) :
    Run Transfer.Step Transfer.new (transferEvents index events)
      (upload.transferAt index) := by
  refine run.project (fun upload => upload.transferAt index)
    (Event.ofAttempt index) ?_ ?_
  · intro before event after hstep hpick
    rcases hstep.transferAt index with ⟨-, hsame⟩ | ⟨event', hevent, -⟩
    · exact hsame
    · rw [hpick] at hevent
      cases hevent
  · intro before event after event' hstep hpick
    rcases hstep.transferAt index with ⟨hnone, -⟩ | ⟨event', hevent, hmoves⟩
    · rw [hpick] at hnone
      cases hnone
    · rw [hpick] at hevent
      cases hevent
      exact hmoves

end Upload

/-! ## The two sides of a call -/

/-- What a body has been given is what its call has forwarded, and the call
has ended as the task says. -/
structure Attempt.Linked (shim : System) (events : List Transfer.Event)
    (attempt : Attempt) : Prop where
  waiting : attempt.transfer.writer = .waiting → attempt.call = none
  unwritten : attempt.call = none → Transfer.submitted events = []
  forwarded : ∀ {call}, attempt.call = some call →
    call < shim.writes.length ∧
      Transfer.submitted events = shim.forwardedOf call
  returned : ∀ {result}, .writeBodyReturned result ∈ events →
    ∃ call, attempt.call = some call ∧ shim.HasReturned call result

theorem Attempt.Linked.shim {shim shim' : System}
    {events : List Transfer.Event} {attempt : Attempt} {data : Nat → Bytes}
    (h : attempt.Linked shim events) (hforwards : shim.Forwards data shim')
    (hquiet : ∀ call, attempt.call = some call → data call = []) :
    attempt.Linked shim' events where
  waiting := h.waiting
  unwritten := h.unwritten
  forwarded {call} hcall := by
    obtain ⟨hlt, hsubmitted⟩ := h.forwarded hcall
    refine ⟨Nat.lt_of_lt_of_le hlt hforwards.length, ?_⟩
    rw [hsubmitted, hforwards.forwarded, hquiet call hcall, List.append_nil]
  returned hmem := by
    obtain ⟨call, hcall, hreturned⟩ := h.returned hmem
    exact ⟨call, hcall, hforwards.returned hreturned⟩

namespace Upload

variable {upload upload' : Upload} {event : Event} {events : List Event}

structure Linked (events : List Event) (upload : Upload) : Prop where
  attempts : ∀ {index : Nat} {attempt : Attempt},
    upload.attempts[index]? = some attempt →
    attempt.Linked upload.shim (transferEvents index events)
  distinct : ∀ {index other : Nat} {attempt attempt' : Attempt} {call : Nat},
    upload.attempts[index]? = some attempt →
    upload.attempts[other]? = some attempt' →
    attempt.call = some call → attempt'.call = some call → index = other
  later : ∀ {index : Nat}, upload.attempts.length ≤ index →
    transferEvents index events = []

@[simp] theorem transferEvents_append (index : Nat) (event : Event) :
    transferEvents index (events ++ [event]) =
      transferEvents index events ++ (event.ofAttempt index).toList := by
  rw [transferEvents, List.filterMap_append]
  cases h : event.ofAttempt index <;> simp [transferEvents, h]

theorem new_linked : Linked [] new where
  attempts h := by simp [new] at h
  distinct h := by simp [new] at h
  later _ := rfl

theorem Linked.moves (h : Linked events upload) {index : Nat}
    {attempt : Attempt} {data : Nat → Bytes} {shim' : System}
    (here : upload.attempts[index]? = some attempt) (attempt' : Attempt)
    (hforwards : upload.shim.Forwards data shim')
    (hquiet : ∀ call, attempt.call ≠ some call →
      call < upload.shim.writes.length → data call = [])
    (hcall : ∀ call, attempt'.call = some call →
      attempt.call = some call ∨ upload.shim.writes.length ≤ call)
    (event : Option System.Event) (event' : Transfer.Event)
    (hlinked : attempt'.Linked shim'
      (transferEvents index events ++ [event'])) :
    Linked (events ++ [⟨event, some (index, event')⟩])
      { upload.setAttempt index attempt' with shim := shim' } := by
  have hold : ∀ {other : Nat} {attempt'' : Attempt} {call : Nat},
      other ≠ index → upload.attempts[other]? = some attempt'' →
      attempt''.call = some call → attempt'.call ≠ some call := by
    intro other attempt'' call hne hother hcall'' hcall'
    rcases hcall call hcall' with hbefore | hnew
    · exact hne (h.distinct hother here hcall'' hbefore)
    · have hlt := ((h.attempts hother).forwarded hcall'').1
      omega
  constructor
  · intro other attempt'' hother
    rw [transferEvents_append]
    rcases getElem?_set_cases hother with ⟨rfl, rfl⟩ | ⟨hne, hbefore⟩
    · simpa [Event.ofAttempt] using hlinked
    · simp only [Event.ofAttempt, Option.bind_some, if_neg (Ne.symm hne),
        Option.toList_none, List.append_nil]
      refine (h.attempts hbefore).shim hforwards fun call hcall'' => ?_
      refine hquiet call (fun hhere => ?_)
        ((h.attempts hbefore).forwarded hcall'').1
      exact hne (h.distinct hbefore here hcall'' hhere)
  · intro one two attempt₁ attempt₂ call hone htwo hcall₁ hcall₂
    rcases getElem?_set_cases hone with ⟨rfl, rfl⟩ | ⟨hne₁, hbefore₁⟩ <;>
      rcases getElem?_set_cases htwo with ⟨rfl, rfl⟩ | ⟨hne₂, hbefore₂⟩
    · rfl
    · exact absurd hcall₁ (hold hne₂ hbefore₂ hcall₂)
    · exact absurd hcall₂ (hold hne₁ hbefore₁ hcall₁)
    · exact h.distinct hbefore₁ hbefore₂ hcall₁ hcall₂
  · intro other hlength
    rw [transferEvents_append]
    have hlt := (List.getElem?_eq_some_iff.mp here).1
    simp only [setAttempt, List.length_set] at hlength
    have hne : index ≠ other := by omega
    simp [Event.ofAttempt, hne, h.later hlength]

theorem Linked.step (h : Linked events upload)
    (hstep : Step upload event upload') :
    Linked (events ++ [event]) upload' := by
  cases hstep.takes with
  | send =>
      have hevents : ∀ index, transferEvents index (events ++ [⟨none, none⟩]) =
          transferEvents index events := fun index => by
        simp [transferEvents_append, Event.ofAttempt]
      constructor
      · intro index attempt hindex
        rw [hevents]
        rcases getElem?_append_singleton_cases hindex with
          hbefore | ⟨rfl, rfl⟩
        · exact h.attempts hbefore
        · rw [h.later (Nat.le_refl _)]
          exact ⟨fun _ => rfl, fun _ => rfl, by simp, by simp⟩
      · intro one two attempt₁ attempt₂ call hone htwo hcall₁ hcall₂
        rcases getElem?_append_singleton_cases hone with
          hbefore₁ | ⟨rfl, rfl⟩
        · rcases getElem?_append_singleton_cases htwo with
            hbefore₂ | ⟨rfl, rfl⟩
          · exact h.distinct hbefore₁ hbefore₂ hcall₁ hcall₂
          · cases hcall₂
        · cases hcall₁
      · intro index hlength
        rw [hevents]
        simp only [List.length_append, List.length_singleton] at hlength
        exact h.later (by omega)
  | @shim event shim steps quiet =>
      have hforwards := steps.forwards
      have hevents : ∀ index, transferEvents index
          (events ++ [⟨some event, none⟩]) = transferEvents index events :=
        fun index => by simp [transferEvents_append, Event.ofAttempt]
      constructor
      · intro index attempt hindex
        rw [hevents]
        exact (h.attempts hindex).shim hforwards fun call _ => quiet call
      · exact h.distinct
      · intro index hlength
        rw [hevents]
        exact h.later hlength
  | @transfer index attempt event transfer here steps aside =>
      obtain ⟨op, hnext⟩ := steps
      have hlinked := h.attempts here
      refine h.moves here { attempt with transfer }
        (System.keeps_of_writes rfl) (fun _ _ _ => rfl) (fun call => .inl)
        none event ⟨?_, ?_, ?_, ?_⟩
      · intro hwaiting
        exact hlinked.waiting
          ((Transfer.next_started hnext).2.2 hwaiting).1
      · intro hcall
        rw [Transfer.submitted_append, hlinked.unwritten hcall,
          aside.submitted, List.append_nil]
      · intro call hcall
        rw [Transfer.submitted_append, aside.submitted, List.append_nil]
        exact hlinked.forwarded hcall
      · intro result hmem
        rcases List.mem_append.mp hmem with hbefore | hlast
        · exact hlinked.returned hbefore
        · exact aside.returns result (List.mem_singleton.mp hlast).symm
  | @writeBody index attempt transfer event shim here steps calls =>
      obtain ⟨op, hnext⟩ := steps
      have hlinked := h.attempts here
      have hstarted := Transfer.next_started hnext
      have hwaiting := (hstarted.2.1 rfl).2
      have hnone := hlinked.waiting hwaiting
      have hforwards := System.Step.forwards ⟨_, calls⟩
      obtain ⟨hquiet, hlength⟩ := callWrite_spec calls
      refine h.moves here ⟨transfer, some upload.shim.writes.length⟩ hforwards
        (fun call _ _ => hquiet call) ?_ (some event) .writeBody
        ⟨?_, by simp, ?_, ?_⟩
      · intro call hcall
        cases hcall
        exact .inr (Nat.le_refl _)
      · intro hwriter
        exact absurd rfl (hstarted.2.2 hwriter).2
      · intro call hcall
        cases hcall
        refine ⟨by omega, ?_⟩
        rw [Transfer.submitted_append, hlinked.unwritten hnone,
          hforwards.forwarded, hquiet]
        simp [System.forwardedOf, Transfer.Event.submittedData]
      · intro result hmem
        rcases List.mem_append.mp hmem with hbefore | hlast
        · obtain ⟨call, hcall, -⟩ := hlinked.returned hbefore
          rw [hnone] at hcall
          cases hcall
        · cases List.mem_singleton.mp hlast
  | @both index call attempt event transfer event' shim here called steps
      steps' data started returns =>
      obtain ⟨op, hnext⟩ := steps
      have hlinked := h.attempts here
      have hforwards := steps'.forwards
      refine h.moves here { attempt with transfer } hforwards ?_
        (fun call => .inl) (some event') event ⟨?_, ?_, ?_, ?_⟩
      · intro other hother _
        rw [data, if_neg]
        rintro rfl
        exact hother called
      · intro hwaiting
        exact hlinked.waiting
          ((Transfer.next_started hnext).2.2 hwaiting).1
      · intro hcall
        rw [called] at hcall
        cases hcall
      · intro other hother
        cases called.symm.trans hother
        obtain ⟨hlt, hsubmitted⟩ := hlinked.forwarded called
        refine ⟨Nat.lt_of_lt_of_le hlt hforwards.length, ?_⟩
        rw [Transfer.submitted_append, hsubmitted, hforwards.forwarded, data,
          if_pos rfl]
      · intro result hmem
        rcases List.mem_append.mp hmem with hbefore | hlast
        · obtain ⟨other, hother, hreturned⟩ := hlinked.returned hbefore
          exact ⟨other, hother, hforwards.returned hreturned⟩
        · exact absurd (List.mem_singleton.mp hlast).symm (returns result)

theorem run_uploadLinked (run : Run Step new events upload) :
    Linked events upload :=
  run.invariant Linked new_linked fun h hstep => h.step hstep

/-! ## End to end -/

/-- The first end of a body is clean only if its writer has returned, and then
everything that was submitted is received. -/
theorem received_of_clean {events before after : List Transfer.Event}
    {transfer : Transfer}
    (run : Run Transfer.Step Transfer.new events transfer)
    (hevents : events = before ++ .ended (.ok ()) :: after)
    (hfirst : ∀ result, .ended result ∉ before) :
    .writeBodyReturned (.ok ()) ∈ events ∧
      Transfer.received before = Transfer.submitted events := by
  subst hevents
  obtain ⟨mid, first, rest⟩ := run.split
  obtain ⟨last, hstep, -⟩ := rest.head_step
  have inv := Transfer.run_invariant first
  obtain ⟨hclean, hall⟩ := Transfer.ended_spec inv hfirst hstep
  have hdone := hclean.mp rfl
  have hlater := Transfer.submitted_after_done inv hdone rest
  refine ⟨List.mem_append_left _ (inv.done hdone).1, ?_⟩
  rw [hall hdone]
  simp only [Transfer.submitted, List.flatMap_append] at hlater ⊢
  rw [hlater, List.append_nil]

def wrote (upload : Upload) (attempt : Attempt) : Bytes :=
  ((attempt.call.bind fun call => upload.shim.writes[call]?).map
    WriteBody.wrote).getD []

theorem submitted_prefix (run : Run Step new events upload) {index : Nat}
    {attempt : Attempt} (here : upload.attempts[index]? = some attempt) :
    Transfer.submitted (transferEvents index events) <+:
      upload.wrote attempt := by
  have hlinked := (run_uploadLinked run).attempts here
  cases hcall : attempt.call with
  | none =>
      rw [hlinked.unwritten hcall]
      exact List.nil_prefix
  | some call =>
      obtain ⟨hlt, hsubmitted⟩ := hlinked.forwarded hcall
      have hwrite := List.getElem?_eq_getElem hlt
      have hrefines := (System.run_linked (run_shim run)).1.refines
      rw [hsubmitted]
      simpa [System.forwardedOf, wrote, hcall, hwrite] using
        hrefines.forwarded _ (List.mem_of_getElem? hwrite)

/-- The HTTP client receives the bytes that the blocking body has written in
the call of the attempt, in order; when its body ends without an error, the
blocking body has returned successfully and all its bytes have arrived. -/
theorem upload_exact_or_fails (run : Run Step new events upload)
    {index : Nat} {attempt : Attempt}
    (here : upload.attempts[index]? = some attempt) :
    Transfer.received (transferEvents index events) <+:
      upload.wrote attempt ∧
    ∀ before after,
      transferEvents index events = before ++ .ended (.ok ()) :: after →
      (∀ result, .ended result ∉ before) →
      ∃ call write, attempt.call = some call ∧
        upload.shim.writes[call]? = some write ∧
        write.returned = some (.ok ()) ∧
        Transfer.received before = write.wrote := by
  have hsubmitted := submitted_prefix run here
  have htransfer := run_transfer run index
  refine ⟨(Transfer.run_invariant htransfer).ordered.trans hsubmitted,
    fun before after hevents hfirst => ?_⟩
  obtain ⟨hreturned, hreceived⟩ := received_of_clean htransfer hevents hfirst
  have hlinked := (run_uploadLinked run).attempts here
  obtain ⟨call, hcall, write, hwrite, hreader⟩ := hlinked.returned hreturned
  have hrefines := (System.run_linked (run_shim run)).1.refines
  obtain ⟨hok, hall⟩ :=
    hrefines.ok write (List.mem_of_getElem? hwrite) hreader
  refine ⟨call, write, hcall, hwrite, hok, ?_⟩
  rw [hreceived, (hlinked.forwarded hcall).2, ← hall]
  simp [System.forwardedOf, hwrite]

def shortUpload : List Op :=
  [.send, .transfer 0 .firstPoll, .writeBody 0, .shim .sendRequest,
    .shim .nextRequest, .shim .flushRequest,
    .shim (.streamWrite (.write [1, 2])),
    .shim (.streamWrite (.bodyReturns (.ok ()))),
    .shim (.streamWrite .feed), .writeBytes 0, .transfer 0 .proceed,
    .transfer 0 .proceed, .transfer 0 .proceed, .writeBytesReturns 0,
    .shim (.streamWrite .flushed), .shim (.streamWrite .feed),
    .shim (.shimWrite .receive), .transfer 0 (.writeBodyReturns (.ok ())),
    .transfer 0 .proceed, .transfer 0 .proceed, .transfer 0 .proceed,
    .transfer 0 .pollFrame, .transfer 0 .pollFrame]

theorem short_upload_arrives :
    ∃ events upload attempt before call write,
      Run Step new events upload ∧
      upload.attempts[0]? = some attempt ∧
      transferEvents 0 events = before ++ [.ended (.ok ())] ∧
      attempt.call = some call ∧ upload.shim.writes[call]? = some write ∧
      Transfer.received before = write.wrote ∧
      Transfer.received before = [1, 2] := by
  have h : ∃ events upload attempt before,
      exec next new shortUpload = some (events, upload) ∧
      upload.attempts[0]? = some attempt ∧
      transferEvents 0 events = before ++ [.ended (.ok ())] ∧
      (∀ result, .ended result ∉ before) ∧
      Transfer.received before = [1, 2] := by
    refine ⟨_, _, _, [.polled, .writeBody, .writeBytes [1, 2], .proceeded,
      .proceeded, .proceeded, .writeBytesReturned (.ok ()),
      .writeBodyReturned (.ok ()), .proceeded, .proceeded, .doneSent,
      .received [1, 2]], rfl, rfl, rfl, by simp, rfl⟩
  obtain ⟨events, upload, attempt, before, hexec, here, hevents, hfirst,
    hreceived⟩ := h
  have run : Run Step new events upload := exec_run (fun h => ⟨_, h⟩) hexec
  obtain ⟨call, write, hcall, hwrite, -, hall⟩ :=
    (upload_exact_or_fails run here).2 before [] hevents hfirst
  exact ⟨events, upload, attempt, before, call, write, run, here, hevents,
    hcall, hwrite, hall, hreceived⟩

end Upload

end ConjureRuntime.Blocking
