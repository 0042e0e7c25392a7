import ConjureRuntime.Blocking.Body
import ConjureRuntime.Foundation.History
import ConjureRuntime.Service.BodyWriter

/-!
# How much the writers buffer

Both body writers collect small writes and send what they have collected when
it is enough.  The async one looks at its buffer before it appends to it; the
blocking one looks at the length of what it was given.
-/

namespace ConjureRuntime.Service.Transfer

open ConjureRuntime.Foundation

variable {events : List Event} {event : Event} {transfer transfer' : Transfer}
  {data : Bytes} {written : Nat}

/-! ## The async writer -/

def BoundedStep (transfer : Transfer) (event : Event) (transfer' : Transfer) :
    Prop :=
  Step transfer event transfer' ∧
    ∀ {data written}, event = .pollWrite data (.ready (.ok written)) →
      transfer'.buf.length ≤ 4906 + data.length

theorem frameEvent_ne
    {frame : Poll (Option (Except RequestBodyError Bytes))} :
    frameEvent frame ≠ .pollWrite data (.ready (.ok written)) := by
  rcases frame with _ | _ | _ | _ <;> simp [frameEvent]

theorem proceed_buf (h : transfer.proceed =
      some (.pollWrite data (.ready (.ok written)), transfer')) :
    transfer'.buf = data := by
  have hsendFailed (before : Transfer) (error : IoError) (send : Send) :
      (before.sendFailed error send).1 ≠
        .pollWrite data (.ready (.ok written)) := by
    cases send <;> simp [sendFailed]
  have hevent : (Event.pollWrite data (.ready (.ok written)), transfer').1 =
      .pollWrite data (.ready (.ok written)) := rfl
  have hbuf : transfer'.buf =
      (Event.pollWrite data (.ready (.ok written)), transfer').2.buf := rfl
  rw [hbuf]
  generalize (Event.pollWrite data (.ready (.ok written)), transfer') =
    outcome at h hevent
  cases proceed_outcome h with
  | goesOn => cases hevent
  | flushed before caller _ hempty =>
      cases caller with
      | pollWrite =>
          cases hevent
          exact congrArg (· ++ data) hempty
      | pollFlush | send => cases hevent
  | flushPending caller => cases caller <;> cases hevent
  | flushFailed before error caller =>
      cases caller with
      | send send => exact absurd hevent (hsendFailed before error send)
      | pollWrite | pollFlush => cases hevent
  | sent before send => cases send <;> cases hevent
  | sendFailed before error send =>
      exact absurd hevent (hsendFailed before error send)
  | sendFlushed send => cases send <;> cases hevent

theorem pollWrite_buf {given : Bytes}
    (h : transfer.pollWrite given =
      (.pollWrite data (.ready (.ok written)), transfer')) :
    transfer'.buf.length ≤ 4096 + data.length := by
  rw [pollWrite] at h
  split at h
  · cases h
  · cases h
    rw [List.length_append]
    omega

theorem buf_of_pollWrite
    (h : Step transfer (.pollWrite data (.ready (.ok written))) transfer') :
    transfer'.buf.length ≤ 4096 + data.length := by
  obtain ⟨op, h⟩ := h
  cases op with
  | pollWrite given =>
      rw [next, Option.ite_none_right_eq_some] at h
      exact pollWrite_buf (Option.some.inj h.2)
  | proceed =>
      rw [proceed_buf h]
      omega
  | pollFlush | writeBytes =>
      rw [next, Option.ite_none_right_eq_some] at h
      cases h.2
  | writeBodyReturns result =>
      rw [next, Option.ite_none_right_eq_some] at h
      obtain ⟨-, h⟩ := h
      cases result <;> cases h
  | awaitPolled =>
      simp only [next, awaitPolled] at h
      split at h
      · split at h <;> cases h
      · cases h
  | dropWriter =>
      simp only [next] at h
      split at h <;> cases h
  | firstPoll =>
      simp only [next, firstPoll] at h
      split at h <;> cases h
  | pollFrame =>
      simp only [next, pollFrame] at h
      split at h
      · cases h
      · cases h
      · have h := congrArg Prod.fst (Option.some.inj h)
        exact absurd h frameEvent_ne
      · have h := congrArg Prod.fst (Option.some.inj h)
        exact absurd h frameEvent_ne
  | hangUp =>
      simp only [next, hangUp] at h
      split at h <;> cases h

theorem boundedStep_of_step (h : Step transfer event transfer') :
    BoundedStep transfer event transfer' := by
  refine ⟨h, fun {data written} hevent => ?_⟩
  rw [hevent] at h
  have hbuf := buf_of_pollWrite h
  omega

end ConjureRuntime.Service.Transfer

namespace ConjureRuntime.Blocking

open ConjureRuntime.Foundation ConjureRuntime.Service

/-! ## The blocking writer -/

namespace Caller

def Flushes : Caller → Prop
  | .write length => 4906 < length
  | _ => True

end Caller

namespace Writer

def buf : Writer → Bytes
  | .writing buf => buf
  | _ => []

def Holds (amount : Nat) : Writer → Prop
  | .waiting => amount = 0
  | .writing buf => buf.length = amount
  | .sending caller _ | .flushing caller _ => caller.Flushes
  | .gone => True

end Writer

namespace WriteBody

variable {events : List Event} {event : Event} {call call' : WriteBody}
  {amount : Nat}

def Event.held (amount : Nat) : Event → Nat
  | .writeReturned (.ok length) =>
      if 4906 < length then 0 else amount + length
  | .writeReturned (.error _) => 0
  | .flushReturned _ => 0
  | .writeBytesReturned _ => 0
  | _ => amount

def held (events : List Event) : Nat := events.foldl Event.held 0

@[simp] theorem held_append :
    held (events ++ [event]) = event.held (held events) := by
  simp [held]

def Event.IsSmallWrite : Event → Prop
  | .writeReturned (.ok length) => length ≤ 4906
  | _ => False

def BoundedStep (call : WriteBody) (event : Event) (call' : WriteBody) :
    Prop :=
  Step call event call' ∧
    ∀ {length}, event = .writeReturned (.ok length) →
      call'.writer.buf.length ≤ 4906 + length

def SmallWritesFit (events : List Event) : Prop :=
  AtEach Event.IsSmallWrite (fun before => held before ≤ 4906) events

/-! ### What is in the buffer -/

structure Buffers (amount : Nat) (event : Event) (call' : WriteBody) :
    Prop where
  holds : call'.writer.Holds (event.held amount)
  writing : ∀ {result}, event = .writeReturned result →
    ∃ buf, call'.writer = .writing buf

theorem sent_buffers {result : Except IoError Unit} {caller : Caller}
    (hcaller : caller.Flushes) (h : call.sent result caller = (event, call')) :
    Buffers amount event call' := by
  cases caller with
  | write length =>
      cases h
      cases result with
      | ok _ =>
          have hheld : Event.held amount (.writeReturned (.ok length)) = 0 :=
            if_pos hcaller
          exact ⟨hheld.symm, fun _ => ⟨[], rfl⟩⟩
      | error => exact ⟨rfl, fun _ => ⟨[], rfl⟩⟩
  | flush | writeBytes =>
      cases h
      exact ⟨rfl, fun h => by cases h⟩
  | finish | error =>
      cases h
      exact ⟨trivial, fun h => by cases h⟩

theorem send_buffers {caller : Caller} {parts : List BodyPart}
    (hcaller : caller.Flushes) (h : call.send caller parts = (event, call')) :
    Buffers amount event call' := by
  cases parts with
  | nil => exact sent_buffers hcaller h
  | cons part parts =>
      cases h
      exact ⟨hcaller, fun h => by cases h⟩

theorem write_buffers {buf data : Bytes} (hbuf : buf.length = amount)
    (h : call.write buf data = (event, call')) :
    Buffers amount event call' := by
  simp only [write] at h
  split at h
  · rename_i hlarge
    have hcaller : (Caller.write data.length).Flushes := hlarge
    exact send_buffers hcaller h
  · rename_i hsmall
    cases h
    have hheld : Event.held amount (.writeReturned (.ok data.length)) =
        amount + data.length := if_neg hsmall
    refine ⟨?_, fun _ => ⟨_, rfl⟩⟩
    rw [hheld, ← hbuf]
    exact List.length_append

theorem feed_buffers (h : call.feed = some (event, call'))
    (hholds : call.writer.Holds amount) : Buffers amount event call' := by
  simp only [feed] at h
  split at h
  · rename_i caller part parts hwriter
    rw [hwriter] at hholds
    split at h
    · cases h
    · exact sent_buffers hholds (Option.some.inj h)
    · split at h
      · cases h
        exact ⟨hholds, fun h => by cases h⟩
      · exact sent_buffers hholds (Option.some.inj h)
  · cases h

theorem flushed_buffers (h : call.flushed = some (event, call'))
    (hholds : call.writer.Holds amount) : Buffers amount event call' := by
  simp only [flushed] at h
  split at h
  · rename_i caller parts hwriter
    rw [hwriter] at hholds
    split at h
    · cases h
    · exact send_buffers hholds (Option.some.inj h)
  · cases h

theorem receive_buffers (h : call.receive = some (event, call'))
    (hholds : call.writer.Holds amount) : Buffers amount event call' := by
  simp only [receive] at h
  split at h
  · cases h
  all_goals
    cases h
    exact ⟨hholds, fun h => by cases h⟩

theorem step_buffers (h : Step call event call')
    (hholds : call.writer.Holds amount) : Buffers amount event call' := by
  obtain ⟨op, h⟩ := h
  cases op with
  | requested =>
      rw [next, Option.ite_none_right_eq_some] at h
      obtain ⟨-, h⟩ := h
      cases h
      exact ⟨hholds, fun h => by cases h⟩
  | requestFailed error =>
      rw [next, Option.ite_none_right_eq_some] at h
      obtain ⟨-, h⟩ := h
      cases h
      exact ⟨hholds, fun h => by cases h⟩
  | receive =>
      rw [next, Option.ite_none_right_eq_some] at h
      exact receive_buffers h.2 hholds
  | forwardReturned result =>
      simp only [next, Option.ite_none_right_eq_some] at h
      obtain ⟨-, h⟩ := h
      cases result <;> cases h <;> exact ⟨hholds, fun h => by cases h⟩
  | abandon =>
      simp only [next] at h
      split at h <;> cases h <;> exact ⟨hholds, fun h => by cases h⟩
  | start =>
      rw [next, Option.ite_none_right_eq_some] at h
      obtain ⟨hwriter, h⟩ := h
      rw [hwriter] at hholds
      cases h
      exact ⟨hholds.symm, fun h => by cases h⟩
  | write data =>
      simp only [next] at h
      split at h
      · rename_i buf hwriter
        rw [hwriter] at hholds
        exact write_buffers hholds (Option.some.inj h)
      · cases h
  | flush =>
      simp only [next] at h
      split at h
      · have hcaller : Caller.flush.Flushes := trivial
        exact send_buffers hcaller (Option.some.inj h)
      · cases h
  | writeBytes data =>
      simp only [next] at h
      split at h
      · have hcaller : Caller.writeBytes.Flushes := trivial
        exact send_buffers hcaller (Option.some.inj h)
      · cases h
  | bodyReturns result =>
      simp only [next] at h
      split at h
      · cases result <;> cases h <;> exact ⟨trivial, fun h => by cases h⟩
      · cases h
  | feed => exact feed_buffers h hholds
  | flushed => exact flushed_buffers h hholds
  | drop =>
      simp only [next] at h
      split at h <;> cases h <;> exact ⟨trivial, fun h => by cases h⟩

theorem run_holds (run : Run Step new events call) :
    call.writer.Holds (held events) := by
  refine run.invariant (fun events call => call.writer.Holds (held events))
    rfl ?_
  intro events call event call' ih hstep
  rw [held_append]
  exact (step_buffers hstep ih).holds

/-! ## When they are bounded -/

theorem boundedStep_iff (hholds : call.writer.Holds amount)
    (h : Step call event call') :
    BoundedStep call event call' ↔ (event.IsSmallWrite → amount ≤ 4906) := by
  have hbuffers := step_buffers h hholds
  by_cases hwrite : ∃ length, event = .writeReturned (.ok length)
  · obtain ⟨length, rfl⟩ := hwrite
    obtain ⟨buf, hwriter⟩ := hbuffers.writing rfl
    have hbuf := hbuffers.holds
    rw [hwriter] at hbuf
    have hbuf : buf.length =
        if 4906 < length then 0 else amount + length := hbuf
    constructor
    · intro hbounded hsmall
      have hsmall : length ≤ 4906 := hsmall
      have hbound := hbounded.2 rfl
      rw [hwriter] at hbound
      have hbound : buf.length ≤ 4906 + length := hbound
      rw [hbuf, if_neg (by omega)] at hbound
      omega
    · intro hfits
      refine ⟨h, fun {length'} hevent => ?_⟩
      cases hevent
      rw [hwriter]
      have hgoal : buf.length ≤ 4906 + length := by
        rw [hbuf]
        split
        · omega
        · rename_i hlarge
          have hsmall : length ≤ 4906 := Nat.not_lt.mp hlarge
          have hheld := hfits hsmall
          omega
      exact hgoal
  · refine ⟨fun _ hsmall => ?_, fun _ => ⟨h, fun hevent => ?_⟩⟩
    · rcases event with _ | _ | _ | _ | result | _ | _ | _ | _ | _
      all_goals try exact hsmall.elim
      rcases result with _ | length
      · exact hsmall.elim
      · exact absurd ⟨length, rfl⟩ hwrite
    · exact absurd ⟨_, hevent⟩ hwrite

theorem run_bounded_iff :
    Run BoundedStep new events call ↔
      Run Step new events call ∧ SmallWritesFit events := by
  constructor
  · intro run
    have steps : Run Step new events call := run.mono fun h => h.1
    refine ⟨steps, ?_⟩
    induction run with
    | refl => exact atEach_nil
    | step run hstep ih =>
        have before : Run Step new _ _ := run.mono fun h => h.1
        refine atEach_append.mpr ⟨ih before, ?_⟩
        exact (boundedStep_iff (run_holds before) hstep.1).mp hstep
  · rintro ⟨run, hfit⟩
    induction run with
    | refl => exact .refl
    | step run hstep ih =>
        obtain ⟨hbefore, hlast⟩ := atEach_append.mp hfit
        refine .step (ih hbefore) ?_
        exact (boundedStep_iff (run_holds run) hstep).mpr hlast

/-- Every write of the async writer leaves a bounded buffer; every write of
the blocking one does exactly when the small writes between two flushes are
not too much together. -/
theorem buffers_bounded_iff (transfers : List Transfer.Event)
    (transfer : Transfer) (events : List Event) (call : WriteBody) :
    (Run Transfer.Step .new transfers transfer →
      Run Transfer.BoundedStep .new transfers transfer) ∧
    (Run BoundedStep new events call ↔
      Run Step new events call ∧ SmallWritesFit events) :=
  ⟨fun run => run.mono Transfer.boundedStep_of_step, run_bounded_iff⟩

/-! ### Large blocks -/

def block : Bytes := List.replicate 4906 0

theorem block_length : block.length = 4906 := List.length_replicate

def collecting (buf : Bytes) : WriteBody :=
  { new with
    writer := .writing buf
    wrote := buf }

theorem collecting_write (buf : Bytes) :
    Step (collecting buf) (.writeReturned (.ok 4906))
      (collecting (buf ++ block)) := by
  refine ⟨.write block, ?_⟩
  simp only [next, collecting, write, block_length, Nat.lt_irrefl, if_false]

theorem two_blocks_run :
    Run Step new [.started, .writeReturned (.ok 4906),
      .writeReturned (.ok 4906)] (collecting (block ++ block)) := by
  have hstart : Step new .started (collecting []) := ⟨.start, rfl⟩
  have run : Run Step new [.started] (collecting []) := .step .refl hstart
  have run : Run Step new _ (collecting block) :=
    run.step (collecting_write [])
  exact run.step (collecting_write block)

/-- Two such blocks are what the bound allows. -/
theorem two_blocks_bounded :
    Run BoundedStep new [.started, .writeReturned (.ok 4906),
      .writeReturned (.ok 4906)] (collecting (block ++ block)) := by
  refine (buffers_bounded_iff [] .new _ _).2.mpr ⟨two_blocks_run, ?_⟩
  have hfit : SmallWritesFit ([] ++ [.started] ++
      [.writeReturned (.ok 4906)] ++ [.writeReturned (.ok 4906)]) := by
    refine atEach_append.mpr ⟨atEach_append.mpr ⟨atEach_append.mpr
      ⟨atEach_nil, fun h => h.elim⟩, fun _ => ?_⟩, fun _ => ?_⟩
    · decide
    · decide
  exact hfit

/-- Three such blocks stay in the buffer of the blocking writer. -/
theorem three_blocks_collected :
    ∃ call, Run Step new
        [.started, .writeReturned (.ok 4906), .writeReturned (.ok 4906),
          .writeReturned (.ok 4906)] call ∧
      ¬ call.writer.buf.length ≤ 4906 + 4906 := by
  refine ⟨collecting (block ++ block ++ block), ?_, ?_⟩
  · exact two_blocks_run.step (collecting_write (block ++ block))
  · simp [collecting, Writer.buf, block_length]

end WriteBody

end ConjureRuntime.Blocking
