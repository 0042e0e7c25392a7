import ConjureRuntime.Service.Gzip
import ConjureRuntime.Service.RawBody

/-!
# Response bodies

A response body is read as a stream of chunks, as a reader and as a buffered
reader, in any order.  All three share one chunk that was looked ahead at and
a fuse, which keeps the body below from being polled past its end.
-/

namespace ConjureRuntime.Service

open ConjureRuntime.Foundation Gzip

/-- `Frame::into_data`. -/
def Gzip.Frame.intoData : Frame → Except Frame Bytes
  | .data bytes => .ok bytes
  | .trailers headers => .error (.trailers headers)

/-- A body by what its polls return, of which some were made already. -/
structure BaseBody where
  polls : Nat → PolledFrame
  polled : Nat

def BaseBody.pollFrame (body : BaseBody) : PolledFrame × BaseBody :=
  (body.polls body.polled, { body with polled := body.polled + 1 })

/-! ## The fuse -/

structure FuseBody where
  body : BaseBody
  done : Bool

namespace FuseBody

def new (body : BaseBody) : FuseBody := ⟨body, false⟩

def pollFrame (this : FuseBody) : PolledFrame × FuseBody :=
  if this.done then (.ready none, this)
  else
    match this.body.pollFrame with
    | (.pending, body) => (.pending, { this with body := body })
    | (.ready frame, body) =>
        (.ready frame, ⟨body, if frame.isNone then true else this.done⟩)

end FuseBody

/-! ## Reading -/

/-- `io::Error::other`, of an error of the body. -/
structure ReadError where
  error : Cause
  deriving DecidableEq, Repr

structure ResponseBody where
  body : FuseBody
  cur : Bytes

namespace ResponseBody

def new (body : BaseBody) : ResponseBody := ⟨.new body, []⟩

/-- The loop of `poll_next`; `none` when there is not enough fuel. -/
def nextData : Nat → FuseBody →
    Option (Poll (Option (Except Error Bytes)) × FuseBody)
  | 0, _ => none
  | fuel + 1, body =>
      match body.pollFrame with
      | (.pending, body) => some (.pending, body)
      | (.ready (some (.error e)), body) =>
          some (.ready (some (.error (.internalSafe e))), body)
      | (.ready (some (.ok frame)), body) =>
          match frame.intoData with
          | .ok data => some (.ready (some (.ok data)), body)
          | .error _ => nextData fuel body
      | (.ready none, body) => some (.ready none, body)

def pollNext (fuel : Nat) (this : ResponseBody) :
    Option (Poll (Option (Except Error Bytes)) × ResponseBody) :=
  if this.cur ≠ [] then
    some (.ready (some (.ok this.cur)), { this with cur := [] })
  else
    match nextData fuel this.body with
    | none => none
    | some (next, body) => some (next, { this with body := body })

def pollFillBuf : Nat → ResponseBody →
    Option (Poll (Except ReadError Bytes) × ResponseBody)
  | 0, _ => none
  | fuel + 1, this =>
      if this.cur ≠ [] then some (.ready (.ok this.cur), this)
      else
        match this.body.pollFrame with
        | (.pending, body) => some (.pending, { this with body := body })
        | (.ready (some (.error e)), body) =>
            some (.ready (.error ⟨e⟩), { this with body := body })
        | (.ready (some (.ok frame)), body) =>
            match frame.intoData with
            | .ok data => pollFillBuf fuel ⟨body, data⟩
            | .error _ => pollFillBuf fuel { this with body := body }
        | (.ready none, body) =>
            some (.ready (.ok this.cur), { this with body := body })

/-- `none` when `Bytes::advance` panics. -/
def consume (this : ResponseBody) (amt : Nat) : Option ResponseBody :=
  if amt ≤ this.cur.length then some { this with cur := this.cur.drop amt }
  else none

/-- `poll_read` with what is put into a buffer of which so much is left. -/
def pollRead (fuel : Nat) (this : ResponseBody) (remaining : Nat) :
    Option (Poll (Except ReadError Bytes) × ResponseBody) :=
  match pollFillBuf fuel this with
  | none => none
  | some (.pending, this) => some (.pending, this)
  | some (.ready (.error e), this) => some (.ready (.error e), this)
  | some (.ready (.ok inBuf), this) =>
      let len := min inBuf.length remaining
      match this.consume len with
      | none => none
      | some this => some (.ready (.ok (inBuf.take len)), this)

inductive Call where
  | pollNext
  | pollRead (remaining : Nat)
  | pollFillBuf
  | consume (amt : Nat)
  deriving DecidableEq

/-- A call with its answer; `consume` with the bytes that it consumes. -/
inductive Event where
  | next (result : Poll (Option (Except Error Bytes)))
  | read (remaining : Nat) (result : Poll (Except ReadError Bytes))
  | filled (result : Poll (Except ReadError Bytes))
  | consumed (bytes : Bytes)

def perform (fuel : Nat) (this : ResponseBody) :
    Call → Option (Event × ResponseBody)
  | .pollNext =>
      (this.pollNext fuel).map fun (result, this) => (.next result, this)
  | .pollRead remaining =>
      (this.pollRead fuel remaining).map fun (result, this) =>
        (.read remaining result, this)
  | .pollFillBuf =>
      (this.pollFillBuf fuel).map fun (result, this) => (.filled result, this)
  | .consume amt =>
      (this.consume amt).map fun this' =>
        (.consumed (this.cur.take amt), this')

def Step (this : ResponseBody) (event : Event) (this' : ResponseBody) :
    Prop :=
  ∃ fuel call, this.perform fuel call = some (event, this')

end ResponseBody

/-! ## What the body below delivers -/

def dataOf : PolledFrame → Bytes
  | .ready (some (.ok (.data data))) => data
  | _ => []

def delivered (polls : Nat → PolledFrame) : Nat → Bytes
  | 0 => []
  | n + 1 => delivered polls n ++ dataOf (polls n)

def EndsAt (polls : Nat → PolledFrame) (n : Nat) : Prop :=
  polls n = .ready none ∧ ∀ i < n, polls i ≠ .ready none

namespace FuseBody

/-- The fuse is blown by the first poll that says that the body has ended, and
that is the last one. -/
def Fused (this : FuseBody) : Prop :=
  if this.done then
    ∃ last, this.body.polled = last + 1 ∧ EndsAt this.body.polls last
  else ∀ i < this.body.polled, this.body.polls i ≠ .ready none

structure Moves (this : FuseBody) (data : Bytes) (this' : FuseBody) :
    Prop where
  polls : this'.body.polls = this.body.polls
  fused : this.Fused → this'.Fused
  delivered : delivered this.body.polls this'.body.polled =
    delivered this.body.polls this.body.polled ++ data
  done : this.done = true → this' = this

variable {this this' this'' : FuseBody}

theorem Moves.refl : Moves this [] this where
  polls := rfl
  fused h := h
  delivered := (List.append_nil _).symm
  done _ := rfl

theorem Moves.trans {first second : Bytes} (h : Moves this first this')
    (h' : Moves this' second this'') :
    Moves this (first ++ second) this'' where
  polls := h'.polls.trans h.polls
  fused hfused := h'.fused (h.fused hfused)
  delivered := by
    have hsecond := h'.delivered
    rw [h.polls] at hsecond
    rw [hsecond, h.delivered, List.append_assoc]
  done hdone := by
    have hsame := h.done hdone
    rw [← hsame]
    exact h'.done (hsame ▸ hdone)

theorem moves_pollFrame {polled : PolledFrame}
    (h : this.pollFrame = (polled, this')) :
    Moves this (dataOf polled) this' ∧
      (polled = .ready none → this'.done = true) ∧
      (this.done = true → polled = .ready none) := by
  unfold pollFrame at h
  by_cases hdone : this.done = true
  · rw [if_pos hdone] at h
    cases h
    exact ⟨.refl, fun _ => hdone, fun _ => rfl⟩
  · rw [if_neg hdone] at h
    have hopen (hfused : this.Fused) :
        ∀ i < this.body.polled, this.body.polls i ≠ .ready none := by
      simpa only [Fused, if_neg hdone] using hfused
    have hgrows (hfused : this.Fused)
        (hframe : this.body.polls this.body.polled ≠ .ready none) :
        ∀ i < this.body.polled + 1, this.body.polls i ≠ .ready none := by
      intro i hi
      rcases Nat.lt_succ_iff_lt_or_eq.mp hi with hlt | rfl
      · exact hopen hfused i hlt
      · exact hframe
    cases hpoll : this.body.polls this.body.polled with
    | pending =>
        simp only [BaseBody.pollFrame, hpoll] at h
        cases h
        refine ⟨⟨rfl, ?_, ?_, fun h => absurd h hdone⟩,
          fun h => (by cases h), fun h => absurd h hdone⟩
        · intro hfused
          simp only [Fused, if_neg hdone]
          exact hgrows hfused (by simp [hpoll])
        · simp only [Service.delivered, hpoll]
    | ready frame =>
        simp only [BaseBody.pollFrame, hpoll] at h
        cases h
        cases frame with
        | none =>
            refine ⟨⟨rfl, ?_, ?_, fun h => absurd h hdone⟩, fun _ => rfl,
              fun _ => rfl⟩
            · intro hfused
              simp only [Fused, Option.isNone_none, if_true]
              exact ⟨_, rfl, hpoll, hopen hfused⟩
            · simp only [Service.delivered, hpoll]
        | some result =>
            refine ⟨⟨rfl, ?_, ?_, fun h => absurd h hdone⟩,
              fun h => (by cases h), fun h => absurd h hdone⟩
            · intro hfused
              simp only [Fused, Option.isNone_some, Bool.false_eq_true,
                if_false, if_neg hdone]
              exact hgrows hfused (by simp [hpoll])
            · simp only [Service.delivered, hpoll]

end FuseBody

namespace ResponseBody

open FuseBody

variable {this this' : ResponseBody} {fuel : Nat}

/-! ## One call -/

def nextBytes : Poll (Option (Except Error Bytes)) → Bytes
  | .ready (some (.ok data)) => data
  | _ => []

theorem nextData_spec {body body' : FuseBody}
    {next : Poll (Option (Except Error Bytes))}
    (h : nextData fuel body = some (next, body')) :
    Moves body (nextBytes next) body' ∧
      (next = .ready none → body'.done = true) ∧
      (body.done = true → next = .ready none) := by
  induction fuel generalizing body with
  | zero => cases h
  | succ fuel ih =>
      unfold nextData at h
      cases hpoll : body.pollFrame with
      | mk polled mid =>
          obtain ⟨hmoves, hends, hended⟩ := moves_pollFrame hpoll
          simp only [hpoll] at h
          rcases polled with _ | (_ | (e | (data | trailers)))
          · cases h
            exact ⟨hmoves, fun heq => (by cases heq),
              fun hdone => (by cases hended hdone)⟩
          · cases h
            exact ⟨hmoves, fun _ => hends rfl, fun _ => rfl⟩
          · cases h
            exact ⟨hmoves, fun heq => (by cases heq),
              fun hdone => (by cases hended hdone)⟩
          · cases h
            exact ⟨hmoves, fun heq => (by cases heq),
              fun hdone => (by cases hended hdone)⟩
          · -- a frame that is no data frame is passed over
            obtain ⟨hrest, hlast, _⟩ := ih h
            exact ⟨hmoves.trans hrest, hlast,
              fun hdone => (by cases hended hdone)⟩

def Ended (this : ResponseBody) : Prop :=
  this.body.done = true ∧ this.cur = []

theorem pollFillBuf_spec {filled : Poll (Except ReadError Bytes)}
    (h : this.pollFillBuf fuel = some (filled, this')) :
    (∃ read, Moves this.body read this'.body ∧
      this'.cur = this.cur ++ read) ∧
      (∀ {bytes}, filled = .ready (.ok bytes) → bytes = this'.cur ∧
        (bytes = [] → this'.Ended)) ∧
      (this.Ended → filled = .ready (.ok []) ∧ this' = this) := by
  induction fuel generalizing this with
  | zero => cases h
  | succ fuel ih =>
      unfold pollFillBuf at h
      by_cases hcur : this.cur ≠ []
      · rw [if_pos hcur] at h
        cases h
        refine ⟨⟨[], .refl, (List.append_nil _).symm⟩, ?_,
          fun hended => absurd hended.2 hcur⟩
        intro bytes heq
        cases heq
        exact ⟨rfl, fun hempty => absurd hempty hcur⟩
      · rw [if_neg hcur] at h
        have hempty : this.cur = [] := not_not.mp hcur
        obtain ⟨body, cur⟩ := this
        cases hempty
        cases hpoll : body.pollFrame with
        | mk polled mid =>
            obtain ⟨hmoves, hends, hended⟩ := moves_pollFrame hpoll
            simp only [hpoll] at h
            rcases polled with _ | (_ | (e | (data | trailers)))
            · cases h
              exact ⟨⟨_, hmoves, rfl⟩, fun heq => (by cases heq),
                fun hdone => (by cases hended hdone.1)⟩
            · cases h
              refine ⟨⟨_, hmoves, rfl⟩, ?_, ?_⟩
              · intro bytes heq
                cases heq
                exact ⟨rfl, fun _ => ⟨hends rfl, rfl⟩⟩
              · intro hdone
                cases hmoves.done hdone.1
                exact ⟨rfl, rfl⟩
            · cases h
              exact ⟨⟨_, hmoves, rfl⟩, fun heq => (by cases heq),
                fun hdone => (by cases hended hdone.1)⟩
            · obtain ⟨⟨read, hrest, hread⟩, hfilled, _⟩ := ih h
              exact ⟨⟨data ++ read, hmoves.trans hrest, hread⟩, hfilled,
                fun hdone => (by cases hended hdone.1)⟩
            · obtain ⟨⟨read, hrest, hread⟩, hfilled, _⟩ := ih h
              exact ⟨⟨read, hmoves.trans hrest, hread⟩, hfilled,
                fun hdone => (by cases hended hdone.1)⟩

namespace Event

def bytes : Event → Bytes
  | .next result => nextBytes result
  | .read _ (.ready (.ok bytes)) => bytes
  | .read _ _ => []
  | .filled _ => []
  | .consumed bytes => bytes

def Ends : Event → Prop
  | .next result => result = .ready none
  | .read remaining result => 0 < remaining ∧ result = .ready (.ok [])
  | .filled result => result = .ready (.ok [])
  | .consumed _ => False

def AfterEnd : Event → Prop
  | .next result => result = .ready none
  | .read _ result => result = .ready (.ok [])
  | .filled result => result = .ready (.ok [])
  | .consumed bytes => bytes = []

end Event

structure Reads (this : ResponseBody) (event : Event)
    (this' : ResponseBody) : Prop where
  moves : ∃ read, Moves this.body read this'.body ∧
    this.cur ++ read = event.bytes ++ this'.cur
  ends : event.Ends → this'.Ended
  ended : this.Ended → event.AfterEnd ∧ this' = this

theorem reads_pollNext {next : Poll (Option (Except Error Bytes))}
    (h : this.pollNext fuel = some (next, this')) :
    Reads this (.next next) this' := by
  unfold pollNext at h
  by_cases hcur : this.cur ≠ []
  · rw [if_pos hcur] at h
    cases h
    exact ⟨⟨[], .refl, rfl⟩, fun heq => (by cases heq),
      fun hended => absurd hended.2 hcur⟩
  · rw [if_neg hcur] at h
    have hempty : this.cur = [] := not_not.mp hcur
    cases hnext : nextData fuel this.body with
    | none => simp only [hnext] at h; cases h
    | some result =>
        obtain ⟨next', body⟩ := result
        simp only [hnext] at h
        cases h
        obtain ⟨hmoves, hends, hended⟩ := nextData_spec hnext
        refine ⟨⟨_, hmoves, ?_⟩, fun heq => ⟨hends heq, hempty⟩, ?_⟩
        · rw [hempty, List.append_nil]
          rfl
        · intro hdone
          cases hmoves.done hdone.1
          exact ⟨hended hdone.1, rfl⟩

theorem reads_pollRead {remaining : Nat}
    {result : Poll (Except ReadError Bytes)}
    (h : this.pollRead fuel remaining = some (result, this')) :
    Reads this (.read remaining result) this' := by
  unfold pollRead at h
  cases hfill : this.pollFillBuf fuel with
  | none => simp only [hfill] at h; cases h
  | some filled =>
      obtain ⟨filled, mid⟩ := filled
      obtain ⟨⟨read, hmoves, hread⟩, hfilled, hended⟩ := pollFillBuf_spec hfill
      simp only [hfill] at h
      rcases filled with _ | (e | inBuf)
      · cases h
        exact ⟨⟨read, hmoves, hread.symm⟩, fun heq => (by cases heq.2),
          fun hdone => (by cases (hended hdone).1)⟩
      · cases h
        exact ⟨⟨read, hmoves, hread.symm⟩, fun heq => (by cases heq.2),
          fun hdone => (by cases (hended hdone).1)⟩
      · obtain ⟨rfl, hlast⟩ := hfilled rfl
        simp only [consume, Nat.min_le_left, if_true] at h
        cases h
        refine ⟨⟨read, hmoves, ?_⟩, ?_, ?_⟩
        · rw [← hread]
          exact (List.take_append_drop _ _).symm
        · rintro ⟨hremaining, heq⟩
          have hnone : mid.cur = [] := by
            by_contra hcur
            have hlength := List.length_pos_iff.mpr hcur
            simp only [Poll.ready.injEq, Except.ok.injEq,
              List.take_eq_nil_iff] at heq
            rcases heq with hzero | hempty
            · omega
            · exact hcur hempty
          obtain ⟨hdone, hcur⟩ := hlast hnone
          exact ⟨hdone, by simp [hcur]⟩
        · intro hdone
          obtain ⟨heq, hsame⟩ := hended hdone
          cases hsame
          obtain ⟨body, cur⟩ := this
          cases hdone.2
          exact ⟨by simp [Event.AfterEnd], rfl⟩

theorem reads_pollFillBuf {filled : Poll (Except ReadError Bytes)}
    (h : this.pollFillBuf fuel = some (filled, this')) :
    Reads this (.filled filled) this' := by
  obtain ⟨⟨read, hmoves, hread⟩, hfilled, hended⟩ := pollFillBuf_spec h
  refine ⟨⟨read, hmoves, hread.symm⟩, ?_, hended⟩
  intro heq
  exact (hfilled heq).2 rfl

theorem reads_consume {amt : Nat} (h : this.consume amt = some this') :
    Reads this (.consumed (this.cur.take amt)) this' := by
  unfold consume at h
  split at h
  · cases h
    refine ⟨⟨[], .refl, ?_⟩, fun heq => heq.elim, ?_⟩
    · rw [List.append_nil]
      exact (List.take_append_drop _ _).symm
    · intro hdone
      obtain ⟨body, cur⟩ := this
      cases hdone.2
      exact ⟨List.take_nil, by simp⟩
  · cases h

theorem reads_step {event : Event} (h : this.Step event this') :
    Reads this event this' := by
  obtain ⟨fuel, call, h⟩ := h
  cases call with
  | pollNext =>
      obtain ⟨⟨result, next⟩, hcall, heq⟩ := Option.map_eq_some_iff.mp h
      cases heq
      exact reads_pollNext hcall
  | pollRead remaining =>
      obtain ⟨⟨result, next⟩, hcall, heq⟩ := Option.map_eq_some_iff.mp h
      cases heq
      exact reads_pollRead hcall
  | pollFillBuf =>
      obtain ⟨⟨result, next⟩, hcall, heq⟩ := Option.map_eq_some_iff.mp h
      cases heq
      exact reads_pollFillBuf hcall
  | consume amt =>
      obtain ⟨next, hcall, heq⟩ := Option.map_eq_some_iff.mp h
      cases heq
      exact reads_consume hcall

/-! ## Calls return -/

/-- A frame after which `poll_fill_buf` goes on. -/
def PassedOver : PolledFrame → Prop
  | .ready (some (.ok (.data data))) => data = []
  | .ready (some (.ok (.trailers _))) => True
  | _ => False

theorem pollFrame_passedOver {body mid : FuseBody} {polled : PolledFrame}
    (hpoll : body.pollFrame = (polled, mid)) (h : PassedOver polled) :
    polled = body.body.polls body.body.polled ∧
      mid.body = { body.body with polled := body.body.polled + 1 } := by
  unfold FuseBody.pollFrame at hpoll
  split at hpoll
  · cases hpoll
    exact h.elim
  · cases hframe : body.body.polls body.body.polled with
    | pending =>
        simp only [BaseBody.pollFrame, hframe] at hpoll
        cases hpoll
        exact h.elim
    | ready frame =>
        simp only [BaseBody.pollFrame, hframe] at hpoll
        cases hpoll
        exact ⟨rfl, rfl⟩

theorem pollFillBuf_returns {n : Nat} (hpolled : this.body.body.polled ≤ n)
    (hstops : ¬ PassedOver (this.body.body.polls n)) :
    ∃ fuel, (this.pollFillBuf fuel).isSome := by
  generalize hdistance : n - this.body.body.polled = distance
  induction distance using Nat.strongRecOn generalizing this with
  | ind distance ih =>
      by_cases hcur : this.cur ≠ []
      · exact ⟨1, by simp [pollFillBuf, hcur]⟩
      · cases hpoll : this.body.pollFrame with
        | mk polled mid =>
            have hagain (hpassed : PassedOver polled) :
                ∃ fuel, (pollFillBuf fuel ⟨mid, []⟩).isSome := by
              obtain ⟨rfl, hmid⟩ := pollFrame_passedOver hpoll hpassed
              have hlt : this.body.body.polled < n := by
                refine Nat.lt_of_le_of_ne hpolled fun heq => hstops ?_
                exact heq ▸ hpassed
              refine ih _ ?_ (by rw [hmid]; exact hlt)
                (by rw [hmid]; exact hstops) rfl
              rw [hmid]
              show n - (this.body.body.polled + 1) < distance
              omega
            have hempty := not_not.mp hcur
            rcases polled with _ | (_ | (e | (data | trailers)))
            · exact ⟨1, by simp [pollFillBuf, hempty, hpoll]⟩
            · exact ⟨1, by simp [pollFillBuf, hempty, hpoll]⟩
            · exact ⟨1, by simp [pollFillBuf, hempty, hpoll]⟩
            · by_cases hdata : data = []
              · obtain ⟨fuel, hfuel⟩ := hagain hdata
                exact ⟨fuel + 1, by
                  simpa [pollFillBuf, hempty, hpoll, Frame.intoData, hdata]
                    using hfuel⟩
              · exact ⟨2, by
                  simp [pollFillBuf, hempty, hpoll, Frame.intoData, hdata]⟩
            · obtain ⟨fuel, hfuel⟩ := hagain trivial
              exact ⟨fuel + 1, by
                simpa [pollFillBuf, hempty, hpoll, Frame.intoData] using
                  hfuel⟩

theorem Ended.perform_returns (h : this.Ended) {call : Call}
    (hcall : ∀ amt, call = .consume amt → amt = 0) :
    (this.perform 1 call).isSome := by
  have hpoll : this.body.pollFrame = (.ready none, this.body) := if_pos h.1
  cases call with
  | pollNext => simp [perform, pollNext, nextData, h.2, hpoll]
  | pollRead remaining =>
      simp [perform, pollRead, pollFillBuf, h.2, hpoll, consume]
  | pollFillBuf => simp [perform, pollFillBuf, h.2, hpoll]
  | consume amt => simp [perform, consume, hcall amt rfl]

/-! ## Mixed sequences of calls -/

def handed (events : List Event) : Bytes := (events.map Event.bytes).flatten

@[simp] theorem handed_append (before after : List Event) :
    handed (before ++ after) = handed before ++ handed after := by
  simp [handed]

/-- What was handed out and what is looked ahead at is what the body below
has delivered. -/
structure Reading (polls : Nat → PolledFrame) (events : List Event)
    (this : ResponseBody) : Prop where
  samePolls : this.body.body.polls = polls
  fused : this.body.Fused
  inOrder : handed events ++ this.cur =
    delivered polls this.body.body.polled

theorem reading {polls : Nat → PolledFrame} {events : List Event}
    (run : Run Step (.new ⟨polls, 0⟩) events this) :
    Reading polls events this := by
  refine run.invariant (Reading polls) ?_ ?_
  · exact ⟨rfl, fun i hi => absurd hi (Nat.not_lt_zero i), rfl⟩
  · intro events this event this' h hstep
    obtain ⟨⟨read, hmoves, hread⟩, _, _⟩ := reads_step hstep
    refine ⟨hmoves.polls.trans h.samePolls, hmoves.fused h.fused, ?_⟩
    have hdelivered := hmoves.delivered
    rw [h.samePolls] at hdelivered
    calc handed (events ++ [event]) ++ this'.cur
        = handed events ++ (event.bytes ++ this'.cur) := by
          rw [handed_append, List.append_assoc]
          simp [handed]
      _ = handed events ++ this.cur ++ read := by
          rw [← hread, List.append_assoc]
      _ = delivered polls this'.body.body.polled := by
          rw [h.inOrder, hdelivered]

theorem ended_of_run {later : List Event} (h : this.Ended)
    (run : Run Step this later this') :
    (∀ event ∈ later, event.AfterEnd) ∧ this'.Ended :=
  run.invariant
    (fun later this' => (∀ event ∈ later, event.AfterEnd) ∧ this'.Ended)
    ⟨fun event hevent => (by cases hevent), h⟩ (by
      rintro later this event this' ⟨hlater, hended⟩ hstep
      obtain ⟨hafter, hsame⟩ := (reads_step hstep).ended hended
      refine ⟨?_, hsame ▸ hended⟩
      intro event' hevent
      rcases List.mem_append.mp hevent with hevent | hevent
      · exact hlater event' hevent
      · rw [List.mem_singleton.mp hevent]
        exact hafter)

namespace Reading

variable {polls : Nat → PolledFrame} {events : List Event}

theorem delivered_before_end (h : Reading polls events this) :
    ∃ n, (∀ i < n, polls i ≠ .ready none) ∧
      handed events ++ this.cur = delivered polls n ∧
      (this.body.done = true → polls n = .ready none) ∧
      this.body.body.polled ≤ n + 1 := by
  have hfused := h.fused
  have hdelivered := h.inOrder
  rw [Fused, h.samePolls] at hfused
  split at hfused
  · rename_i hdone
    obtain ⟨last, hlast, hnone, hbefore⟩ := hfused
    have hlastData : dataOf (polls last) = [] := by rw [hnone]; rfl
    rw [hlast, delivered, hlastData, List.append_nil] at hdelivered
    exact ⟨last, hbefore, hdelivered, fun _ => hnone, Nat.le_of_eq hlast⟩
  · rename_i hopen
    exact ⟨_, hfused, hdelivered, fun hdone => absurd hdone hopen,
      Nat.le_succ _⟩

theorem handed_all (h : Reading polls events this) (hended : this.Ended) :
    ∃ n, EndsAt polls n ∧ handed events = delivered polls n := by
  obtain ⟨n, hbefore, hdelivered, hdone, _⟩ := h.delivered_before_end
  rw [hended.2, List.append_nil] at hdelivered
  exact ⟨n, ⟨hdone hended.1, hbefore⟩, hdelivered⟩

end Reading

theorem Event.Ends.bytes_eq_nil {event : Event} (h : event.Ends) :
    event.bytes = [] := by
  cases event with
  | next result => cases h; rfl
  | read remaining result => cases h.2; rfl
  | filled result => rfl
  | consumed bytes => exact h.elim

/-- In every mixed sequence of calls, the bytes that the caller gets are in
order the first ones that the body below delivers before it ends.  The end is
reported after all of them and then by every call, and after it the body below
is not polled any more. -/
theorem read_exactly_once {polls : Nat → PolledFrame} {events : List Event}
    (run : Run Step (.new ⟨polls, 0⟩) events this) :
    (∃ n, (∀ i < n, polls i ≠ .ready none) ∧
      handed events <+: delivered polls n) ∧
    (∀ i, polls i = .ready none → this.body.body.polled ≤ i + 1) ∧
    ∀ {before event after}, events = before ++ event :: after →
      event.Ends →
      (∃ n, EndsAt polls n ∧ handed before = delivered polls n) ∧
      (∀ later ∈ after, later.AfterEnd) ∧
      ∀ {call}, (∀ amt, call = .consume amt → amt = 0) →
        (this.perform 1 call).isSome := by
  obtain ⟨n, hbefore, hdelivered, _, hpolled⟩ :=
    (reading run).delivered_before_end
  refine ⟨⟨n, hbefore, hdelivered ▸ List.prefix_append _ _⟩, ?_, ?_⟩
  · intro i hnone
    have hle : n ≤ i := by
      by_contra hlt
      exact hbefore i (by omega) hnone
    omega
  · rintro before event after rfl hends
    obtain ⟨mid, first, second⟩ := run.split
    obtain ⟨next, hstep, later⟩ := second.head_step
    have hended := (reads_step hstep).ends hends
    obtain ⟨n, hn, hall⟩ := (reading (first.step hstep)).handed_all hended
    obtain ⟨hafter, hlast⟩ := ended_of_run hended later
    refine ⟨⟨n, hn, ?_⟩, hafter, fun hcall => hlast.perform_returns hcall⟩
    rw [← hall, handed_append]
    simp [handed, hends.bytes_eq_nil]

def helloPolls : Nat → PolledFrame
  | 0 => .ready (some (.ok (.data [104, 101])))
  | 1 => .ready (some (.ok (.data [])))
  | 2 => .pending
  | 3 => .ready (some (.ok (.data [108, 108, 111])))
  | 4 => .ready (some (.ok (.trailers [("etag", [49])])))
  | _ => .ready none

def helloCalls : List Call :=
  [.pollRead 1, .pollNext, .pollNext, .pollFillBuf, .pollFillBuf, .consume 1,
    .pollRead 9, .pollNext, .pollRead 1]

def helloEvents : List Event :=
  [.read 1 (.ready (.ok [104])), .next (.ready (some (.ok [101]))),
    .next (.ready (some (.ok []))), .filled .pending,
    .filled (.ready (.ok [108, 108, 111])), .consumed [108],
    .read 9 (.ready (.ok [108, 111])), .next (.ready none),
    .read 1 (.ready (.ok []))]

theorem hello_read_exactly_once :
    ∃ this, Run Step (.new ⟨helloPolls, 0⟩) helloEvents this ∧
      (∃ n, (∀ i < n, helloPolls i ≠ .ready none) ∧
        handed helloEvents <+: delivered helloPolls n) ∧
      (∀ i, helloPolls i = .ready none → this.body.body.polled ≤ i + 1) ∧
      ∀ {before event after}, helloEvents = before ++ event :: after →
        event.Ends →
        (∃ n, EndsAt helloPolls n ∧
          handed before = delivered helloPolls n) ∧
        (∀ later ∈ after, later.AfterEnd) ∧
        ∀ {call}, (∀ amt, call = .consume amt → amt = 0) →
          (this.perform 1 call).isSome := by
  have hexec : exec (perform 3) (.new ⟨helloPolls, 0⟩) helloCalls =
      some (helloEvents, ⟨⟨⟨helloPolls, 6⟩, true⟩, []⟩) := rfl
  have run : Run Step _ _ _ := exec_run (fun h => ⟨_, _, h⟩) hexec
  exact ⟨_, run, read_exactly_once run⟩

end ResponseBody

end ConjureRuntime.Service
