import ConjureRuntime.Blocking.BodyParts

/-!
# Writes through the shim

The shim takes the parts of a write one by one, and returns with the first
that is no data.  What a write has forwarded and returned, wherever each side
left it, follows from what was coming.
-/

namespace ConjureRuntime.Blocking

open ConjureRuntime.Foundation ConjureRuntime.Service

namespace WriteBody

variable {call call' : WriteBody} {event : Event} {rest last : List BodyPart}
  {ends : Bytes → Prop}

/-! ## Steps of the shim -/

section

variable {part : BodyPart} {bytes : Bytes} {channel : Channel BodyPart}

theorem Sends.receive (h : call.Sends rest last ends)
    (hqueue : call.parts.queue = .data bytes :: channel.queue)
    (hlast : ∀ part ∈ last, ∀ bytes, part ≠ .data bytes) :
    { call with
      parts := channel
      reader := .forwarding
      forwarded := call.forwarded ++ bytes }.Sends rest last ends := by
  unfold Sends at h
  rw [hqueue] at h
  exact h.receive hlast

theorem Coming.receive (h : call.Coming)
    (hqueue : call.parts.queue = .data bytes :: channel.queue) :
    { call with
      parts := channel
      reader := .forwarding
      forwarded := call.forwarded ++ bytes }.Coming := by
  have hflowing : ∀ {rest buf}, call.Flowing rest buf →
      { call with
        parts := channel
        reader := .forwarding
        forwarded := call.forwarded ++ bytes }.Flowing rest buf :=
    fun h => Sends.receive h hqueue (by simp)
  have hfinishing : ∀ {rest}, call.Finishing rest →
      { call with
        parts := channel
        reader := .forwarding
        forwarded := call.forwarded ++ bytes }.Finishing rest :=
    fun ⟨hreturned, hsends⟩ => ⟨hreturned, hsends.receive hqueue (by simp)⟩
  have hfailing : ∀ {rest}, call.Failing rest →
      { call with
        parts := channel
        reader := .forwarding
        forwarded := call.forwarded ++ bytes }.Failing rest :=
    fun ⟨e, hreturned, hsends⟩ =>
      ⟨e, hreturned, hsends.receive hqueue (by simp)⟩
  have hpending : ∀ {rest caller}, call.Pending rest caller →
      { call with
        parts := channel
        reader := .forwarding
        forwarded := call.forwarded ++ bytes }.Pending rest caller := by
    intro rest caller hpending
    cases caller with
    | write | flush | writeBytes => exact hflowing hpending
    | finish => exact hfinishing hpending
    | error => exact hfailing hpending
  unfold Coming at h ⊢
  dsimp only
  cases hwriter : call.writer with
  | waiting | writing =>
      rw [hwriter] at h
      exact hflowing h
  | sending | flushing =>
      rw [hwriter] at h
      exact hpending h
  | gone =>
      rw [hwriter] at h
      rcases h with h | h | h
      · exact .inl (hfinishing h)
      · exact .inr (.inl (hfailing h))
      · exact .inr (.inr (Sends.receive h hqueue (by simp)))

theorem Coming.cases (h : call.Coming) :
    (∃ rest buf, call.Flowing rest buf) ∨ (∃ rest, call.Finishing rest) ∨
      (∃ rest, call.Failing rest) ∨ call.Cut := by
  have hpending : ∀ {parts caller}, call.Pending parts caller →
      (∃ rest buf, call.Flowing rest buf) ∨ (∃ rest, call.Finishing rest) ∨
        (∃ rest, call.Failing rest) ∨ call.Cut := by
    intro parts caller hpending
    cases caller with
    | write | flush | writeBytes => exact .inl ⟨parts, [], hpending⟩
    | finish => exact .inr (.inl ⟨parts, hpending⟩)
    | error => exact .inr (.inr (.inl ⟨parts, hpending⟩))
  unfold Coming at h
  cases hwriter : call.writer with
  | waiting | writing =>
      rw [hwriter] at h
      exact .inl ⟨_, _, h⟩
  | sending | flushing =>
      rw [hwriter] at h
      exact hpending h
  | gone =>
      rw [hwriter] at h
      rcases h with h | h | h
      · exact .inr (.inl ⟨[], h⟩)
      · exact .inr (.inr (.inl ⟨[], h⟩))
      · exact .inr (.inr (.inr h))

theorem Sends.receive_last {queue : List BodyPart}
    (h : call.Sends rest last ends) (hqueue : call.parts.queue = part :: queue)
    (hpart : ∀ bytes, part ≠ .data bytes) :
    part ∈ last ∧ ends call.forwarded := by
  unfold Sends at h
  rw [hqueue] at h
  exact h.receive_last hpart

theorem Coming.receive_last {queue : List BodyPart} (h : call.Coming)
    (hqueue : call.parts.queue = part :: queue)
    (hpart : ∀ bytes, part ≠ .data bytes) :
    (part = .done ∧ call.returned = some (.ok ()) ∧
      call.forwarded = call.wrote) ∨
    ∃ e, part = .error e ∧ call.returned = some (.error e) := by
  rcases h.cases with ⟨rest, buf, hflowing⟩ | ⟨rest, hreturned, hsends⟩ |
    ⟨rest, e, hreturned, hsends⟩ | hcut
  · obtain ⟨hmem, -⟩ := Sends.receive_last hflowing hqueue hpart
    cases hmem
  · obtain ⟨hmem, hall⟩ := hsends.receive_last hqueue hpart
    exact .inl ⟨List.mem_singleton.mp hmem, hreturned, hall⟩
  · obtain ⟨hmem, -⟩ := hsends.receive_last hqueue hpart
    exact .inr ⟨e, List.mem_singleton.mp hmem, hreturned⟩
  · obtain ⟨hmem, -⟩ := Sends.receive_last hcut hqueue hpart
    cases hmem

end

theorem Sends.ordered (h : call.Sends rest last ends)
    (hends : ∀ sent, ends sent → sent <+: call.wrote) :
    call.forwarded <+: call.wrote := by
  obtain ⟨data, -, hsent⟩ := h
  exact (List.prefix_append _ _).trans (hends _ hsent)

theorem Coming.ordered (h : call.Coming) : call.forwarded <+: call.wrote := by
  rcases h.cases with ⟨rest, buf, hflowing⟩ | ⟨rest, -, hsends⟩ |
    ⟨rest, e, -, hsends⟩ | hcut
  · exact Sends.ordered hflowing fun _ hsent => ⟨buf, hsent⟩
  · exact hsends.ordered fun _ hsent => hsent ▸ List.prefix_rfl
  · exact hsends.ordered fun _ hsent => hsent
  · exact Sends.ordered hcut fun _ hsent => hsent

theorem Invariant.attached (h : call.Invariant)
    (hreader : ¬ call.reader.IsLeft) :
    call.parts.receiverDropped = false ∧ call.reached = none := by
  constructor
  · cases hdropped : call.parts.receiverDropped with
    | false => rfl
    | true => exact absurd (h.left.mp hdropped) hreader
  · cases hreached : call.reached with
    | none => rfl
    | some e =>
        obtain ⟨hreturned, -⟩ := h.reached e hreached
        rw [hreturned] at hreader
        exact absurd trivial hreader

theorem Invariant.abandon (h : call.Invariant)
    (hreader : ¬ call.reader.IsLeft) : (call.leave .abandoned).Invariant where
  ordered := h.ordered
  busy := h.busy
  ok hok := by cases hok
  reached e hreached := by
    rw [leave, (h.attached hreader).2] at hreached
    cases hreached
  failed e hfailed := by cases hfailed
  left := ⟨fun _ => trivial, fun _ => rfl⟩
  coming hattached := by cases hattached
  live := h.live

theorem Invariant.fail (h : call.Invariant) (hreader : ¬ call.reader.IsLeft)
    {e : Error} (he : IsShimError e) :
    (call.leave (.returned (.error e))).Invariant where
  ordered := h.ordered
  busy := h.busy
  ok hok := by cases hok
  reached e hreached := by
    rw [leave, (h.attached hreader).2] at hreached
    cases hreached
  failed e hfailed := by
    cases hfailed
    exact .inr he
  left := ⟨fun _ => trivial, fun _ => rfl⟩
  coming hattached := by cases hattached
  live := h.live

theorem Invariant.goOn (h : call.Invariant) (hreader : ¬ call.reader.IsLeft)
    {reader : Reader} (hstays : ¬ reader.IsLeft) :
    { call with reader := reader }.Invariant where
  ordered := h.ordered
  busy := h.busy
  ok hok := by
    have hreader' : reader = .returned (.ok ()) := hok
    rw [hreader'] at hstays
    exact absurd trivial hstays
  reached e hreached := by
    rw [(h.attached hreader).2] at hreached
    cases hreached
  failed e hfailed := by
    have hreader' : reader = .returned (.error e) := hfailed
    rw [hreader'] at hstays
    exact absurd trivial hstays
  left := by
    rw [(h.attached hreader).1]
    simp [hstays]
  coming := h.coming
  live := h.live

theorem Invariant.receive (h : call.Invariant)
    (hreader : call.reader = .receiving)
    (hreceive : call.receive = some (event, call')) : call'.Invariant := by
  have hstays : ¬ call.reader.IsLeft := by rw [hreader]; exact fun h => h
  obtain ⟨hattached, hreached⟩ := h.attached hstays
  have hcoming := h.coming hattached
  have hlive : ∀ {channel : Channel BodyPart},
      channel.senderDropped = call.parts.senderDropped →
      { call with parts := channel }.Live := by
    intro channel hsender
    have hlive := h.live
    unfold Live at hlive ⊢
    dsimp only
    rwa [hsender]
  rcases call.parts.pollNext_cases with
    ⟨part, queue, hqueue, channel, hpoll, hrest, -, hsender, hreceiver⟩ |
    ⟨-, hpoll⟩
  · cases part with
    | data bytes =>
        simp only [WriteBody.receive, hpoll, Option.some.injEq,
          Prod.mk.injEq] at hreceive
        obtain ⟨-, rfl⟩ := hreceive
        have hnext := hcoming.receive (hrest ▸ hqueue)
        exact {
          ordered := hnext.ordered
          busy := h.busy
          ok := fun hok => by cases hok
          reached := fun e hnone => by
            rw [hreached] at hnone
            cases hnone
          failed := fun e hfailed => by cases hfailed
          left := by
            rw [hreceiver, hattached]
            simp [Reader.IsLeft]
          coming := fun _ => hnext
          live := hlive hsender }
    | done =>
        simp only [WriteBody.receive, hpoll, returns, Option.some.injEq,
          Prod.mk.injEq] at hreceive
        obtain ⟨-, rfl⟩ := hreceive
        rcases hcoming.receive_last hqueue (by simp) with
          ⟨-, hreturned, hall⟩ | ⟨e, hpart, -⟩
        · exact {
            ordered := h.ordered
            busy := h.busy
            ok := fun _ => ⟨hreturned, hall⟩
            reached := fun e hnone => by
              rw [leave, hreached] at hnone
              cases hnone
            failed := fun e hfailed => by cases hfailed
            left := ⟨fun _ => trivial, fun _ => rfl⟩
            coming := fun hattached => by cases hattached
            live := hlive hsender }
        · cases hpart
    | error e =>
        simp only [WriteBody.receive, hpoll, returns, Option.some.injEq,
          Prod.mk.injEq] at hreceive
        obtain ⟨-, rfl⟩ := hreceive
        rcases hcoming.receive_last hqueue (by simp) with
          ⟨hpart, -⟩ | ⟨e, hpart, hreturned⟩
        · cases hpart
        · cases hpart
          exact {
            ordered := h.ordered
            busy := h.busy
            ok := fun hok => by cases hok
            reached := fun e hsome => by
              cases hsome
              exact ⟨rfl, hreturned⟩
            failed := fun e hfailed => by
              cases hfailed
              exact .inl rfl
            left := ⟨fun _ => trivial, fun _ => rfl⟩
            coming := fun hattached => by cases hattached
            live := hlive hsender }
  · cases hsender : call.parts.senderDropped with
    | true =>
        simp only [WriteBody.receive, hpoll, hsender, returns, if_true,
          Option.some.injEq, Prod.mk.injEq] at hreceive
        obtain ⟨-, rfl⟩ := hreceive
        exact h.fail hstays (.inr (.inr rfl))
    | false => simp [WriteBody.receive, hpoll, hsender] at hreceive

/-! ## Steps -/

inductive Takes (call : WriteBody) : Op → Event → WriteBody → Prop where
  | requested (reader : call.reader = .requesting) :
      Takes call .requested .proceeded { call with reader := .receiving }
  | requestFailed (error : SendError) (reader : call.reader = .requesting) :
      Takes call (.requestFailed error) (.returned (.error (sendError error)))
        (call.leave (.returned (.error (sendError error))))
  | receive {event : Event} {call' : WriteBody}
      (reader : call.reader = .receiving)
      (receives : call.receive = some (event, call')) :
      Takes call .receive event call'
  | forwarded (reader : call.reader = .forwarding) :
      Takes call (.forwardReturned (.ok ())) .proceeded
        { call with reader := .receiving }
  | forwardFailed (error : IoError) (reader : call.reader = .forwarding) :
      Takes call (.forwardReturned (.error error))
        (.returned (.error error.toError))
        (call.leave (.returned (.error error.toError)))
  | abandon (reader : ¬ call.reader.IsLeft) :
      Takes call .abandon .abandoned (call.leave .abandoned)
  | start (writer : call.writer = .waiting) :
      Takes call .start .started { call with writer := .writing [] }
  | write {buf : Bytes} (data : Bytes) {event : Event} {call' : WriteBody}
      (writer : call.writer = .writing buf)
      (writes : call.write buf data = (event, call')) :
      Takes call (.write data) event call'
  | flush {buf : Bytes} {event : Event} {call' : WriteBody}
      (writer : call.writer = .writing buf)
      (flushes : call.send .flush (flushParts buf) = (event, call')) :
      Takes call .flush event call'
  | writeBytes {buf : Bytes} (data : Bytes) {event : Event}
      {call' : WriteBody} (writer : call.writer = .writing buf)
      (writes : call.writeBytes buf data = (event, call')) :
      Takes call (.writeBytes data) event call'
  | bodyReturns {buf : Bytes} (result : Except Error Unit) {event : Event}
      {call' : WriteBody} (writer : call.writer = .writing buf)
      (returns : call.bodyReturns buf result = (event, call')) :
      Takes call (.bodyReturns result) event call'
  | feed {event : Event} {call' : WriteBody}
      (feeds : call.feed = some (event, call')) : Takes call .feed event call'
  | flushed {event : Event} {call' : WriteBody}
      (flushes : call.flushed = some (event, call')) :
      Takes call .flushed event call'
  | drop (writer : call.writer = .waiting ∨ ∃ buf, call.writer = .writing buf) :
      Takes call .drop .dropped call.close

theorem takes_of_next {op : Op} (hnext : call.next op = some (event, call')) :
    Takes call op event call' := by
  cases op with
  | requested =>
      simp only [next] at hnext
      split at hnext
      next hreader =>
        cases hnext
        exact .requested hreader
      next => cases hnext
  | requestFailed error =>
      simp only [next] at hnext
      split at hnext
      next hreader =>
        cases hnext
        exact .requestFailed error hreader
      next => cases hnext
  | receive =>
      simp only [next] at hnext
      split at hnext
      next hreader => exact .receive hreader hnext
      next => cases hnext
  | forwardReturned result =>
      simp only [next] at hnext
      split at hnext
      next hreader =>
        cases result with
        | ok =>
            cases hnext
            exact .forwarded hreader
        | error error =>
            cases hnext
            exact .forwardFailed error hreader
      next => cases hnext
  | abandon =>
      simp only [next] at hnext
      split at hnext
      case h_4 | h_5 => cases hnext
      all_goals
        rename_i hreader
        cases hnext
        exact .abandon (by rw [hreader]; exact id)
  | start =>
      simp only [next] at hnext
      split at hnext
      next hwriter =>
        cases hnext
        exact .start hwriter
      next => cases hnext
  | write data =>
      simp only [next] at hnext
      split at hnext
      next hwriter => exact .write data hwriter (Option.some.inj hnext)
      next => cases hnext
  | flush =>
      simp only [next] at hnext
      split at hnext
      next hwriter => exact .flush hwriter (Option.some.inj hnext)
      next => cases hnext
  | writeBytes data =>
      simp only [next] at hnext
      split at hnext
      next hwriter => exact .writeBytes data hwriter (Option.some.inj hnext)
      next => cases hnext
  | bodyReturns result =>
      simp only [next] at hnext
      split at hnext
      next hwriter =>
        exact .bodyReturns result hwriter (Option.some.inj hnext)
      next => cases hnext
  | feed => exact .feed hnext
  | flushed => exact .flushed hnext
  | drop =>
      simp only [next] at hnext
      split at hnext
      next hwriter =>
        cases hnext
        exact .drop (.inl hwriter)
      next hwriter =>
        cases hnext
        exact .drop (.inr ⟨_, hwriter⟩)
      next => cases hnext

theorem receive_moves (hreceive : call.receive = some (event, call')) :
    call'.writer = call.writer ∧
      ((∃ result, event = .returned result ∧
          call'.reader = .returned result) ∨
        (∃ bytes, event = .forwarded bytes ∧ call'.reader = .forwarding)) := by
  unfold receive at hreceive
  split at hreceive
  · cases hreceive
  · cases hreceive
    exact ⟨rfl, .inr ⟨_, rfl, rfl⟩⟩
  · cases hreceive
    exact ⟨rfl, .inl ⟨_, rfl, rfl⟩⟩
  · cases hreceive
    exact ⟨rfl, .inl ⟨_, rfl, rfl⟩⟩
  · cases hreceive
    exact ⟨rfl, .inl ⟨_, rfl, rfl⟩⟩

theorem Invariant.step (h : call.Invariant)
    (hstep : Step call event call') : call'.Invariant := by
  obtain ⟨op, hnext⟩ := hstep
  cases takes_of_next hnext with
  | requested hreader | forwarded hreader =>
      exact h.goOn (by rw [hreader]; exact id) id
  | requestFailed error hreader =>
      exact h.fail (by rw [hreader]; exact id) (.inl ⟨error, rfl⟩)
  | receive hreader hreceive => exact h.receive hreader hreceive
  | forwardFailed error hreader =>
      exact h.fail (by rw [hreader]; exact id) (.inr (.inl ⟨error, rfl⟩))
  | abandon hreader => exact h.abandon hreader
  | start hwriter => exact h.start hwriter
  | write data hwriter hwrites =>
      have hinv := h.write hwriter data
      rwa [hwrites] at hinv
  | flush hwriter hflushes =>
      have hinv := h.flush hwriter
      rwa [hflushes] at hinv
  | writeBytes data hwriter hwrites =>
      have hinv := h.writeBytes hwriter data
      rwa [hwrites] at hinv
  | bodyReturns result hwriter hreturns =>
      have hinv := h.bodyReturns hwriter result
      rwa [hreturns] at hinv
  | feed hfeed => exact h.feed hfeed
  | flushed hflushed => exact h.flushed hflushed
  | drop hwriter => exact h.close hwriter

end WriteBody

end ConjureRuntime.Blocking
