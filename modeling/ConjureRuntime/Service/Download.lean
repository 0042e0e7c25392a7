import ConjureRuntime.Service.GzipDelivery
import ConjureRuntime.Service.ResponseBody

/-!
# Reading a response to its end

The body that the caller reads polls the one that decodes, and that polls the
one from the connection.  A read that comes to the end without an error has
got the whole content, whatever the frames are; a body that breaks off or is
damaged is read with an error.
-/

namespace ConjureRuntime.Service

open ConjureRuntime.Foundation Gzip

/-- The polls of a body from a connection, which delivers chunks of data until
it fails. -/
inductive Gzip.Breaks : List (Poll (Except Cause Frame) × Bool) → Prop where
  | pending {polls isEndStream} :
      Breaks polls → Breaks ((.pending, isEndStream) :: polls)
  | data {polls chunk} :
      Breaks polls → Breaks ((.ready (.ok (.data chunk)), false) :: polls)
  | error {e isEndStream} : Breaks [(.ready (.error e), isEndStream)]

def Gzip.Conforms (polls : List (Poll (Except Cause Frame) × Bool)) : Prop :=
  Breaks polls ∨ ∃ chunks trailers, Delivers polls chunks trailers

def IsError (polled : PolledFrame) : Prop :=
  ∃ e, polled = .ready (some (.error e))

theorem delivered_cons (polls : Nat → PolledFrame) (n : Nat) :
    delivered polls (n + 1) =
      dataOf (polls 0) ++ delivered (fun i => polls (i + 1)) n := by
  induction n with
  | zero => simp [delivered]
  | succ n ih => rw [delivered, ih, delivered, List.append_assoc]

/-! ## The polls of the decoding body -/

namespace Gzip.DecodedBody

variable {δ : Type} {gz : GzDecoder δ} {this this' : DecodedBody δ}

def polls (gz : GzDecoder δ) : DecodedBody δ → Nat → PolledFrame
  | this, 0 => (this.pollFrame gz).1
  | this, n + 1 => polls gz (this.pollFrame gz).2 n

structure EndsCleanly (gz : GzDecoder δ) (this : DecodedBody δ) (n : Nat) :
    Prop where
  ends : EndsAt (this.polls gz) n
  clean : ∀ i < n, ¬ IsError (this.polls gz i)

theorem delivered_succ (n : Nat) :
    delivered (this.polls gz) (n + 1) =
      dataOf (this.pollFrame gz).1 ++
        delivered ((this.pollFrame gz).2.polls gz) n :=
  delivered_cons _ n

theorem EndsCleanly.cases {n : Nat} (h : EndsCleanly gz this n)
    {polled : PolledFrame} (hpoll : this.pollFrame gz = (polled, this')) :
    (n = 0 ∧ polled = .ready none) ∨
    ∃ m, n = m + 1 ∧ ¬ IsError polled ∧ polled ≠ .ready none ∧
      EndsCleanly gz this' m := by
  have hfirst : this.polls gz 0 = polled := congrArg Prod.fst hpoll
  have hlater : ∀ i, this.polls gz (i + 1) = this'.polls gz i := by
    intro i
    rw [polls, hpoll]
  cases n with
  | zero => exact .inl ⟨rfl, hfirst ▸ h.ends.1⟩
  | succ m =>
      refine .inr ⟨m, rfl, hfirst ▸ h.clean 0 (Nat.succ_pos m),
        hfirst ▸ h.ends.2 0 (Nat.succ_pos m), ⟨⟨?_, ?_⟩, ?_⟩⟩
      · exact (hlater m).symm.trans h.ends.1
      · intro i hi
        rw [← hlater]
        exact h.ends.2 (i + 1) (Nat.succ_lt_succ hi)
      · intro i hi
        rw [← hlater]
        exact h.clean (i + 1) (Nat.succ_lt_succ hi)

theorem EndsCleanly.of_pollFrame_eq {n : Nat} (h : EndsCleanly gz this n)
    (hsame : this.pollFrame gz = this'.pollFrame gz) :
    EndsCleanly gz this' n ∧
      delivered (this.polls gz) n = delivered (this'.polls gz) n := by
  have hpolls : this.polls gz = this'.polls gz := by
    funext i
    cases i with
    | zero => exact congrArg Prod.fst hsame
    | succ i => rw [polls, polls, hsame]
  refine ⟨⟨hpolls ▸ h.ends, hpolls ▸ h.clean⟩, by rw [hpolls]⟩

theorem EndsCleanly.not_error {n : Nat} (h : EndsCleanly gz this n) :
    ¬ IsError (this.pollFrame gz).1 := by
  rintro ⟨e, hpoll⟩
  rcases h.cases rfl with ⟨-, hnone⟩ | ⟨m, -, hclean, -⟩
  · rw [hpoll] at hnone
    cases hnone
  · exact hclean ⟨e, hpoll⟩

theorem EndsCleanly.goesOn {n : Nat} (h : EndsCleanly gz this n)
    {polled : PolledFrame} (hpoll : this.pollFrame gz = (polled, this'))
    (hmore : polled ≠ .ready none) :
    ∃ m, EndsCleanly gz this' m ∧
      delivered (this.polls gz) n =
        dataOf polled ++ delivered (this'.polls gz) m := by
  rcases h.cases hpoll with ⟨-, hnone⟩ | ⟨m, rfl, -, -, hrest⟩
  · exact absurd hnone hmore
  · exact ⟨m, hrest, by rw [delivered_succ, hpoll]⟩

theorem EndsCleanly.stops {n : Nat} (h : EndsCleanly gz this n)
    (hpoll : this.pollFrame gz = (.ready none, this')) :
    delivered (this.polls gz) n = [] := by
  rcases h.cases hpoll with ⟨rfl, -⟩ | ⟨m, -, -, hmore, -⟩
  · rfl
  · exact absurd rfl hmore

/-! ## Plain bodies -/

variable {polls : List (Poll (Except Cause Frame) × Bool)} {body : Body}
  {isEndStream : Bool} {n : Nat}

theorem endsCleanly_nil
    (h : EndsCleanly gz ⟨⟨[], isEndStream⟩, .done⟩ n) :
    delivered ((⟨⟨[], isEndStream⟩, .done⟩ : DecodedBody δ).polls gz) n =
      [] := h.stops pollFrame_done

theorem plain_breaks (hbreaks : Breaks polls) :
    ¬ EndsCleanly gz ⟨⟨polls, isEndStream⟩, .done⟩ n := by
  intro h
  induction hbreaks generalizing isEndStream n with
  | pending _ ih | data _ ih =>
      obtain ⟨m, hrest, -⟩ := h.goesOn pollFrame_done (by simp [Body.pollFrame])
      exact ih hrest
  | @error e =>
      refine h.not_error ⟨e, ?_⟩
      rw [pollFrame_done]
      rfl

theorem plain_delivers {chunks : List (List UInt8)}
    {trailers : Option HeaderMap} (hdelivers : Delivers polls chunks trailers)
    (h : EndsCleanly gz ⟨⟨polls, isEndStream⟩, .done⟩ n) :
    delivered ((⟨⟨polls, isEndStream⟩, .done⟩ : DecodedBody δ).polls gz) n =
      chunks.flatten := by
  induction hdelivers generalizing isEndStream n with
  | none => exact endsCleanly_nil h
  | pending _ ih | data _ ih =>
      obtain ⟨m, hrest, hdata⟩ :=
        h.goesOn pollFrame_done (by simp [Body.pollFrame])
      rw [hdata]
      have hlater := ih hrest
      simpa [Body.pollFrame, dataOf] using hlater
  | last | trailers =>
      obtain ⟨m, hrest, hdata⟩ :=
        h.goesOn pollFrame_done (by simp [Body.pollFrame])
      have hnothing := endsCleanly_nil hrest
      rw [hdata]
      simpa [Body.pollFrame, dataOf] using hnothing

/-! ## Decompressed bodies -/

variable {decoder : δ}

theorem EndsCleanly.written {chunk : List UInt8} {isEndStream' : Bool}
    (h : EndsCleanly gz ⟨⟨(.ready (.ok (.data chunk)), isEndStream') :: polls,
      isEndStream⟩, .decompressing decoder⟩ n) :
    ∃ written, gz.writeAll decoder chunk = .ok written := by
  cases hwrite : gz.writeAll decoder chunk with
  | ok written => exact ⟨written, rfl⟩
  | error e =>
      refine absurd ⟨e, ?_⟩ h.not_error
      rw [pollFrame]
      simp only [Body.pollFrame, Frame.dataRef, hwrite]

theorem EndsCleanly.flushed {chunk : List UInt8} {written : δ}
    (h : EndsCleanly gz ⟨⟨(.ready (.ok (.data chunk)), false) :: polls,
      isEndStream⟩, .decompressing decoder⟩ n)
    (hwrite : gz.writeAll decoder chunk = .ok written) :
    ∃ flushed, gz.flush written = .ok flushed := by
  cases hflush : gz.flush written with
  | ok flushed => exact ⟨flushed, rfl⟩
  | error e =>
      refine absurd ⟨e, ?_⟩ h.not_error
      rw [pollFrame]
      simp only [Body.pollFrame, Frame.dataRef, hwrite, hflush,
        Bool.false_eq_true, if_false]

theorem EndsCleanly.finished_last {chunk : List UInt8} {written : δ}
    (h : EndsCleanly gz ⟨⟨(.ready (.ok (.data chunk)), true) :: polls,
      isEndStream⟩, .decompressing decoder⟩ n)
    (hwrite : gz.writeAll decoder chunk = .ok written) :
    ∃ finished, gz.tryFinish written = .ok finished := by
  cases hfinish : gz.tryFinish written with
  | ok finished => exact ⟨finished, rfl⟩
  | error e =>
      refine absurd ⟨e, ?_⟩ h.not_error
      rw [pollFrame]
      simp only [Body.pollFrame, Frame.dataRef, hwrite, hfinish, if_true]

theorem EndsCleanly.finished
    (h : EndsCleanly gz ⟨⟨polls, isEndStream⟩, .decompressing decoder⟩ n)
    (hpolls : polls = [] ∨ ∃ trailers isEndStream' later,
      polls = (.ready (.ok (.trailers trailers)), isEndStream') :: later) :
    ∃ finished, gz.tryFinish decoder = .ok finished := by
  cases hfinish : gz.tryFinish decoder with
  | ok finished => exact ⟨finished, rfl⟩
  | error e =>
      refine absurd ⟨e, ?_⟩ h.not_error
      rcases hpolls with rfl | ⟨trailers, isEndStream', later, rfl⟩ <;>
        rw [pollFrame] <;>
        simp only [Body.pollFrame, Frame.dataRef, hfinish]

theorem EndsCleanly.data {chunk : List UInt8}
    (h : EndsCleanly gz ⟨⟨(.ready (.ok (.data chunk)), false) :: polls,
      isEndStream⟩, .decompressing decoder⟩ n) :
    ∃ written flushed m, gz.writeAll decoder chunk = .ok written ∧
      gz.flush written = .ok flushed ∧
      EndsCleanly gz ⟨⟨polls, false⟩, .decompressing (gz.split flushed)⟩ m ∧
      delivered (DecodedBody.polls gz
        ⟨⟨(.ready (.ok (.data chunk)), false) :: polls, isEndStream⟩,
          .decompressing decoder⟩) n =
        gz.buffer flushed ++ delivered (DecodedBody.polls gz
          ⟨⟨polls, false⟩, .decompressing (gz.split flushed)⟩) m := by
  obtain ⟨written, hwrite⟩ := h.written
  obtain ⟨flushed, hflush⟩ := h.flushed hwrite
  refine ⟨written, flushed, ?_⟩
  by_cases hempty : gz.buffer flushed = []
  · obtain ⟨hrest, hsame⟩ := h.of_pollFrame_eq
      ((pollFrame_data hwrite hflush).trans (if_pos hempty))
    exact ⟨n, hwrite, hflush, hrest, by rw [hsame, hempty, List.nil_append]⟩
  · obtain ⟨m, hrest, hdata⟩ := h.goesOn
      ((pollFrame_data hwrite hflush).trans (if_neg hempty)) (by simp)
    exact ⟨m, hwrite, hflush, hrest, hdata⟩

theorem decompressed_breaks (hbreaks : Breaks polls) :
    ¬ EndsCleanly gz ⟨⟨polls, isEndStream⟩, .decompressing decoder⟩ n := by
  intro h
  induction hbreaks generalizing isEndStream decoder n with
  | pending _ ih =>
      obtain ⟨m, hrest, -⟩ := h.goesOn pollFrame_pending (by simp)
      exact ih hrest
  | data _ ih =>
      obtain ⟨written, flushed, m, -, -, hrest, -⟩ := h.data
      exact ih hrest
  | @error e =>
      refine h.not_error ⟨e, ?_⟩
      rw [pollFrame]
      rfl

theorem EndsCleanly.finishes {ended : DecodedBody δ} {data : List UInt8}
    (h : EndsCleanly gz this n)
    (hpoll : this.pollFrame gz =
      if data = [] then (.ready none, ended)
      else (.ready (some (.ok (.data data))), ended))
    (hended : ∀ {m}, EndsCleanly gz ended m →
      delivered (ended.polls gz) m = []) :
    delivered (this.polls gz) n = data := by
  by_cases hempty : data = []
  · rw [if_pos hempty] at hpoll
    rw [h.stops hpoll, hempty]
  · rw [if_neg hempty] at hpoll
    obtain ⟨m, hrest, hdata⟩ := h.goesOn hpoll (by simp)
    rw [hdata, hended hrest, List.append_nil]
    rfl

theorem decompressed_delivers (hsound : gz.Sound)
    {chunks : List (List UInt8)} {trailers : Option HeaderMap}
    (hdelivers : Delivers polls chunks trailers)
    {input taken : List UInt8} (hreaches : gz.Reaches input taken decoder)
    (h : EndsCleanly gz ⟨⟨polls, isEndStream⟩, .decompressing decoder⟩ n) :
    gz.Accepts (input ++ chunks.flatten) (taken ++ delivered
      (DecodedBody.polls gz
        ⟨⟨polls, isEndStream⟩, .decompressing decoder⟩) n) := by
  induction hdelivers generalizing input taken decoder isEndStream n with
  | none =>
      obtain ⟨finished, hfinish⟩ := h.finished (.inl rfl)
      rw [h.finishes (pollFrame_none hfinish) endsCleanly_nil]
      simpa using hsound hreaches hfinish
  | pending _ ih =>
      obtain ⟨m, hrest, hdata⟩ := h.goesOn pollFrame_pending (by simp)
      rw [hdata]
      exact ih hreaches hrest
  | @data polls chunks trailers chunk _ ih =>
      obtain ⟨written, flushed, m, hwrite, hflush, hrest, hdata⟩ := h.data
      have hreached := ((hreaches.writeAll hwrite).flush hflush).split
      have haccepts := ih hreached hrest
      rw [hdata]
      simpa using haccepts
  | @last chunk =>
      obtain ⟨written, hwrite⟩ := h.written
      obtain ⟨finished, hfinish⟩ := h.finished_last hwrite
      rw [h.finishes (pollFrame_lastData hwrite hfinish) endsCleanly_nil]
      simpa using hsound (hreaches.writeAll hwrite) hfinish
  | @trailers trailers isEndStream' =>
      obtain ⟨finished, hfinish⟩ := h.finished (.inr ⟨_, _, _, rfl⟩)
      have haccepts := hsound hreaches hfinish
      rw [List.flatten_nil, List.append_nil]
      by_cases hempty : gz.buffer finished = []
      · obtain ⟨m, hrest, hdata⟩ := h.goesOn
          ((pollFrame_trailers hfinish).trans (if_pos hempty)) (by simp)
        rw [hempty] at haccepts
        rwa [hdata, endsCleanly_nil hrest]
      · obtain ⟨m, hrest, hdata⟩ := h.goesOn
          ((pollFrame_trailers hfinish).trans (if_neg hempty)) (by simp)
        obtain ⟨m', hlast, htrailers⟩ :=
          hrest.goesOn pollFrame_last (by simp)
        rw [hdata, htrailers, endsCleanly_nil hlast, List.append_nil]
        simpa [dataOf] using haccepts

/-! ## Bodies that deliver everything -/

theorem Ended.polls_eq (h : Ended gz this) (i : Nat) :
    this.polls gz i = .ready none := by
  induction i generalizing this with
  | zero =>
      have run : Run (Step gz) this [(this.pollFrame gz).1]
          (this.pollFrame gz).2 := .step .refl rfl
      exact (List.cons.inj (h run)).1
  | succ i ih =>
      refine ih fun {polled last} run => ?_
      have first : Run (Step gz) this [(this.pollFrame gz).1]
          (this.pollFrame gz).2 := .step .refl rfl
      exact (List.cons.inj (h (first.trans run))).2

theorem Emits.polls_eq {emitted : List PolledFrame} (h : Emits gz this emitted)
    (i : Nat) : this.polls gz i = (emitted[i]?).getD (.ready none) := by
  induction h generalizing i with
  | ended hended => simpa using hended.polls_eq i
  | poll hpoll _ ih =>
      cases i with
      | zero => exact congrArg Prod.fst hpoll
      | succ i =>
          rw [DecodedBody.polls, hpoll]
          simpa using ih i

theorem emits_plain {chunks : List (List UInt8)}
    {trailers : Option HeaderMap} (hdelivers : Delivers polls chunks trailers)
    (isEndStream : Bool) :
    ∃ emitted, Emits gz ⟨⟨polls, isEndStream⟩, .done⟩ emitted ∧
      Delivered emitted chunks trailers := by
  induction hdelivers generalizing isEndStream with
  | none => exact ⟨[], .ended ended_done, .ended⟩
  | @pending polls chunks trailers isEndStream' _ ih =>
      obtain ⟨emitted, hemits, hdelivered⟩ := ih isEndStream'
      exact ⟨_, .poll pollFrame_done hemits, .pending hdelivered⟩
  | data _ ih =>
      obtain ⟨emitted, hemits, hdelivered⟩ := ih false
      exact ⟨_, .poll pollFrame_done hemits, .data hdelivered⟩
  | last => exact ⟨_, .poll pollFrame_done (.ended ended_done), .data .ended⟩
  | trailers =>
      exact ⟨_, .poll pollFrame_done (.ended ended_done), .trailers⟩

end Gzip.DecodedBody

namespace Gzip.Delivered

variable {emitted : List PolledFrame} {data : List (List UInt8)}
  {trailers : Option HeaderMap}

theorem polled (h : Delivered emitted data trailers) (i : Nat) :
    ¬ IsError ((emitted[i]?).getD (.ready none)) ∧
      (i < emitted.length →
        (emitted[i]?).getD (.ready none) ≠ .ready none) := by
  induction h generalizing i with
  | ended => exact ⟨(by rintro ⟨e, h⟩; cases h), by simp⟩
  | pending _ ih | data _ ih =>
      cases i with
      | zero => exact ⟨(by rintro ⟨e, h⟩; cases h), by simp⟩
      | succ i => simpa using ih i
  | trailers =>
      cases i with
      | zero => exact ⟨(by rintro ⟨e, h⟩; cases h), by simp⟩
      | succ i => exact ⟨(by rintro ⟨e, h⟩; cases h), by simp⟩

@[simp] theorem nothing_later (n : Nat) :
    delivered (fun _ => .ready none) n = [] := by
  induction n with
  | zero => rfl
  | succ n ih => rw [delivered, ih]; rfl

theorem delivered_prefix (h : Delivered emitted data trailers) (n : Nat) :
    delivered (fun i => (emitted[i]?).getD (.ready none)) n <+:
      data.flatten ∧
    (emitted.length ≤ n →
      delivered (fun i => (emitted[i]?).getD (.ready none)) n =
        data.flatten) := by
  induction h generalizing n with
  | ended =>
      have hnothing := nothing_later n
      simp only [List.getElem?_nil, Option.getD_none]
      rw [hnothing]
      exact ⟨List.nil_prefix, fun _ => rfl⟩
  | pending _ ih =>
      cases n with
      | zero => exact ⟨List.nil_prefix, by simp⟩
      | succ n =>
          rw [delivered_cons]
          simpa [dataOf] using ih n
  | data _ ih =>
      cases n with
      | zero => exact ⟨List.nil_prefix, by simp⟩
      | succ n =>
          rw [delivered_cons]
          simpa [dataOf] using ih n
  | trailers =>
      cases n with
      | zero => exact ⟨List.nil_prefix, by simp⟩
      | succ n =>
          rw [delivered_cons]
          simp [dataOf]

end Gzip.Delivered

/-! ## Errors are reported -/

def PolledBetween (body body' : BaseBody) (i : Nat) : Prop :=
  body.polled ≤ i ∧ i < body'.polled

theorem not_polledBetween {body : BaseBody} {i : Nat} :
    ¬ PolledBetween body body i := fun h =>
  absurd (Nat.lt_of_le_of_lt h.1 h.2) (Nat.lt_irrefl _)

theorem PolledBetween.split {body body' : BaseBody} {i : Nat}
    (h : PolledBetween body body' i) (mid : BaseBody) :
    PolledBetween body mid i ∨ PolledBetween mid body' i := by
  by_cases hlt : i < mid.polled
  · exact .inl ⟨h.1, hlt⟩
  · exact .inr ⟨Nat.not_lt.mp hlt, h.2⟩

theorem FuseBody.pollFrame_errors {this this' : FuseBody}
    {polled : PolledFrame} (h : this.pollFrame = (polled, this')) :
    this'.body.polls = this.body.polls ∧
      ∀ i, PolledBetween this.body this'.body i →
        IsError (this.body.polls i) → IsError polled := by
  unfold FuseBody.pollFrame at h
  split at h
  · cases h
    exact ⟨rfl, fun i hi => absurd hi not_polledBetween⟩
  · have hone : ∀ i, PolledBetween this.body
        { this.body with polled := this.body.polled + 1 } i →
        i = this.body.polled := fun i hi =>
      Nat.le_antisymm (Nat.lt_succ_iff.mp hi.2) hi.1
    cases hframe : this.body.polls this.body.polled <;>
      simp only [BaseBody.pollFrame, hframe] at h <;> cases h <;>
      refine ⟨rfl, fun i hi herror => ?_⟩ <;>
      rwa [hone i hi, hframe] at herror

theorem FuseBody.pollFrame_failed {this this' : FuseBody} {e : Cause}
    (h : this.pollFrame = (.ready (some (.error e)), this')) :
    ∃ i, IsError (this.body.polls i) := by
  unfold FuseBody.pollFrame at h
  split at h
  · cases h
  · refine ⟨this.body.polled, e, ?_⟩
    cases hframe : this.body.polls this.body.polled <;>
      simp only [BaseBody.pollFrame, hframe] at h <;> cases h
    rfl

namespace ResponseBody

variable {this this' : ResponseBody} {fuel : Nat}

def Event.Fails : Event → Prop
  | .next result => ∃ e, result = .ready (some (.error e))
  | .read _ result => ∃ e, result = .ready (.error e)
  | .filled result => ∃ e, result = .ready (.error e)
  | .consumed _ => False

theorem nextData_errors {body body' : FuseBody}
    {next : Poll (Option (Except Error Bytes))}
    (h : nextData fuel body = some (next, body')) {i : Nat}
    (hi : PolledBetween body.body body'.body i)
    (herror : IsError (body.body.polls i)) :
    ∃ e, next = .ready (some (.error e)) := by
  induction fuel generalizing body with
  | zero => cases h
  | succ fuel ih =>
      unfold nextData at h
      cases hpoll : body.pollFrame with
      | mk polled mid =>
          obtain ⟨hpolls, herrors⟩ := FuseBody.pollFrame_errors hpoll
          simp only [hpoll] at h
          rcases polled with _ | (_ | (e | (data | trailers)))
          · cases h
            obtain ⟨e, he⟩ := herrors i hi herror
            cases he
          · cases h
            obtain ⟨e, he⟩ := herrors i hi herror
            cases he
          · cases h
            exact ⟨_, rfl⟩
          · cases h
            obtain ⟨e, he⟩ := herrors i hi herror
            cases he
          · rcases hi.split mid.body with hfirst | hlater
            · obtain ⟨e, he⟩ := herrors i hfirst herror
              cases he
            · exact ih h hlater (hpolls ▸ herror)

theorem pollFillBuf_errors {filled : Poll (Except ReadError Bytes)}
    (h : this.pollFillBuf fuel = some (filled, this')) {i : Nat}
    (hi : PolledBetween this.body.body this'.body.body i)
    (herror : IsError (this.body.body.polls i)) :
    ∃ e, filled = .ready (.error e) := by
  induction fuel generalizing this with
  | zero => cases h
  | succ fuel ih =>
      unfold pollFillBuf at h
      split at h
      · cases h
        exact absurd hi not_polledBetween
      · cases hpoll : this.body.pollFrame with
        | mk polled mid =>
            obtain ⟨hpolls, herrors⟩ := FuseBody.pollFrame_errors hpoll
            simp only [hpoll] at h
            rcases polled with _ | (_ | (e | (data | trailers)))
            · cases h
              obtain ⟨e, he⟩ := herrors i hi herror
              cases he
            · cases h
              obtain ⟨e, he⟩ := herrors i hi herror
              cases he
            · cases h
              exact ⟨_, rfl⟩
            all_goals
              rcases hi.split mid.body with hfirst | hlater
              · obtain ⟨e, he⟩ := herrors i hfirst herror
                cases he
              · exact ih h hlater (hpolls ▸ herror)

theorem consume_body {amt : Nat} (h : this.consume amt = some this') :
    this'.body = this.body := by
  unfold consume at h
  split at h <;> cases h
  rfl

theorem step_polls {event : Event} (h : this.Step event this') :
    (this'.body = this.body ∧ ¬ event.Fails) ∨
    (∃ fuel next, nextData fuel this.body = some (next, this'.body) ∧
      (event.Fails ↔ ∃ e, next = .ready (some (.error e)))) ∨
    (∃ fuel filled mid, this.pollFillBuf fuel = some (filled, mid) ∧
      this'.body = mid.body ∧
      (event.Fails ↔ ∃ e, filled = .ready (.error e))) := by
  obtain ⟨fuel, call, h⟩ := h
  cases call with
  | pollNext =>
      obtain ⟨⟨result, next⟩, hcall, heq⟩ := Option.map_eq_some_iff.mp h
      cases heq
      unfold pollNext at hcall
      split at hcall
      · cases hcall
        refine .inl ⟨rfl, ?_⟩
        rintro ⟨e, he⟩
        cases he
      · cases hnext : nextData fuel this.body with
        | none => simp [hnext] at hcall
        | some result' =>
            simp only [hnext] at hcall
            cases hcall
            exact .inr (.inl ⟨fuel, _, hnext, Iff.rfl⟩)
  | pollRead remaining =>
      obtain ⟨⟨result, next⟩, hcall, heq⟩ := Option.map_eq_some_iff.mp h
      cases heq
      unfold pollRead at hcall
      cases hfill : this.pollFillBuf fuel with
      | none => simp [hfill] at hcall
      | some filled =>
          obtain ⟨filled, mid⟩ := filled
          refine .inr (.inr ⟨fuel, filled, mid, hfill, ?_⟩)
          simp only [hfill] at hcall
          rcases filled with _ | (e | inBuf)
          · cases hcall
            simp [Event.Fails]
          · cases hcall
            simp [Event.Fails]
          · cases hconsume : mid.consume (min inBuf.length remaining) with
            | none => simp [hconsume] at hcall
            | some last =>
                simp only [hconsume] at hcall
                cases hcall
                simp [Event.Fails, consume_body hconsume]
  | pollFillBuf =>
      obtain ⟨⟨result, next⟩, hcall, heq⟩ := Option.map_eq_some_iff.mp h
      cases heq
      exact .inr (.inr ⟨fuel, _, _, hcall, rfl, Iff.rfl⟩)
  | consume amt =>
      obtain ⟨next, hcall, heq⟩ := Option.map_eq_some_iff.mp h
      cases heq
      exact .inl ⟨consume_body hcall, not_false⟩

theorem step_errors {event : Event} (h : this.Step event this') {i : Nat}
    (hi : PolledBetween this.body.body this'.body.body i)
    (herror : IsError (this.body.body.polls i)) : event.Fails := by
  rcases step_polls h with
    ⟨hbody, -⟩ | ⟨fuel, next, hnext, hfails⟩ |
      ⟨fuel, filled, mid, hfill, hbody, hfails⟩
  · rw [hbody] at hi
    exact absurd hi not_polledBetween
  · exact hfails.mpr (nextData_errors hnext hi herror)
  · rw [hbody] at hi
    exact hfails.mpr (pollFillBuf_errors hfill hi herror)

theorem nextData_failed {body body' : FuseBody} {e : Error}
    (h : nextData fuel body = some (.ready (some (.error e)), body')) :
    ∃ i, IsError (body.body.polls i) := by
  induction fuel generalizing body with
  | zero => cases h
  | succ fuel ih =>
      unfold nextData at h
      cases hpoll : body.pollFrame with
      | mk polled mid =>
          simp only [hpoll] at h
          rcases polled with _ | (_ | (e | (data | trailers)))
          · cases h
          · cases h
          · exact FuseBody.pollFrame_failed hpoll
          · cases h
          · rw [← (FuseBody.pollFrame_errors hpoll).1]
            exact ih h

theorem pollFillBuf_failed {e : ReadError}
    (h : this.pollFillBuf fuel = some (.ready (.error e), this')) :
    ∃ i, IsError (this.body.body.polls i) := by
  induction fuel generalizing this with
  | zero => cases h
  | succ fuel ih =>
      unfold pollFillBuf at h
      split at h
      · cases h
      · cases hpoll : this.body.pollFrame with
        | mk polled mid =>
            simp only [hpoll] at h
            rcases polled with _ | (_ | (e | (data | trailers)))
            · cases h
            · cases h
            · exact FuseBody.pollFrame_failed hpoll
            all_goals
              rw [← (FuseBody.pollFrame_errors hpoll).1]
              exact ih h

theorem step_failed {event : Event} (h : this.Step event this')
    (hfails : event.Fails) : ∃ i, IsError (this.body.body.polls i) := by
  rcases step_polls h with
    ⟨-, hnot⟩ | ⟨fuel, next, hnext, hiff⟩ |
      ⟨fuel, filled, mid, hfill, -, hiff⟩
  · exact absurd hfails hnot
  · obtain ⟨e, rfl⟩ := hiff.mp hfails
    exact nextData_failed hnext
  · obtain ⟨e, rfl⟩ := hiff.mp hfails
    exact pollFillBuf_failed hfill

theorem never_fails {polls : Nat → PolledFrame} {events : List Event}
    (run : Run Step (.new ⟨polls, 0⟩) events this)
    (hclean : ∀ i, ¬ IsError (polls i)) :
    ∀ event ∈ events, ¬ event.Fails := by
  induction run with
  | refl => simp
  | @step events this this' event run hstep ih =>
      intro event' hmem hfails
      rcases List.mem_append.mp hmem with hbefore | hlast
      · exact ih event' hbefore hfails
      · rw [List.mem_singleton.mp hlast] at hfails
        obtain ⟨i, herror⟩ := step_failed hstep hfails
        rw [(reading run).samePolls] at herror
        exact hclean i herror

theorem no_error_polled {polls : Nat → PolledFrame} {events : List Event}
    (run : Run Step (.new ⟨polls, 0⟩) events this)
    (hquiet : ∀ event ∈ events, ¬ event.Fails) :
    ∀ i < this.body.body.polled, ¬ IsError (polls i) := by
  induction run with
  | refl => exact fun i hi => absurd hi (Nat.not_lt_zero i)
  | @step events this this' event run hstep ih =>
      intro i hi herror
      have hbefore : ∀ event ∈ events, ¬ event.Fails := fun event hmem =>
        hquiet event (List.mem_append_left _ hmem)
      rcases Nat.lt_or_ge i this.body.body.polled with hlt | hge
      · exact ih hbefore i hlt herror
      · refine hquiet event (by simp) (step_errors hstep ⟨hge, hi⟩ ?_)
        rw [(reading run).samePolls]
        exact herror

/-! ## Clean ends -/

theorem endsCleanly_of_quiet {δ : Type} {gz : GzDecoder δ}
    {start : DecodedBody δ} {events : List Event}
    (run : Run Step (.new ⟨start.polls gz, 0⟩) events this)
    (hquiet : ∀ event ∈ events, ¬ event.Fails) (hended : this.Ended) :
    ∃ n, start.EndsCleanly gz n ∧
      handed events = delivered (start.polls gz) n := by
  have hreading := reading run
  obtain ⟨n, hends, hall⟩ := hreading.handed_all hended
  refine ⟨n, ⟨hends, fun i hi => no_error_polled run hquiet i ?_⟩, hall⟩
  have hfused := hreading.fused
  rw [FuseBody.Fused, if_pos hended.1, hreading.samePolls] at hfused
  obtain ⟨last, hlast, hnone, hbefore⟩ := hfused
  have hle : n ≤ last := by
    by_contra hlt
    exact hends.2 last (Nat.not_le.mp hlt) hnone
  omega

theorem Event.Ends.not_fails {event : Event} (h : event.Ends) :
    ¬ event.Fails := by
  cases event with
  | next result | filled result =>
      rintro ⟨e, hfails⟩
      rw [h] at hfails
      cases hfails
  | read remaining result =>
      rintro ⟨e, hfails⟩
      rw [h.2] at hfails
      cases hfails
  | consumed => exact id

theorem endsCleanly_of_ends {δ : Type} {gz : GzDecoder δ}
    {start : DecodedBody δ} {before after : List Event} {event : Event}
    (run : Run Step (.new ⟨start.polls gz, 0⟩) (before ++ event :: after)
      this) (hends : event.Ends)
    (hquiet : ∀ earlier ∈ before, ¬ earlier.Fails) :
    ∃ n, start.EndsCleanly gz n ∧
      handed before = delivered (start.polls gz) n := by
  obtain ⟨mid, first, second⟩ := run.split
  obtain ⟨next, hstep, -⟩ := second.head_step
  have hended := (reads_step hstep).ends hends
  obtain ⟨n, hclean, hall⟩ :=
    endsCleanly_of_quiet (first.step hstep) (by
      intro earlier hmem
      rcases List.mem_append.mp hmem with hbefore | hlast
      · exact hquiet earlier hbefore
      · rw [List.mem_singleton.mp hlast]
        exact hends.not_fails) hended
  refine ⟨n, hclean, ?_⟩
  rw [← hall, handed_append]
  simp [handed, hends.bytes_eq_nil]

end ResponseBody

namespace Gzip.GzipService

variable {δ ε : Type} {gz : GzDecoder δ}

theorem call_plain (gz : GzDecoder δ)
    {inner : HeaderMap → Except ε (Response Body)}
    {headers : HeaderMap} {response : Response Body}
    (hinner : inner (acceptGzip headers) = .ok response)
    (hplain : response.headers.get "content-encoding" ≠ some gzip) :
    ∃ decoded, GzipService.call gz inner headers = .ok decoded ∧
      decoded.body = ⟨response.body, .done⟩ := by
  unfold call
  simp only [hinner, bind, Except.bind, if_neg hplain]
  exact ⟨_, rfl, rfl⟩

/-- The polls of `storedBody` when it is decompressed. -/
def storedPolled : List PolledFrame :=
  [.pending, .ready (some (.ok (.data [104]))),
    .ready (some (.ok (.data [105]))),
    .ready (some (.ok (.trailers [("etag", [49])])))]

open DecodedBody in
theorem stored_emits : Emits storedDecoder
    ⟨storedBody, .decompressing storedDecoder.new⟩ storedPolled := by
  refine .poll (.trans (pollFrame_data rfl rfl)
    (.trans (if_pos ?_) pollFrame_pending)) ?_
  · rfl
  refine .poll (.trans (pollFrame_data rfl rfl)
    (.trans (if_pos ?_) (.trans (pollFrame_data rfl rfl) (if_neg ?_)))) ?_
  · rfl
  · decide
  refine .poll (.trans (pollFrame_data rfl rfl) (if_neg ?_)) ?_
  · decide
  refine .poll (.trans (pollFrame_trailers rfl) (if_pos ?_))
    (.ended ended_done)
  rfl

theorem stored_polls : DecodedBody.polls storedDecoder
    ⟨storedBody, .decompressing storedDecoder.new⟩ =
      fun i => (storedPolled[i]?).getD (.ready none) :=
  funext stored_emits.polls_eq

def storedEvents : List ResponseBody.Event :=
  [.filled .pending, .read 3 (.ready (.ok [104])),
    .next (.ready (some (.ok [105]))), .next (.ready none)]

theorem stored_run : ∃ this, Run ResponseBody.Step
    (.new ⟨DecodedBody.polls storedDecoder
      ⟨storedBody, .decompressing storedDecoder.new⟩, 0⟩) storedEvents
    this := by
  rw [stored_polls]
  have hexec : exec (ResponseBody.perform 3)
      (.new ⟨fun i => (storedPolled[i]?).getD (.ready none), 0⟩)
      [.pollFillBuf, .pollRead 3, .pollNext, .pollNext] =
      some (storedEvents, _) := rfl
  exact ⟨_, exec_run (fun h => ⟨_, _, h⟩) hexec⟩

/-- However a response is read, the end is only reported without an error
before it if the body from the connection has delivered everything and, when
the response is compressed, that is a whole compressed content; and what was
handed out before is the content. -/
theorem complete_or_fails (h : gz.Sound)
    {inner : HeaderMap → Except ε (Response Body)} {headers : HeaderMap}
    {response : Response Body}
    (hinner : inner (acceptGzip headers) = .ok response)
    (hconforms : Conforms response.body.polls) :
    ∃ decoded, GzipService.call gz inner headers = .ok decoded ∧
      ∀ {before event after this},
        Run ResponseBody.Step (.new ⟨decoded.body.polls gz, 0⟩)
          (before ++ event :: after) this →
        event.Ends → (∀ earlier ∈ before, ¬ earlier.Fails) →
        ∃ chunks trailers, Delivers response.body.polls chunks trailers ∧
          (response.headers.get "content-encoding" = some gzip →
            gz.Accepts chunks.flatten (ResponseBody.handed before)) ∧
          (response.headers.get "content-encoding" ≠ some gzip →
            ResponseBody.handed before = chunks.flatten) := by
  obtain ⟨status, responseHeaders, body⟩ := response
  by_cases hgzip : responseHeaders.get "content-encoding" = some gzip
  · obtain ⟨decoded, hcall, hbody⟩ := call_gzip gz hinner hgzip
    refine ⟨decoded, hcall, fun run hends hquiet => ?_⟩
    obtain ⟨n, hclean, hall⟩ :=
      ResponseBody.endsCleanly_of_ends run hends hquiet
    rw [hbody] at hclean hall
    rcases hconforms with hbreaks | ⟨chunks, trailers, hdelivers⟩
    · exact absurd hclean (DecodedBody.decompressed_breaks hbreaks)
    · refine ⟨chunks, trailers, hdelivers, fun _ => ?_,
        fun hplain => absurd hgzip hplain⟩
      rw [hall]
      exact DecodedBody.decompressed_delivers h hdelivers .new hclean
  · obtain ⟨decoded, hcall, hbody⟩ := call_plain gz hinner hgzip
    refine ⟨decoded, hcall, fun run hends hquiet => ?_⟩
    obtain ⟨n, hclean, hall⟩ :=
      ResponseBody.endsCleanly_of_ends run hends hquiet
    rw [hbody] at hclean hall
    rcases hconforms with hbreaks | ⟨chunks, trailers, hdelivers⟩
    · exact absurd hclean (DecodedBody.plain_breaks hbreaks)
    · refine ⟨chunks, trailers, hdelivers, fun h => absurd h hgzip,
        fun _ => ?_⟩
      rw [hall]
      exact DecodedBody.plain_delivers hdelivers hclean

def storedService : HeaderMap → Except Unit (Response Body) :=
  fun _ => .ok ⟨.ok, [("content-encoding", gzip)], storedBody⟩

theorem stored_complete : ∃ this,
    Run ResponseBody.Step (.new ⟨DecodedBody.polls storedDecoder
      ⟨storedBody, .decompressing storedDecoder.new⟩, 0⟩) storedEvents
      this ∧
    ∃ chunks trailers, Delivers storedBody.polls chunks trailers ∧
      storedDecoder.Accepts chunks.flatten [104, 105] := by
  have hinner : storedService (acceptGzip []) =
    .ok ⟨.ok, [("content-encoding", gzip)], storedBody⟩ := rfl
  obtain ⟨decoded, hcall, hreads⟩ :=
    complete_or_fails (Decoder.ofOutput_sound storedOutput_prefix) hinner
      (.inr ⟨_, _, .data (.pending (.data (.data (.data .trailers))))⟩)
  obtain ⟨decoded', hcall', hbody⟩ := call_gzip storedDecoder hinner rfl
  cases hcall.symm.trans hcall'
  rw [hbody] at hreads
  obtain ⟨this, run⟩ := stored_run
  have hquiet : ∀ earlier ∈ storedEvents.take 3,
      ¬ ResponseBody.Event.Fails earlier := by
    simp [storedEvents, ResponseBody.Event.Fails]
  obtain ⟨chunks, trailers, hdelivers, haccepts, -⟩ :=
    @hreads (storedEvents.take 3) (.next (.ready none)) [] this run rfl hquiet
  exact ⟨this, run, chunks, trailers, hdelivers, haccepts rfl⟩

theorem reads_through {start : DecodedBody δ} {emitted : List PolledFrame}
    {data : List (List UInt8)} {trailers : Option HeaderMap}
    (hemits : DecodedBody.Emits gz start emitted)
    (hdelivered : Delivered emitted data trailers)
    {events : List ResponseBody.Event} {this : ResponseBody}
    (run : Run ResponseBody.Step (.new ⟨start.polls gz, 0⟩) events this) :
    (∀ event ∈ events, ¬ event.Fails) ∧
      ResponseBody.handed events <+: data.flatten ∧
      ∀ {before event after}, events = before ++ event :: after →
        event.Ends → ResponseBody.handed before = data.flatten := by
  have hpolls : start.polls gz =
      fun i => (emitted[i]?).getD (.ready none) := funext hemits.polls_eq
  rw [hpolls] at run
  have hquiet := ResponseBody.never_fails run fun i => (hdelivered.polled i).1
  refine ⟨hquiet, ?_, ?_⟩
  · have hinOrder := (ResponseBody.reading run).inOrder
    have hprefix := (hdelivered.delivered_prefix this.body.body.polled).1
    rw [← hinOrder] at hprefix
    exact (List.prefix_append _ _).trans hprefix
  · rintro before event after rfl hends
    rw [← hpolls] at run
    obtain ⟨n, hclean, hall⟩ := ResponseBody.endsCleanly_of_ends run hends
      fun earlier hmem => hquiet earlier (List.mem_append_left _ hmem)
    rw [hpolls] at hall
    rw [hall]
    refine (hdelivered.delivered_prefix n).2 ?_
    by_contra hlt
    have hnone := hclean.ends.1
    rw [hpolls] at hnone
    exact (hdelivered.polled n).2 (Nat.not_le.mp hlt) hnone

/-- A body from the connection that delivers everything, and that is a whole
compressed content if it is compressed, is never read with an error.  At every
moment the first part of the content was handed out, and all of it when the
end is reported. -/
theorem accepted_reads_through (h : gz.Lawful)
    {inner : HeaderMap → Except ε (Response Body)} {headers : HeaderMap}
    {response : Response Body}
    (hinner : inner (acceptGzip headers) = .ok response)
    {chunks : List (List UInt8)} {trailers : Option HeaderMap}
    (hdelivers : Delivers response.body.polls chunks trailers)
    {content : List UInt8}
    (hcontent :
      if response.headers.get "content-encoding" = some gzip then
        gz.Accepts chunks.flatten content
      else content = chunks.flatten) :
    ∃ decoded, GzipService.call gz inner headers = .ok decoded ∧
      ∀ {events this},
        Run ResponseBody.Step (.new ⟨decoded.body.polls gz, 0⟩) events
          this →
        (∀ event ∈ events, ¬ event.Fails) ∧
        ResponseBody.handed events <+: content ∧
        ∀ {before event after}, events = before ++ event :: after →
          event.Ends → ResponseBody.handed before = content := by
  obtain ⟨status, responseHeaders, body⟩ := response
  by_cases hgzip : responseHeaders.get "content-encoding" = some gzip
  · rw [if_pos hgzip] at hcontent
    obtain ⟨decoded, hcall, hbody⟩ := call_gzip gz hinner hgzip
    have hemits : ∃ emitted data,
        DecodedBody.Emits gz ⟨body, .decompressing gz.new⟩ emitted ∧
        Delivered emitted data trailers ∧ [] ++ data.flatten = content :=
      DecodedBody.emits_decompressing h hdelivers hcontent .new rfl
    obtain ⟨emitted, data, hemits, hdelivered, rfl⟩ := hemits
    refine ⟨decoded, hcall, fun run => ?_⟩
    rw [hbody] at run
    exact reads_through hemits hdelivered run
  · rw [if_neg hgzip] at hcontent
    cases hcontent
    obtain ⟨decoded, hcall, hbody⟩ := call_plain gz hinner hgzip
    obtain ⟨emitted, hemits, hdelivered⟩ :=
      DecodedBody.emits_plain hdelivers body.isEndStream
    refine ⟨decoded, hcall, fun run => ?_⟩
    rw [hbody] at run
    exact reads_through hemits hdelivered run

theorem stored_reads_through : ∃ this,
    Run ResponseBody.Step (.new ⟨DecodedBody.polls storedDecoder
      ⟨storedBody, .decompressing storedDecoder.new⟩, 0⟩) storedEvents
      this ∧
    (∀ event ∈ storedEvents, ¬ event.Fails) ∧
    ResponseBody.handed storedEvents <+: [104, 105] := by
  have hinner : storedService (acceptGzip []) =
    .ok ⟨.ok, [("content-encoding", gzip)], storedBody⟩ := rfl
  obtain ⟨decoded, hcall, hreads⟩ :=
    @accepted_reads_through _ _ storedDecoder
      (Decoder.ofOutput_lawful storedOutput_prefix) _ _ _ hinner _ _
      (.data (.pending (.data (.data (.data .trailers))))) [104, 105]
      ((if_pos rfl).mpr ⟨_, _, rfl, rfl, rfl⟩)
  obtain ⟨decoded', hcall', hbody⟩ := call_gzip storedDecoder hinner rfl
  cases hcall.symm.trans hcall'
  rw [hbody] at hreads
  obtain ⟨this, run⟩ := stored_run
  obtain ⟨hquiet, hhanded, -⟩ := hreads run
  exact ⟨this, run, hquiet, hhanded⟩

end Gzip.GzipService

end ConjureRuntime.Service
