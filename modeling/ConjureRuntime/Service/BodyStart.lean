import ConjureRuntime.Service.RawBody

/-!
# The start of the body

The body of a request is written at most once in an attempt, and not before
the HTTP client asks for its first frame.
-/

namespace ConjureRuntime.Service.Transfer

open ConjureRuntime.Foundation

variable {event : Event} {transfer transfer' : Transfer} {polled : Oneshot}

structure Started (polled : Oneshot) (result : Event × Transfer) : Prop where
  polled : result.2.polled = polled
  event : result.1 ≠ .writeBody
  writer : result.2.writer ≠ .waiting

theorem sendFailed_started (hpolled : transfer.polled = polled)
    (error : IoError) (send : Send) :
    Started polled (transfer.sendFailed error send) := by
  cases send <;>
    exact ⟨hpolled, by simp [sendFailed], by simp [sendFailed, close]⟩

theorem proceed_started (h : transfer.proceed = some (event, transfer')) :
    Started transfer.polled (event, transfer') := by
  generalize (event, transfer') = result at h
  cases proceed_outcome h with
  | goesOn writer hwriter => exact ⟨rfl, by simp, hwriter⟩
  | flushed before caller hpolled =>
      cases caller <;> exact ⟨hpolled, by simp [flushed], by simp [flushed]⟩
  | flushPending caller =>
      cases caller <;>
        exact ⟨rfl, by simp [flushPending], by simp [flushPending]⟩
  | flushFailed before error caller hpolled =>
      cases caller with
      | pollWrite | pollFlush =>
          exact ⟨hpolled, by simp [flushFailed], by simp [flushFailed]⟩
      | send send => exact sendFailed_started hpolled error send
  | sent before send hpolled =>
      cases send <;> exact ⟨hpolled, by simp [sent], by simp [sent]⟩
  | sendFailed before error send hpolled =>
      exact sendFailed_started hpolled error send
  | sendFlushed send =>
      cases send <;>
        exact ⟨rfl, by simp [sendFlushed], by simp [sendFlushed, close]⟩

theorem next_started {op : Op}
    (h : transfer.next op = some (event, transfer')) :
    (transfer'.polled = .sent → transfer.polled = .sent ∨ event = .polled) ∧
    (event = .writeBody → transfer.polled = .sent ∧
      transfer.writer = .waiting) ∧
    (transfer'.writer = .waiting → transfer.writer = .waiting ∧
      event ≠ .writeBody) := by
  have hstarted : Started transfer.polled (event, transfer') →
      (transfer'.polled = .sent → transfer.polled = .sent ∨
        event = .polled) ∧
      (event = .writeBody → transfer.polled = .sent ∧
        transfer.writer = .waiting) ∧
      (transfer'.writer = .waiting → transfer.writer = .waiting ∧
        event ≠ .writeBody) := by
    rintro ⟨hpolled, hevent, hwriter⟩
    exact ⟨fun h => .inl (hpolled.symm.trans h), fun h => absurd h hevent,
      fun h => absurd h hwriter⟩
  cases op with
  | proceed => exact hstarted (proceed_started h)
  | awaitPolled =>
      rw [next, Option.ite_none_right_eq_some] at h
      obtain ⟨hwaiting, h⟩ := h
      simp only [awaitPolled] at h
      split at h
      · cases h
      · rename_i hsent
        cases h
        exact ⟨.inl, fun _ => ⟨hsent, hwaiting⟩, by simp⟩
      · cases h
        exact hstarted ⟨rfl, by simp, by simp [close]⟩
  | pollWrite data =>
      rw [next, Option.ite_none_right_eq_some] at h
      obtain ⟨-, h⟩ := h
      rw [pollWrite] at h
      split at h <;> cases h <;> exact hstarted ⟨rfl, by simp, by simp⟩
  | pollFlush | writeBytes =>
      rw [next, Option.ite_none_right_eq_some] at h
      obtain ⟨-, h⟩ := h
      cases h
      exact hstarted ⟨rfl, by simp, by simp⟩
  | writeBodyReturns result =>
      rw [next, Option.ite_none_right_eq_some] at h
      obtain ⟨-, h⟩ := h
      cases result <;> cases h <;>
        exact hstarted ⟨rfl, by simp, by simp [close]⟩
  | dropWriter =>
      simp only [next] at h
      split at h <;> cases h
      exact hstarted ⟨rfl, by simp, by simp [close]⟩
  | firstPoll =>
      simp only [next, firstPoll] at h
      split at h <;> cases h
      exact ⟨fun _ => .inr rfl, by simp, fun h => ⟨h, by simp⟩⟩
  | pollFrame =>
      have hframe : ∀ frame, frameEvent frame ≠ .writeBody := by
        rintro (_ | _ | _ | _) <;> simp [frameEvent]
      simp only [next, pollFrame] at h
      split at h <;> cases h <;>
        exact ⟨.inl, fun h => absurd h (hframe _), fun h => ⟨h, hframe _⟩⟩
  | hangUp =>
      simp only [next, hangUp] at h
      split at h <;> cases h
      · refine ⟨fun hsent => .inl ?_, by simp, fun h => ⟨h, by simp⟩⟩
        simp only at hsent
        split at hsent
        · cases hsent
        · exact hsent
      · exact ⟨.inl, by simp, fun h => ⟨h, by simp⟩⟩

end ConjureRuntime.Service.Transfer
