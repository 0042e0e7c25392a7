import ConjureRuntime.Service.Gzip
import Mathlib.Data.List.GetD
import Mathlib.Data.List.Infix

/-!
# What comes out of a decompressed body

However the compressed bytes are split into frames, and in whichever of its
ways the inner body ends, the frames of the decompressed body are the content,
and the trailers come last.
-/

namespace ConjureRuntime.Service.Gzip

open ConjureRuntime.Foundation ConjureRuntime.Foundation.Decoder

/-! ## Streams of frames -/

/-- The polls of an inner body that delivers chunks of data and perhaps
trailers.  Its end may be known with the last chunk, or when there are
trailers or nothing instead of another chunk. -/
inductive Delivers : List (Poll (Except Cause Frame) × Bool) →
    List (List UInt8) → Option HeaderMap → Prop where
  | none : Delivers [] [] none
  | pending {polls chunks trailers isEndStream} :
      Delivers polls chunks trailers →
      Delivers ((.pending, isEndStream) :: polls) chunks trailers
  | data {polls chunks trailers chunk} :
      Delivers polls chunks trailers →
      Delivers ((.ready (.ok (.data chunk)), false) :: polls)
        (chunk :: chunks) trailers
  | last {chunk} : Delivers [(.ready (.ok (.data chunk)), true)] [chunk] none
  | trailers {trailers isEndStream} :
      Delivers [(.ready (.ok (.trailers trailers)), isEndStream)] []
        (some trailers)

/-- The results of polling a body for its data and perhaps trailers, as long
as it does not say that it has ended. -/
inductive Delivered : List PolledFrame → List (List UInt8) →
    Option HeaderMap → Prop where
  | ended : Delivered [] [] none
  | pending {polled data trailers} :
      Delivered polled data trailers →
      Delivered (.pending :: polled) data trailers
  | data {polled data trailers chunk} :
      Delivered polled data trailers →
      Delivered (.ready (some (.ok (.data chunk))) :: polled) (chunk :: data)
        trailers
  | trailers {trailers} :
      Delivered [.ready (some (.ok (.trailers trailers)))] [] (some trailers)

namespace DecodedBody

variable {δ : Type} {gz : GzDecoder δ} {body : Body} {decoder : δ}

def Ended (gz : GzDecoder δ) (this : DecodedBody δ) : Prop :=
  ∀ {polled this'}, Run (Step gz) this polled this' →
    polled = List.replicate polled.length (.ready none)

inductive Emits (gz : GzDecoder δ) :
    DecodedBody δ → List PolledFrame → Prop where
  | ended {this} : Ended gz this → Emits gz this []
  | poll {this this' poll polled} : this.pollFrame gz = (poll, this') →
      Emits gz this' polled → Emits gz this (poll :: polled)

theorem Ended.of_poll {this this' : DecodedBody δ} (h : Ended gz this')
    (hpoll : this.pollFrame gz = (.ready none, this')) : Ended gz this := by
  intro polled last run
  cases polled with
  | nil => rfl
  | cons first polled =>
      obtain ⟨mid, hstep, run⟩ := run.head_step
      cases hpoll.symm.trans hstep
      rw [List.length_cons, List.replicate_succ, ← h run]

theorem Emits.of_pollFrame_eq {this this' : DecodedBody δ}
    {emitted : List PolledFrame} (h : Emits gz this' emitted)
    (hsame : this.pollFrame gz = this'.pollFrame gz) :
    Emits gz this emitted := by
  cases h with
  | ended hended =>
      refine .ended ?_
      intro polled last run
      cases polled with
      | nil => rfl
      | cons first polled =>
          obtain ⟨mid, hstep, run⟩ := run.head_step
          have run' : Run (Step gz) this' (first :: polled) last :=
            (Run.refl.step (hsame.symm.trans hstep)).trans run
          exact hended run'
  | poll hpoll hemits => exact .poll (hsame.trans hpoll) hemits

theorem Emits.polled {this : DecodedBody δ} {emitted : List PolledFrame}
    (h : Emits gz this emitted) {polled : List PolledFrame}
    {this' : DecodedBody δ} (run : Run (Step gz) this polled this') :
    polled <+: emitted ++ List.replicate polled.length (.ready none) := by
  induction h generalizing polled with
  | ended h =>
      rw [List.nil_append, ← h run]
  | @poll this mid poll emitted hpoll _ ih =>
      cases polled with
      | nil => exact List.nil_prefix
      | cons first polled =>
          obtain ⟨second, hstep, run⟩ := run.head_step
          cases hpoll.symm.trans hstep
          have hrest := ih run
          rw [List.cons_append, List.prefix_cons_inj, List.length_cons,
            List.replicate_succ', ← List.append_assoc]
          exact hrest.trans (List.prefix_append _ _)

/-! ## One poll -/

variable {isEndStream isEndStream' : Bool}
  {polls : List (Poll (Except Cause Frame) × Bool)} {decoder' : δ}

@[simp] theorem pollFrame_done : (⟨body, .done⟩ : DecodedBody δ).pollFrame gz =
    (body.pollFrame.1, ⟨body.pollFrame.2, .done⟩) := by
  rw [pollFrame]

@[simp] theorem pollFrame_last {frame : Frame} :
    (⟨body, .last frame⟩ : DecodedBody δ).pollFrame gz =
      (.ready (some (.ok frame)), ⟨body, .done⟩) := by
  rw [pollFrame]

@[simp] theorem pollFrame_pending :
    (⟨⟨(.pending, isEndStream) :: polls, isEndStream'⟩,
      .decompressing decoder⟩ : DecodedBody δ).pollFrame gz =
      (.pending, ⟨⟨polls, isEndStream⟩, .decompressing decoder⟩) := by
  rw [pollFrame]
  rfl

theorem pollFrame_none (hfinish : gz.tryFinish decoder = .ok decoder') :
    (⟨⟨[], isEndStream⟩, .decompressing decoder⟩ : DecodedBody δ).pollFrame
        gz =
      if gz.buffer decoder' = [] then
        (.ready none, ⟨⟨[], isEndStream⟩, .done⟩)
      else
        (.ready (some (.ok (.data (gz.buffer decoder')))),
          ⟨⟨[], isEndStream⟩, .done⟩) := by
  rw [pollFrame]
  simp only [Body.pollFrame, hfinish]

theorem pollFrame_trailers {trailers : HeaderMap}
    (hfinish : gz.tryFinish decoder = .ok decoder') :
    (⟨⟨(.ready (.ok (.trailers trailers)), isEndStream) :: polls,
      isEndStream'⟩, .decompressing decoder⟩ : DecodedBody δ).pollFrame gz =
      if gz.buffer decoder' = [] then
        (.ready (some (.ok (.trailers trailers))),
          ⟨⟨polls, isEndStream⟩, .done⟩)
      else
        (.ready (some (.ok (.data (gz.buffer decoder')))),
          ⟨⟨polls, isEndStream⟩, .last (.trailers trailers)⟩) := by
  rw [pollFrame]
  simp only [Body.pollFrame, Frame.dataRef, hfinish]

theorem pollFrame_lastData {chunk : List UInt8} {written finished : δ}
    (hwrite : gz.writeAll decoder chunk = .ok written)
    (hfinish : gz.tryFinish written = .ok finished) :
    (⟨⟨(.ready (.ok (.data chunk)), true) :: polls, isEndStream⟩,
      .decompressing decoder⟩ : DecodedBody δ).pollFrame gz =
      if gz.buffer finished = [] then
        (.ready none, ⟨⟨polls, true⟩, .done⟩)
      else
        (.ready (some (.ok (.data (gz.buffer finished)))),
          ⟨⟨polls, true⟩, .done⟩) := by
  rw [pollFrame]
  simp only [Body.pollFrame, Frame.dataRef, hwrite, hfinish, if_true]

theorem pollFrame_data {chunk : List UInt8} {written flushed : δ}
    (hwrite : gz.writeAll decoder chunk = .ok written)
    (hflush : gz.flush written = .ok flushed) :
    (⟨⟨(.ready (.ok (.data chunk)), false) :: polls, isEndStream⟩,
      .decompressing decoder⟩ : DecodedBody δ).pollFrame gz =
      if gz.buffer flushed = [] then
        pollFrame gz ⟨⟨polls, false⟩, .decompressing (gz.split flushed)⟩
      else
        (.ready (some (.ok (.data (gz.buffer flushed)))),
          ⟨⟨polls, false⟩, .decompressing (gz.split flushed)⟩) := by
  rw [pollFrame]
  simp only [Body.pollFrame, Frame.dataRef, hwrite, hflush,
    Bool.false_eq_true, if_false]

/-! ## Whole bodies -/

theorem ended_done : Ended gz ⟨⟨[], isEndStream⟩, .done⟩ := by
  intro polled this' run
  have hlast := run.invariant
    (fun polled this => polled = List.replicate polled.length (.ready none) ∧
      this = ⟨⟨[], isEndStream⟩, .done⟩)
    ⟨rfl, rfl⟩ (by
      rintro polled this poll this' ⟨hpolled, rfl⟩ hstep
      cases pollFrame_done.symm.trans hstep
      refine ⟨?_, rfl⟩
      rw [List.length_append, List.length_singleton, List.replicate_succ',
        ← hpolled]
      rfl)
  exact hlast.1

theorem emits_finished {this ended : DecodedBody δ} {data : List UInt8}
    (hpoll : this.pollFrame gz =
      if data = [] then (.ready none, ended)
      else (.ready (some (.ok (.data data))), ended))
    (hended : Ended gz ended) :
    ∃ emitted chunks, Emits gz this emitted ∧ Delivered emitted chunks none ∧
      chunks.flatten = data := by
  by_cases hempty : data = []
  · rw [if_pos hempty] at hpoll
    exact ⟨[], [], .ended (hended.of_poll hpoll), .ended, hempty.symm⟩
  · rw [if_neg hempty] at hpoll
    exact ⟨_, [data], .poll hpoll (.ended hended), .data .ended,
      List.append_nil _⟩

theorem emits_decompressing (h : gz.Lawful) {chunks : List (List UInt8)}
    {trailers : Option HeaderMap} (hdelivers : Delivers polls chunks trailers)
    {whole input content taken : List UInt8}
    (haccepts : gz.Accepts whole content)
    (hreaches : gz.Reaches input taken decoder)
    (hwhole : whole = input ++ chunks.flatten) :
    ∃ emitted data,
      Emits gz ⟨⟨polls, isEndStream⟩, .decompressing decoder⟩ emitted ∧
      Delivered emitted data trailers ∧ taken ++ data.flatten = content := by
  induction hdelivers generalizing input taken decoder isEndStream with
  | none =>
      have hinput : whole = input := hwhole.trans (List.append_nil _)
      obtain ⟨finished, hfinish, hcontent⟩ :=
        h.tryFinish haccepts (hinput ▸ hreaches)
      obtain ⟨emitted, data, hemits, hdelivered, hdata⟩ :=
        emits_finished (pollFrame_none hfinish) ended_done
      exact ⟨emitted, data, hemits, hdelivered, by rw [hdata, hcontent]⟩
  | pending _ ih =>
      obtain ⟨emitted, data, hemits, hdelivered, hcontent⟩ :=
        ih hreaches hwhole
      exact ⟨_, data, .poll pollFrame_pending hemits, .pending hdelivered,
        hcontent⟩
  | @data polls chunks trailers chunk _ ih =>
      rw [List.flatten_cons, ← List.append_assoc] at hwhole
      obtain ⟨written, hwrite⟩ := h.writeAll haccepts hwhole hreaches
      have hwritten := hreaches.writeAll hwrite
      obtain ⟨flushed, hflush⟩ := h.flush haccepts hwhole hwritten
      have hrest : ∃ emitted data,
          Emits gz ⟨⟨polls, false⟩, .decompressing (gz.split flushed)⟩
            emitted ∧ Delivered emitted data trailers ∧
          taken ++ gz.buffer flushed ++ data.flatten = content :=
        ih (hwritten.flush hflush).split hwhole
      obtain ⟨emitted, data, hemits, hdelivered, hcontent⟩ := hrest
      by_cases hempty : gz.buffer flushed = []
      · -- the poll goes on to the next frame of the inner body
        rw [hempty, List.append_nil] at hcontent
        exact ⟨emitted, data, hemits.of_pollFrame_eq
          ((pollFrame_data hwrite hflush).trans (if_pos hempty)), hdelivered,
          hcontent⟩
      · rw [List.append_assoc] at hcontent
        exact ⟨_, gz.buffer flushed :: data,
          .poll ((pollFrame_data hwrite hflush).trans (if_neg hempty)) hemits,
          .data hdelivered, hcontent⟩
  | @last chunk =>
      have hinput : whole = input ++ chunk := by simpa using hwhole
      obtain ⟨written, hwrite⟩ := h.writeAll haccepts
        (by rw [List.append_nil]; exact hinput) hreaches
      obtain ⟨finished, hfinish, hcontent⟩ :=
        h.tryFinish haccepts (hinput ▸ hreaches.writeAll hwrite)
      obtain ⟨emitted, data, hemits, hdelivered, hdata⟩ :=
        emits_finished (pollFrame_lastData hwrite hfinish) ended_done
      exact ⟨emitted, data, hemits, hdelivered, by rw [hdata, hcontent]⟩
  | @trailers trailers isEndStream' =>
      have hinput : whole = input := hwhole.trans (List.append_nil _)
      obtain ⟨finished, hfinish, hcontent⟩ :=
        h.tryFinish haccepts (hinput ▸ hreaches)
      by_cases hempty : gz.buffer finished = []
      · rw [hempty] at hcontent
        exact ⟨_, [],
          .poll ((pollFrame_trailers hfinish).trans (if_pos hempty))
            (.ended ended_done), .trailers, hcontent⟩
      · exact ⟨_, [gz.buffer finished],
          .poll ((pollFrame_trailers hfinish).trans (if_neg hempty))
            (.poll pollFrame_last (.ended ended_done)), .data .trailers, by
          rw [List.flatten_singleton, hcontent]⟩

end DecodedBody

/-! ## Whole responses -/

namespace GzipService

variable {δ ε : Type} {gz : GzDecoder δ}

theorem call_gzip (gz : GzDecoder δ)
    {inner : HeaderMap → Except ε (Response Body)}
    {headers : HeaderMap} {response : Response Body}
    (hinner : inner (acceptGzip headers) = .ok response)
    (hgzip : response.headers.get "content-encoding" = some gzip) :
    ∃ decoded, GzipService.call gz inner headers = .ok decoded ∧
      decoded.body = ⟨response.body, .decompressing gz.new⟩ := by
  unfold call
  simp only [hinner, bind, Except.bind, if_pos hgzip]
  exact ⟨_, rfl, rfl⟩

/-- The data frames of a decompressed response are the content, its trailers
come once and after them, and then it has ended. -/
theorem decoded_losslessly (h : gz.Lawful)
    {inner : HeaderMap → Except ε (Response Body)} {headers : HeaderMap}
    {response : Response Body}
    (hinner : inner (acceptGzip headers) = .ok response)
    (hgzip : response.headers.get "content-encoding" = some gzip)
    {chunks : List (List UInt8)} {trailers : Option HeaderMap}
    (hdelivers : Delivers response.body.polls chunks trailers)
    {content : List UInt8} (haccepts : gz.Accepts chunks.flatten content) :
    ∃ decoded, GzipService.call gz inner headers = .ok decoded ∧
      ∃ emitted data, Delivered emitted data trailers ∧
        data.flatten = content ∧
        ∀ {polled this}, Run (DecodedBody.Step gz) decoded.body polled this →
          polled <+:
            emitted ++ List.replicate polled.length (.ready none) := by
  obtain ⟨decoded, hcall, hbody⟩ := call_gzip gz hinner hgzip
  have hemits : ∃ emitted data,
      DecodedBody.Emits gz ⟨response.body, .decompressing gz.new⟩ emitted ∧
      Delivered emitted data trailers ∧ [] ++ data.flatten = content :=
    DecodedBody.emits_decompressing h hdelivers haccepts .new rfl
  obtain ⟨emitted, data, hemits, hdelivered, hcontent⟩ := hemits
  refine ⟨decoded, hcall, emitted, data, hdelivered, hcontent, fun run => ?_⟩
  rw [hbody] at run
  exact hemits.polled run

/-! ## Stored content -/

def storedLength (input : List UInt8) : Nat :=
  (input.getD 11 0).toNat + 256 * (input.getD 12 0).toNat

def storedOutput (input : List UInt8) : List UInt8 :=
  (input.drop 15).take (storedLength input)

def storedComplete (input : List UInt8) : Bool :=
  input.take 4 = [31, 139, 8, 0] ∧ input.getD 10 0 = 1 ∧
    input.length = 15 + storedLength input + 8

theorem storedOutput_prefix (input chunk : List UInt8) :
    storedOutput input <+: storedOutput (input ++ chunk) := by
  unfold storedOutput
  by_cases hshort : input.length ≤ 15
  · rw [List.drop_eq_nil_of_le hshort, List.take_nil]
    exact List.nil_prefix
  · have hlength : storedLength (input ++ chunk) = storedLength input := by
      unfold storedLength
      rw [List.getD_append _ _ _ _ (by omega),
        List.getD_append _ _ _ _ (by omega)]
    rw [hlength, List.drop_append_of_le_length (by omega)]
    exact (List.prefix_append _ _).take _

/-- A decoder for files of one stored block; it does not check their
checksum. -/
def storedDecoder : GzDecoder (Progress UInt8 UInt8) :=
  .ofOutput storedOutput storedComplete (.foreign "std::io::Error")

/-- The text `hi` with its trailers, in pieces. -/
def storedBody : Body where
  polls :=
    [(.ready (.ok (.data [31, 139, 8, 0])), false),
      (.pending, false),
      (.ready (.ok (.data [])), false),
      (.ready (.ok (.data [0, 0, 0, 0, 0, 255, 1, 2, 0, 253, 255, 104])),
        false),
      (.ready (.ok (.data [105, 172, 42, 147, 216, 2, 0, 0, 0])), false),
      (.ready (.ok (.trailers [("etag", [49])])), true)]
  isEndStream := false

theorem stored_content_in_pieces :
    ∃ decoded, GzipService.call storedDecoder
        (fun _ => (.ok ⟨.ok, [("content-encoding", gzip)], storedBody⟩ :
          Except Unit (Response Body))) [] = .ok decoded ∧
      ∃ emitted data, Delivered emitted data (some [("etag", [49])]) ∧
        data.flatten = [104, 105] ∧
        ∀ {polled this},
          Run (DecodedBody.Step storedDecoder) decoded.body polled this →
          polled <+:
            emitted ++ List.replicate polled.length (.ready none) :=
  decoded_losslessly (Decoder.ofOutput_lawful storedOutput_prefix) rfl rfl
    (.data (.pending (.data (.data (.data .trailers)))))
    ⟨_, _, rfl, rfl, rfl⟩

end GzipService

end ConjureRuntime.Service.Gzip
