import ConjureRuntime.Service.GzipDelivery

/-!
# Where compressed bytes leak through

The state that passes an uncompressed body through is also the one that every
early return leaves behind.  What the inner body still delivers after the
first frame that ends the decompression is passed through as it is.
-/

namespace ConjureRuntime.Service.Gzip

open ConjureRuntime.Foundation ConjureRuntime.Foundation.Decoder

/-! ## What the inner body delivers -/

def rawData : Poll (Except Cause Frame) × Bool → Option (List UInt8)
  | (.ready (.ok (.data data)), _) => some data
  | _ => none

def received (polls : List (Poll (Except Cause Frame) × Bool)) : List UInt8 :=
  (polls.filterMap rawData).flatten

@[simp] theorem received_append (polls later) :
    received (polls ++ later) = received polls ++ received later := by
  simp [received]

@[simp] theorem received_singleton_data (data : List UInt8)
    (isEndStream : Bool) :
    received [(.ready (.ok (.data data)), isEndStream)] = data := by
  simp [received, rawData]

/-- What is left of the inner body after the first error, the first frame
that is no data frame, the first after which the body says that it has ended
and the first that the decoder does not take, whichever comes first. -/
def afterDecoding {δ : Type} (gz : GzDecoder δ) :
    δ → List (Poll (Except Cause Frame) × Bool) →
      List (Poll (Except Cause Frame) × Bool)
  | _, [] => []
  | decoder, (.pending, _) :: polls => afterDecoding gz decoder polls
  | _, (.ready (.error _), _) :: polls => polls
  | _, (.ready (.ok (.trailers _)), _) :: polls => polls
  | _, (.ready (.ok (.data _)), true) :: polls => polls
  | decoder, (.ready (.ok (.data data)), false) :: polls =>
      match gz.writeAll decoder data >>= gz.flush with
      | .error _ => polls
      | .ok decoder => afterDecoding gz (gz.split decoder) polls

namespace DecodedBody

variable {δ : Type} {gz : GzDecoder δ}

/-- The bytes are what the decoder of this response has put out when it was
given the data of the inner body up to here. -/
def Produced (gz : GzDecoder δ)
    (whole : List (Poll (Except Cause Frame) × Bool))
    (this : DecodedBody δ) (data : List UInt8) : Prop :=
  ∃ consumed state, whole = consumed ++ this.body.polls ∧
    gz.Feeds gz.new (received consumed) state ∧ gz.buffer state = data

/-- However often the body is polled, every data frame comes from a decoder
that is there, and is what that has put out. -/
def NeverLeaks (gz : GzDecoder δ)
    (whole : List (Poll (Except Cause Frame) × Bool))
    (start : DecodedBody δ) : Prop :=
  ∀ {polled this data this'}, Run (Step gz) start polled this →
    this.Step gz (.ready (some (.ok (.data data)))) this' →
    (∃ decoder, this.state = .decompressing decoder) ∧
      Produced gz whole this' data

def Decoding (gz : GzDecoder δ)
    (whole : List (Poll (Except Cause Frame) × Bool))
    (this : DecodedBody δ) : Prop :=
  match this.state with
  | .decompressing decoder => ∃ consumed, whole = consumed ++ this.body.polls ∧
      gz.Feeds gz.new (received consumed) decoder
  | .last frame => frame.dataRef = none
  | .done => True

def leftover (gz : GzDecoder δ) (this : DecodedBody δ) :
    List (Poll (Except Cause Frame) × Bool) :=
  match this.state with
  | .decompressing decoder => afterDecoding gz decoder this.body.polls
  | .last _ => this.body.polls
  | .done => this.body.polls

/-! ## One poll -/

structure Decodes (gz : GzDecoder δ)
    (whole rest tail : List (Poll (Except Cause Frame) × Bool))
    (polled : PolledFrame) (this' : DecodedBody δ) : Prop where
  produced : ∀ {data}, polled = .ready (some (.ok (.data data))) →
    Produced gz whole this' data
  decoding : Decoding gz whole this'
  leftover : this'.leftover gz = rest
  fewer : this'.body.polls <:+ tail

variable {whole consumed : List (Poll (Except Cause Frame) × Bool)}
  {body : Body} {decoder : δ}

theorem Decodes.error (body : Body) {e : Cause} :
    Decodes gz whole body.polls body.polls (.ready (some (.error e)))
      ⟨body, .done⟩ where
  produced h := by cases h
  decoding := trivial
  leftover := rfl
  fewer := List.suffix_rfl

def ending (gz : GzDecoder δ) (body : Body) (frame : PolledFrame)
    (ended : DecodedBody δ) : Except Cause δ → PolledFrame × DecodedBody δ
  | .error e => (.ready (some (.error e)), ⟨body, .done⟩)
  | .ok decoder =>
      if gz.buffer decoder = [] then (frame, ⟨body, .done⟩)
      else (.ready (some (.ok (.data (gz.buffer decoder)))), ended)

theorem Decodes.ending {frame polled : PolledFrame}
    {ended this' : DecodedBody δ}
    (h : DecodedBody.ending gz body frame ended (gz.tryFinish decoder) =
      (polled, this'))
    (hframe : ∀ {data}, frame ≠ .ready (some (.ok (.data data))))
    (hwhole : whole = consumed ++ body.polls)
    (hfeeds : gz.Feeds gz.new (received consumed) decoder)
    (hbody : ended.body = body) (hended : Decoding gz whole ended)
    (hleftover : ended.leftover gz = body.polls) :
    Decodes gz whole body.polls body.polls polled this' := by
  cases hfinish : gz.tryFinish decoder with
  | error e =>
      rw [hfinish] at h
      cases h
      exact .error body
  | ok finished =>
      simp only [hfinish, DecodedBody.ending] at h
      split at h
      · cases h
        exact ⟨fun heq => absurd heq hframe, trivial, rfl, List.suffix_rfl⟩
      · cases h
        refine ⟨?_, hended, hleftover, hbody ▸ List.suffix_rfl⟩
        intro data heq
        cases heq
        exact ⟨consumed, finished, hbody ▸ hwhole, hfeeds.tryFinish hfinish,
          rfl⟩

theorem decodes_data {polls : List (Poll (Except Cause Frame) × Bool)}
    {data : List UInt8} {isEndStream isEndStream' : Bool}
    (hwhole : whole = consumed ++ polls)
    (hfeeds : ∀ {written}, gz.writeAll decoder data = .ok written →
      gz.Feeds gz.new (received consumed) written)
    {polled : PolledFrame} {this' : DecodedBody δ}
    (hnext : ∀ {flushed}, gz.Feeds gz.new (received consumed) flushed →
      (⟨⟨polls, false⟩, .decompressing (gz.split flushed)⟩ :
        DecodedBody δ).pollFrame gz = (polled, this') →
      Decodes gz whole (afterDecoding gz (gz.split flushed) polls) polls.tail
        polled this')
    (h : (⟨⟨(.ready (.ok (.data data)), isEndStream') :: polls, isEndStream⟩,
      .decompressing decoder⟩ : DecodedBody δ).pollFrame gz =
        (polled, this')) :
    Decodes gz whole (afterDecoding gz decoder
      ((.ready (.ok (.data data)), isEndStream') :: polls)) polls polled
      this' := by
  rw [pollFrame] at h
  simp only [Body.pollFrame, Frame.dataRef] at h
  cases hwrite : gz.writeAll decoder data with
  | error e =>
      simp only [hwrite] at h
      cases h
      have herror : Decodes gz whole polls polls
          (.ready (some (.error e))) ⟨⟨polls, isEndStream'⟩, .done⟩ :=
        .error ⟨polls, isEndStream'⟩
      cases isEndStream' with
      | true => exact herror
      | false => simpa [afterDecoding, hwrite, bind, Except.bind] using herror
  | ok written =>
      simp only [hwrite] at h
      cases isEndStream' with
      | true =>
          exact Decodes.ending h (by intro data heq; cases heq) hwhole
            (hfeeds hwrite) rfl trivial rfl
      | false =>
          simp only [Bool.false_eq_true, if_false] at h
          cases hflush : gz.flush written with
          | error e =>
              simp only [hflush] at h
              cases h
              have herror : Decodes gz whole polls polls
                  (.ready (some (.error e))) ⟨⟨polls, false⟩, .done⟩ :=
                .error ⟨polls, false⟩
              simpa [afterDecoding, hwrite, hflush, bind, Except.bind] using
                herror
          | ok flushed =>
              have hflushed : gz.writeAll decoder data >>= gz.flush =
                  .ok flushed := by simp [hwrite, hflush, bind, Except.bind]
              have hfed := (hfeeds hwrite).flush hflush
              simp only [hflush] at h
              simp only [afterDecoding, hflushed]
              split at h
              · have hrest := hnext hfed h
                exact { hrest with
                  fewer := hrest.fewer.trans (List.tail_suffix polls) }
              · cases h
                refine ⟨?_, ⟨consumed, hwhole, hfed.split⟩, rfl,
                  List.suffix_rfl⟩
                intro data heq
                cases heq
                exact ⟨consumed, flushed, hwhole, hfed, rfl⟩

theorem decodes_pollFrame
    {polls : List (Poll (Except Cause Frame) × Bool)} {isEndStream : Bool}
    (hwhole : whole = consumed ++ polls)
    (hfeeds : gz.Feeds gz.new (received consumed) decoder)
    {polled : PolledFrame} {this' : DecodedBody δ}
    (h : (⟨⟨polls, isEndStream⟩, .decompressing decoder⟩ :
      DecodedBody δ).pollFrame gz = (polled, this')) :
    Decodes gz whole (afterDecoding gz decoder polls) polls.tail polled
      this' := by
  induction polls generalizing consumed decoder isEndStream with
  | nil =>
      rw [pollFrame] at h
      simp only [Body.pollFrame] at h
      exact Decodes.ending h (by intro data heq; cases heq) hwhole hfeeds rfl
        trivial rfl
  | cons poll polls ih =>
      have hrest : whole = (consumed ++ [poll]) ++ polls := by
        rw [hwhole, List.append_assoc, List.singleton_append]
      have hreceived := received_append consumed [poll]
      rcases poll with ⟨_ | (e | (data | trailers)), isEndStream'⟩
      · cases pollFrame_pending.symm.trans h
        have hsame := hreceived.trans (List.append_nil _)
        exact ⟨fun heq => (by cases heq), ⟨_, hrest, hsame.symm ▸ hfeeds⟩,
          rfl, List.suffix_rfl⟩
      · rw [pollFrame] at h
        simp only [Body.pollFrame] at h
        cases h
        exact .error ⟨polls, isEndStream'⟩
      · rw [received_singleton_data] at hreceived
        refine decodes_data hrest ?_ ?_ h
        · intro written hwrite
          exact hreceived.symm ▸ hfeeds.writeAll hwrite
        · intro flushed hfed hpoll
          exact ih hrest hfed.split hpoll
      · have hsame := hreceived.trans (List.append_nil _)
        rw [pollFrame] at h
        simp only [Body.pollFrame, Frame.dataRef] at h
        exact Decodes.ending h (by intro data heq; cases heq) hrest
          (hsame.symm ▸ hfeeds) rfl rfl rfl

/-! ## All polls -/

def NoData (polls : List (Poll (Except Cause Frame) × Bool)) : Prop :=
  ∀ poll ∈ polls, rawData poll = none

theorem NoData.suffix {polls later : List (Poll (Except Cause Frame) × Bool)}
    (h : NoData polls) (hsuffix : later <:+ polls) : NoData later :=
  fun poll hpoll => h poll (hsuffix.subset hpoll)

theorem step_decoding {this this' : DecodedBody δ} {polled : PolledFrame}
    (h : Decoding gz whole this) (hquiet : NoData (this.leftover gz))
    (hstep : this.Step gz polled this') :
    (∀ {data}, polled = .ready (some (.ok (.data data))) →
      (∃ decoder, this.state = .decompressing decoder) ∧
        Produced gz whole this' data) ∧
    Decoding gz whole this' ∧ NoData (this'.leftover gz) := by
  obtain ⟨body, state⟩ := this
  cases state with
  | decompressing decoder =>
      obtain ⟨consumed, hwhole, hfeeds⟩ := h
      have hpoll := decodes_pollFrame hwhole hfeeds hstep
      exact ⟨fun hdata => ⟨⟨decoder, rfl⟩, hpoll.produced hdata⟩,
        hpoll.decoding, hpoll.leftover.symm ▸ hquiet⟩
  | last frame =>
      cases pollFrame_last.symm.trans hstep
      refine ⟨?_, trivial, hquiet⟩
      intro data hdata
      cases hdata
      cases h
  | done =>
      cases pollFrame_done.symm.trans hstep
      obtain ⟨polls, isEndStream⟩ := body
      cases polls with
      | nil => exact ⟨fun hdata => (by cases hdata), trivial, hquiet⟩
      | cons poll polls =>
          have hfirst := hquiet poll List.mem_cons_self
          have hrest : NoData polls := hquiet.suffix (List.suffix_cons _ _)
          rcases poll with ⟨_ | (e | (data | trailers)), isEndStream'⟩
          · exact ⟨fun hdata => (by cases hdata), trivial, hrest⟩
          · exact ⟨fun hdata => (by cases hdata), trivial, hrest⟩
          · cases hfirst
          · exact ⟨fun hdata => (by cases hdata), trivial, hrest⟩

def Leaks (gz : GzDecoder δ) (start : DecodedBody δ) : Prop :=
  ∃ polled data, ∃ this this' : DecodedBody δ,
    Run (Step gz) start polled this ∧ this.state = .done ∧
    this.Step gz (.ready (some (.ok (.data data)))) this'

theorem Leaks.of_step {this this' : DecodedBody δ} {polled : PolledFrame}
    (h : Leaks gz this') (hstep : this.Step gz polled this') :
    Leaks gz this := by
  obtain ⟨later, data, mid, last, run, hdone, hdata⟩ := h
  have first : Run (Step gz) this [polled] this' := Run.step .refl hstep
  exact ⟨_, data, mid, last, first.trans run, hdone, hdata⟩

theorem leaks_done {polls : List (Poll (Except Cause Frame) × Bool)}
    {isEndStream : Bool} (h : ¬ NoData polls) :
    Leaks gz ⟨⟨polls, isEndStream⟩, .done⟩ := by
  induction polls generalizing isEndStream with
  | nil => exact absurd (fun poll hpoll => by cases hpoll) h
  | cons poll polls ih =>
      have hrest (hfirst : rawData poll = none) : ¬ NoData polls := by
        intro hquiet
        apply h
        intro later hlater
        rcases List.mem_cons.mp hlater with rfl | hlater
        · exact hfirst
        · exact hquiet later hlater
      rcases poll with ⟨_ | (e | (data | trailers)), isEndStream'⟩
      · exact (ih (hrest rfl)).of_step pollFrame_done
      · exact (ih (hrest rfl)).of_step pollFrame_done
      · exact ⟨[], data, _, _, .refl, rfl, pollFrame_done⟩
      · exact (ih (hrest rfl)).of_step pollFrame_done

theorem leaks {this : DecodedBody δ} (h : Decoding gz whole this)
    (hloud : ¬ NoData (this.leftover gz)) : Leaks gz this := by
  generalize hlength : this.body.polls.length = length
  induction length using Nat.strong_induction_on generalizing this with
  | h length ih =>
      obtain ⟨⟨polls, isEndStream⟩, state⟩ := this
      cases state with
      | decompressing decoder =>
          obtain ⟨consumed, hwhole, hfeeds⟩ := h
          cases polls with
          | nil => exact absurd (fun poll hpoll => by cases hpoll) hloud
          | cons poll polls =>
              cases hpoll : pollFrame gz
                ⟨⟨poll :: polls, isEndStream⟩, .decompressing decoder⟩ with
              | mk polled this' =>
                  have hdecodes := decodes_pollFrame hwhole hfeeds hpoll
                  have hfewer := hdecodes.fewer.length_le
                  refine (ih this'.body.polls.length ?_ hdecodes.decoding
                    (hdecodes.leftover.symm ▸ hloud) rfl).of_step hpoll
                  rw [← hlength]
                  exact Nat.lt_succ_of_le hfewer
      | last frame => exact (leaks_done hloud).of_step pollFrame_last
      | done => exact leaks_done hloud

theorem neverLeaks_iff {start : DecodedBody δ} (h : Decoding gz whole start) :
    NeverLeaks gz whole start ↔ NoData (start.leftover gz) := by
  constructor
  · intro hnever
    by_contra hloud
    obtain ⟨polled, data, this, this', run, hdone, hdata⟩ := leaks h hloud
    obtain ⟨⟨decoder, hdecoder⟩, _⟩ := hnever run hdata
    cases hdone.symm.trans hdecoder
  · intro hquiet polled this data this' run hdata
    have hlast := run.invariant
      (fun _ this => Decoding gz whole this ∧ NoData (this.leftover gz))
      ⟨h, hquiet⟩ fun hinv hstep =>
        (step_decoding hinv.1 hinv.2 hstep).2
    exact (step_decoding hlast.1 hlast.2 hdata).1 rfl

end DecodedBody

/-! ## Whole responses -/

namespace GzipService

open DecodedBody

variable {δ ε : Type}

/-- Only decoded bytes come out of a compressed response, whatever the inner
body delivers and however often it is polled, exactly when no data frame
comes after what ends the decompression. -/
theorem neverLeaks_iff_noData (gz : GzDecoder δ)
    {inner : HeaderMap → Except ε (Response Body)} {headers : HeaderMap}
    {response : Response Body}
    (hinner : inner (acceptGzip headers) = .ok response)
    (hgzip : response.headers.get "content-encoding" = some gzip) :
    ∃ decoded, GzipService.call gz inner headers = .ok decoded ∧
      (NeverLeaks gz response.body.polls decoded.body ↔
        NoData (afterDecoding gz gz.new response.body.polls)) := by
  obtain ⟨decoded, hcall, hbody⟩ := call_gzip gz hinner hgzip
  refine ⟨decoded, hcall, ?_⟩
  rw [hbody]
  exact neverLeaks_iff ⟨[], rfl, .refl⟩

/-! ## A whole file, and a body that is not compressed -/

def headerRefused (input : List UInt8) : Bool :=
  10 ≤ input.length ∧ input.take 3 ≠ [31, 139, 8]

def checkedDecoder : GzDecoder (Progress UInt8 UInt8) :=
  { storedDecoder with
    writeAll := fun progress chunk =>
      if headerRefused (progress.input ++ chunk) then
        .error (.foreign "std::io::Error")
      else storedDecoder.writeAll progress chunk }

/-- The text `hello world`. -/
def helloWorld : List UInt8 :=
  [104, 101, 108, 108, 111, 32, 119, 111, 114, 108, 100]

def plainBody : Body where
  polls :=
    [(.ready (.ok (.data helloWorld)), false),
      (.ready (.ok (.data helloWorld)), false)]
  isEndStream := false

def plainResponse : Response Body :=
  ⟨.ok, [("content-encoding", gzip)], plainBody⟩

def storedResponse : Response Body :=
  ⟨.ok, [("content-encoding", gzip)], storedBody⟩

/-- Of a whole file nothing but its content comes out, while of the plain text
that is only so if nothing came after its first frame. -/
theorem stored_body_never_leaks :
    (∃ decoded, GzipService.call checkedDecoder
        (fun _ => (.ok storedResponse : Except Unit (Response Body))) [] =
          .ok decoded ∧
      NeverLeaks checkedDecoder storedBody.polls decoded.body) ∧
    ∃ decoded, GzipService.call checkedDecoder
        (fun _ => (.ok plainResponse : Except Unit (Response Body))) [] =
          .ok decoded ∧
      (NeverLeaks checkedDecoder plainBody.polls decoded.body ↔
        NoData (afterDecoding checkedDecoder checkedDecoder.new
          plainBody.polls)) := by
  constructor
  · have hinner : (fun _ : HeaderMap =>
        (.ok storedResponse : Except Unit (Response Body))) (acceptGzip []) =
          .ok storedResponse := rfl
    have hgzip : storedResponse.headers.get "content-encoding" =
        some gzip := rfl
    obtain ⟨decoded, hcall, hleaks⟩ : ∃ decoded,
        GzipService.call checkedDecoder (fun _ =>
          (.ok storedResponse : Except Unit (Response Body))) [] =
            .ok decoded ∧ _ :=
      neverLeaks_iff_noData checkedDecoder hinner hgzip
    have hafter : afterDecoding checkedDecoder checkedDecoder.new
        storedBody.polls = [] := rfl
    have hnone : NoData (afterDecoding checkedDecoder checkedDecoder.new
        storedBody.polls) := by
      rw [hafter]
      exact List.forall_mem_nil _
    exact ⟨decoded, hcall, hleaks.mpr hnone⟩
  · have hinner : (fun _ : HeaderMap =>
        (.ok plainResponse : Except Unit (Response Body))) (acceptGzip []) =
          .ok plainResponse := rfl
    have hgzip : plainResponse.headers.get "content-encoding" =
        some gzip := rfl
    exact neverLeaks_iff_noData checkedDecoder hinner hgzip

/-- The first frame is refused with an error, and the second one comes out as
it is. -/
theorem plain_frame_after_error :
    ∃ decoded, GzipService.call checkedDecoder
        (fun _ => (.ok plainResponse : Except Unit (Response Body))) [] =
          .ok decoded ∧
      ¬ NeverLeaks checkedDecoder plainBody.polls decoded.body ∧
      ∃ this, Run (DecodedBody.Step checkedDecoder) decoded.body
        [.ready (some (.error (.foreign "std::io::Error"))),
          .ready (some (.ok (.data helloWorld)))] this := by
  have hrefused : (⟨plainBody, .decompressing checkedDecoder.new⟩ :
      DecodedBody (Progress UInt8 UInt8)).Step checkedDecoder
      (.ready (some (.error (.foreign "std::io::Error"))))
      ⟨⟨plainBody.polls.tail, false⟩, .done⟩ := by
    unfold DecodedBody.Step
    rw [pollFrame]
    rfl
  have hpassed : (⟨⟨plainBody.polls.tail, false⟩, .done⟩ :
      DecodedBody (Progress UInt8 UInt8)).Step checkedDecoder
      (.ready (some (.ok (.data helloWorld)))) ⟨⟨[], false⟩, .done⟩ :=
    pollFrame_done
  have run : Run (DecodedBody.Step checkedDecoder)
      ⟨plainBody, .decompressing checkedDecoder.new⟩
      ([] ++ [_] ++ [_]) _ := (Run.refl.step hrefused).step hpassed
  refine ⟨_, rfl, ?_, _, run⟩
  intro hnever
  obtain ⟨⟨decoder, hdecoder⟩, _⟩ := hnever (.step .refl hrefused) hpassed
  cases hdecoder

end GzipService

end ConjureRuntime.Service.Gzip
