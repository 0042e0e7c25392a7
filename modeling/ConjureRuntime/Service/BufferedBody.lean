import ConjureRuntime.Service.RawClient

/-!
# Bodies that are put together

The client for browsers reads a body before it sends it.  The ways of
`read_body` for no chunk, for one and for two agree with its loop: what it
returns is what the chunks make together, or an error.
-/

namespace ConjureRuntime.Service.JsClient

/-- What `try_next` returns for the chunks of a body and for its end. -/
def stream (chunks : List Bytes) (ending : Except RequestBodyError Unit) :
    List (Except RequestBodyError Bytes) :=
  chunks.map .ok ++
    match ending with
    | .ok () => []
    | .error error => [.error error]

def wholeBody (limit : Nat) (chunks : List Bytes)
    (ending : Except RequestBodyError Unit) : Except JsError (Option Bytes) :=
  if limit < chunks.flatten.length then .error .bodyTooLarge
  else
    match ending with
    | .ok () => .ok (if chunks = [] then none else some chunks.flatten)
    | .error error => .error (.ofRequestBodyError error)

variable {limit : Nat} {chunks : List Bytes}
  {ending : Except RequestBodyError Unit}

theorem wholeBody_of_large (h : limit < chunks.flatten.length) :
    wholeBody limit chunks ending = .error .bodyTooLarge :=
  if_pos h

theorem wholeBody_ok (h : chunks.flatten.length ≤ limit) :
    wholeBody limit chunks (.ok ()) =
      .ok (if chunks = [] then none else some chunks.flatten) :=
  if_neg (Nat.not_lt.mpr h)

theorem wholeBody_error (h : chunks.flatten.length ≤ limit)
    (error : RequestBodyError) :
    wholeBody limit chunks (.error error) =
      .error (.ofRequestBodyError error) :=
  if_neg (Nat.not_lt.mpr h)

theorem checkLimit_bind (buf : Bytes) (rest : Except JsError (Option Bytes)) :
    (checkLimit buf limit >>= fun _ => rest) =
      if limit < buf.length then .error .bodyTooLarge else rest := by
  unfold checkLimit
  split <;> rfl

/-! ## The loop -/

theorem readRest_stream {buf : Bytes} (hbuf : buf.length ≤ limit) :
    readRest limit buf (stream chunks ending) =
      wholeBody limit (buf :: chunks) ending := by
  induction chunks generalizing buf with
  | nil =>
      have hfits : [buf].flatten.length ≤ limit := by simpa using hbuf
      cases ending with
      | ok =>
          rw [wholeBody_ok hfits]
          simp [stream, readRest]
      | error error =>
          rw [wholeBody_error hfits]
          rfl
  | cons chunk rest ih =>
      have hloop : readRest limit buf (stream (chunk :: rest) ending) =
          if limit < (buf ++ chunk).length then .error .bodyTooLarge
          else readRest limit (buf ++ chunk) (stream rest ending) :=
        checkLimit_bind _ _
      rw [hloop]
      split
      · rename_i hlarge
        rw [wholeBody_of_large]
        simp only [List.length_append] at hlarge
        simp only [List.flatten_cons, List.length_append]
        omega
      · rename_i hfits
        rw [ih (Nat.le_of_not_lt hfits)]
        simp [wholeBody]

/-! ## All ways -/

theorem readBody_stream :
    readBody limit (stream chunks ending) =
      wholeBody limit chunks ending := by
  cases chunks with
  | nil => cases ending <;> simp [stream, readBody, wholeBody]
  | cons first rest =>
      by_cases hfirst : limit < first.length
      · have hread : readBody limit (stream (first :: rest) ending) =
            .error .bodyTooLarge := by
          simp only [stream, List.map_cons, List.cons_append, readBody]
          rw [checkLimit_bind, if_pos hfirst]
        rw [hread, wholeBody_of_large]
        simp only [List.flatten_cons, List.length_append]
        omega
      · have hread : readBody limit (stream (first :: rest) ending) =
            readRest limit first (stream rest ending) := by
          simp only [stream, List.map_cons, List.cons_append, readBody]
          rw [checkLimit_bind, if_neg hfirst]
          cases rest with
          | nil => cases ending <;> rfl
          | cons second rest => rfl
        rw [hread, readRest_stream (Nat.le_of_not_lt hfirst)]

/-- A body is none exactly if it has no chunk, and all its chunks together
exactly if it has some, has ended cleanly and fits; everything else is an
error. -/
theorem read_body_concatenates (limit : Nat) (chunks : List Bytes)
    (ending : Except RequestBodyError Unit) :
    (readBody limit (stream chunks ending) = .ok none ↔
      chunks = [] ∧ ending = .ok ()) ∧
    (∀ data, readBody limit (stream chunks ending) = .ok (some data) ↔
      chunks ≠ [] ∧ ending = .ok () ∧ chunks.flatten.length ≤ limit ∧
        data = chunks.flatten) ∧
    ((∃ error, readBody limit (stream chunks ending) = .error error) ↔
      ¬ (ending = .ok () ∧
        (chunks = [] ∨ chunks.flatten.length ≤ limit))) := by
  rw [readBody_stream]
  by_cases hlarge : limit < chunks.flatten.length
  · have hne : chunks ≠ [] := by
      rintro rfl
      simp at hlarge
    have hlong : ¬ chunks.flatten.length ≤ limit := Nat.not_le.mpr hlarge
    rw [wholeBody_of_large hlarge]
    simp only [hne, hlong, reduceCtorEq, false_and, and_false, or_self,
      not_false_eq_true, implies_true, true_and, Except.error.injEq,
      exists_eq']
  · have hfits := Nat.le_of_not_lt hlarge
    cases ending with
    | error error =>
        rw [wholeBody_error hfits]
        simp
    | ok =>
        rw [wholeBody_ok hfits]
        cases chunks with
        | nil => simp
        | cons first rest =>
            simp only [reduceCtorEq, if_false, hfits, Except.ok.injEq,
              Option.some.injEq, eq_comm]
            simp

end ConjureRuntime.Service.JsClient
