import Mathlib.Data.List.Basic

/-!
# Incremental decoders

A decoder takes its input in pieces and puts its output into a buffer, from
where it may be taken at any time.  It is lawful if the pieces, and when the
output is taken, make no difference to the output as a whole.
-/

namespace ConjureRuntime.Foundation

/-- The operations of a decoder with states `δ`. -/
structure Decoder (α β ε δ : Type*) where
  new : δ
  writeAll : δ → List α → Except ε δ
  flush : δ → Except ε δ
  tryFinish : δ → Except ε δ
  buffer : δ → List β
  /-- What is left when the buffer has been taken. -/
  split : δ → δ

namespace Decoder

variable {α β ε δ : Type*}

/-- The decoder takes an input in one piece, and then finishes with the
output. -/
def Accepts (decoder : Decoder α β ε δ) (input : List α) (output : List β) :
    Prop :=
  ∃ written finished, decoder.writeAll decoder.new input = .ok written ∧
    decoder.tryFinish written = .ok finished ∧ decoder.buffer finished = output

inductive Reaches (decoder : Decoder α β ε δ) :
    List α → List β → δ → Prop where
  | new : Reaches decoder [] [] decoder.new
  | writeAll {input taken chunk state state'} :
      Reaches decoder input taken state →
      decoder.writeAll state chunk = .ok state' →
      Reaches decoder (input ++ chunk) taken state'
  | flush {input taken state state'} :
      Reaches decoder input taken state →
      decoder.flush state = .ok state' → Reaches decoder input taken state'
  | split {input taken state} :
      Reaches decoder input taken state →
      Reaches decoder input (taken ++ decoder.buffer state)
        (decoder.split state)

inductive Feeds (decoder : Decoder α β ε δ) (start : δ) :
    List α → δ → Prop where
  | refl : Feeds decoder start [] start
  | writeAll {input chunk state state'} :
      Feeds decoder start input state →
      decoder.writeAll state chunk = .ok state' →
      Feeds decoder start (input ++ chunk) state'
  | flush {input state state'} :
      Feeds decoder start input state → decoder.flush state = .ok state' →
      Feeds decoder start input state'
  | tryFinish {input state state'} :
      Feeds decoder start input state →
      decoder.tryFinish state = .ok state' → Feeds decoder start input state'
  | split {input state} :
      Feeds decoder start input state →
      Feeds decoder start input (decoder.split state)

/-- In whatever pieces an accepted input comes, the decoder takes it, and all
its output together is the same. -/
structure Lawful (decoder : Decoder α β ε δ) : Prop where
  writeAll : ∀ {whole output input chunk rest taken state},
    decoder.Accepts whole output → whole = input ++ chunk ++ rest →
    decoder.Reaches input taken state →
    ∃ state', decoder.writeAll state chunk = .ok state'
  flush : ∀ {whole output input rest taken state},
    decoder.Accepts whole output → whole = input ++ rest →
    decoder.Reaches input taken state →
    ∃ state', decoder.flush state = .ok state'
  tryFinish : ∀ {whole output taken state},
    decoder.Accepts whole output → decoder.Reaches whole taken state →
    ∃ state', decoder.tryFinish state = .ok state' ∧
      taken ++ decoder.buffer state' = output

/-- What the decoder finishes it also takes in one piece: it does not finish
an input that is cut short or damaged. -/
def Sound (decoder : Decoder α β ε δ) : Prop :=
  ∀ {whole taken state state'}, decoder.Reaches whole taken state →
    decoder.tryFinish state = .ok state' →
    decoder.Accepts whole (taken ++ decoder.buffer state')

/-! ## Decoders from functions -/

structure Progress (α β : Type*) where
  input : List α
  moved : Nat
  buffer : List β

namespace Progress

variable (output : List α → List β)

def move (progress : Progress α β) : Progress α β :=
  { progress with
    moved := (output progress.input).length
    buffer := progress.buffer ++ (output progress.input).drop progress.moved }

end Progress

variable (output : List α → List β) (complete : List α → Bool) (error : ε)

def ofOutput : Decoder α β ε (Progress α β) where
  new := ⟨[], 0, []⟩
  writeAll progress chunk :=
    .ok { progress with input := progress.input ++ chunk }
  flush progress := .ok (progress.move output)
  tryFinish progress :=
    if complete progress.input then .ok (progress.move output)
    else .error error
  buffer := Progress.buffer
  split progress := { progress with buffer := [] }

variable {output complete error}

theorem reaches_ofOutput
    (hgrows : ∀ input chunk, output input <+: output (input ++ chunk))
    {input : List α} {taken : List β} {progress : Progress α β}
    (h : (ofOutput output complete error).Reaches input taken progress) :
    progress.input = input ∧ progress.moved ≤ (output input).length ∧
      taken ++ progress.buffer = (output input).take progress.moved := by
  induction h with
  | new => exact ⟨rfl, Nat.zero_le _, rfl⟩
  | @writeAll input taken chunk state state' _ hwrite ih =>
      cases hwrite
      obtain ⟨rfl, hmoved, htaken⟩ := ih
      have hle := hgrows state.input chunk
      refine ⟨rfl, Nat.le_trans hmoved hle.length_le, ?_⟩
      rw [htaken, List.prefix_iff_eq_take.mp hle, List.take_take,
        Nat.min_eq_left hmoved]
  | @flush input taken state state' _ hflush ih =>
      cases hflush
      obtain ⟨rfl, hmoved, htaken⟩ := ih
      refine ⟨rfl, Nat.le_refl _, ?_⟩
      rw [Progress.move, ← List.append_assoc, htaken, List.take_append_drop,
        List.take_length]
  | split _ ih =>
      obtain ⟨rfl, hmoved, htaken⟩ := ih
      exact ⟨rfl, hmoved, (List.append_nil _).trans htaken⟩

theorem ofOutput_lawful
    (hgrows : ∀ input chunk, output input <+: output (input ++ chunk)) :
    (ofOutput output complete error).Lawful where
  writeAll _ _ _ := ⟨_, rfl⟩
  flush _ _ _ := ⟨_, rfl⟩
  tryFinish := by
    rintro whole content taken progress ⟨written, finished, hwrite, hfinish,
      rfl⟩ hreaches
    cases hwrite
    obtain ⟨rfl, hmoved, htaken⟩ := reaches_ofOutput hgrows hreaches
    simp only [ofOutput, List.nil_append] at hfinish ⊢
    split at hfinish
    · rename_i hcomplete
      cases hfinish
      refine ⟨_, if_pos hcomplete, ?_⟩
      simp only [Progress.move, ← List.append_assoc, htaken,
        List.take_append_drop]
      rfl
    · cases hfinish

theorem ofOutput_sound
    (hgrows : ∀ input chunk, output input <+: output (input ++ chunk)) :
    (ofOutput output complete error).Sound := by
  intro whole taken progress finished hreaches hfinish
  obtain ⟨rfl, hmoved, htaken⟩ := reaches_ofOutput hgrows hreaches
  simp only [ofOutput] at hfinish
  split at hfinish
  · rename_i hcomplete
    cases hfinish
    refine ⟨_, _, rfl, if_pos hcomplete, ?_⟩
    simp only [ofOutput, Progress.move, ← List.append_assoc, htaken,
      List.take_append_drop, List.nil_append, List.drop_zero]
  · cases hfinish

end Decoder

end ConjureRuntime.Foundation
