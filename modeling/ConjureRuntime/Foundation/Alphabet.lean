import Mathlib.Computability.RegularExpressions

/-!
# The letters of regular expressions

A text that a regular expression matches is made of the letters that stand in
the expression, which is all that matters for telling apart the parts of a
format by the letters between them.
-/

namespace ConjureRuntime.Foundation

open RegularExpression

variable {α : Type*}

def oneOf : List α → RegularExpression α
  | [] => 0
  | letter :: letters => char letter + oneOf letters

def optional (P : RegularExpression α) : RegularExpression α := 1 + P

def oneOrMore (P : RegularExpression α) : RegularExpression α := P * star P

/-! ## Texts of classes -/

theorem mem_oneOf {letters text : List α} :
    text ∈ (oneOf letters).matches' ↔ ∃ letter ∈ letters, text = [letter] := by
  induction letters with
  | nil => exact iff_of_false (Language.notMem_zero text) (by simp)
  | cons letter letters ih =>
      rw [oneOf, matches'_add, Language.mem_add, ih, matches'_char]
      simp only [List.mem_cons, exists_eq_or_imp]
      rfl

theorem mem_star_oneOf {letters text : List α} :
    text ∈ (star (oneOf letters)).matches' ↔
      ∀ letter ∈ text, letter ∈ letters := by
  rw [matches'_star, Language.mem_kstar]
  constructor
  · rintro ⟨parts, rfl, hparts⟩ letter hmem
    obtain ⟨part, hpart, hletter⟩ := List.mem_flatten.mp hmem
    obtain ⟨other, hother, rfl⟩ := mem_oneOf.mp (hparts part hpart)
    rwa [List.mem_singleton.mp hletter]
  · intro h
    refine ⟨text.map fun letter => [letter], ?_, ?_⟩
    · rw [← List.flatMap_def, List.flatMap_singleton']
    · intro part hpart
      obtain ⟨letter, hletter, rfl⟩ := List.mem_map.mp hpart
      exact mem_oneOf.mpr ⟨letter, h letter hletter, rfl⟩

theorem mem_mul {P Q : RegularExpression α} {left right : List α}
    (hleft : left ∈ P.matches') (hright : right ∈ Q.matches') :
    left ++ right ∈ (P * Q).matches' :=
  Language.mem_mul.mpr ⟨left, hleft, right, hright, rfl⟩

theorem cons_mem_mul_star {first letters text : List α} {letter : α}
    (hletter : letter ∈ first) (htext : ∀ other ∈ text, other ∈ letters) :
    letter :: text ∈ (oneOf first * star (oneOf letters)).matches' :=
  mem_mul (mem_oneOf.mpr ⟨letter, hletter, rfl⟩) (mem_star_oneOf.mpr htext)

theorem mem_oneOrMore_oneOf {letters text : List α} (hne : text ≠ [])
    (htext : ∀ letter ∈ text, letter ∈ letters) :
    text ∈ (oneOrMore (oneOf letters)).matches' := by
  cases text with
  | nil => exact absurd rfl hne
  | cons letter rest =>
      exact cons_mem_mul_star (htext letter List.mem_cons_self)
        fun other hmem => htext other (List.mem_cons_of_mem _ hmem)

theorem mem_mul_optional {P : RegularExpression α} {text : List α}
    (h : text ∈ P.matches') (Q : RegularExpression α) :
    text ∈ (P * optional Q).matches' := by
  have hnil : [] ∈ (optional Q).matches' := .inl rfl
  simpa using mem_mul h hnil

theorem mem_star {P : RegularExpression α} {parts : List (List α)}
    (h : ∀ part ∈ parts, part ∈ P.matches') :
    parts.flatten ∈ (star P).matches' :=
  Language.mem_kstar.mpr ⟨parts, rfl, h⟩

/-! ## Letters -/

theorem forall_mem_of_all {p : α → Prop} [DecidablePred p]
    {letters : List α}
    (h : letters.all (fun letter => decide (p letter)) = true) :
    ∀ letter ∈ letters, p letter :=
  fun letter hmem => of_decide_eq_true (List.all_eq_true.mp h letter hmem)

def alphabet : RegularExpression α → List α
  | .zero | .epsilon => []
  | .char letter => [letter]
  | .plus P Q | .comp P Q => alphabet P ++ alphabet Q
  | .star P => alphabet P

theorem mem_alphabet_of_matches {P : RegularExpression α} {text : List α}
    (h : text ∈ P.matches') : ∀ letter ∈ text, letter ∈ alphabet P := by
  induction P generalizing text with
  | zero => exact absurd h id
  | epsilon =>
      rw [show text = [] from h]
      simp
  | char letter =>
      rw [show text = [letter] from h]
      exact fun _ hmem => hmem
  | plus P Q ihP ihQ =>
      intro letter hmem
      rcases h with h | h
      · exact List.mem_append_left _ (ihP h letter hmem)
      · exact List.mem_append_right _ (ihQ h letter hmem)
  | comp P Q ihP ihQ =>
      intro letter hmem
      obtain ⟨left, hleft, right, hright, rfl⟩ := Language.mem_mul.mp h
      rcases List.mem_append.mp hmem with hmem | hmem
      · exact List.mem_append_left _ (ihP hleft letter hmem)
      · exact List.mem_append_right _ (ihQ hright letter hmem)
  | star P ih =>
      intro letter hmem
      obtain ⟨parts, rfl, hparts⟩ := Language.mem_kstar.mp h
      obtain ⟨part, hpart, hletter⟩ := List.mem_flatten.mp hmem
      exact ih (hparts part hpart) letter hletter

variable [DecidableEq α]

theorem mem_alphabet_of_rmatch {P : RegularExpression α} {text : List α}
    (h : P.rmatch text = true) : ∀ letter ∈ text, letter ∈ alphabet P :=
  mem_alphabet_of_matches ((rmatch_iff_matches' P text).mp h)

end ConjureRuntime.Foundation
