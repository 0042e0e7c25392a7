import Mathlib.Data.List.Basic

/-!
# Reading chunks up to a limit

A reader puts chunks together and looks at their length after each of them; it
stops with the first one that takes it past the limit.  What it has then is
all there is, or some prefix past the limit, and every such prefix is what it
has for some chunks.
-/

namespace ConjureRuntime.Foundation.Chunks

variable {α β : Type*} {limit : Nat} {chunks : List (List α)}
  {read body cut : List α}

def collect (limit : Nat) : List α → List (List α) → List α
  | read, [] => read
  | read, chunk :: chunks =>
      if limit < (read ++ chunk).length then read ++ chunk
      else collect limit (read ++ chunk) chunks

theorem collect_isPrefix (limit : Nat) (read : List α)
    (chunks : List (List α)) :
    collect limit read chunks <+: read ++ chunks.flatten := by
  induction chunks generalizing read with
  | nil => simp [collect]
  | cons chunk chunks ih =>
      rw [List.flatten_cons, ← List.append_assoc]
      unfold collect
      split
      · exact List.prefix_append _ _
      · exact ih _

theorem collect_whole_or_long (limit : Nat) (read : List α)
    (chunks : List (List α)) :
    collect limit read chunks = read ++ chunks.flatten ∨
      limit < (collect limit read chunks).length := by
  induction chunks generalizing read with
  | nil => simp [collect]
  | cons chunk chunks ih =>
      rw [List.flatten_cons, ← List.append_assoc]
      unfold collect
      split
      · rename_i hlong
        exact .inr hlong
      · exact ih _

theorem collect_one : collect limit [] [body] = body := by
  simp [collect]

theorem exists_collect (hcut : cut <+: body) (hlong : limit < cut.length) :
    ∃ chunks, chunks.flatten = body ∧ collect limit [] chunks = cut := by
  obtain ⟨rest, rfl⟩ := hcut
  refine ⟨[cut, rest], by simp, ?_⟩
  rw [collect, List.nil_append, if_pos hlong]

theorem same_for_all_chunks_iff (f : List α → β) :
    (∀ chunks chunks', chunks.flatten = body → chunks'.flatten = body →
      f (collect limit [] chunks) = f (collect limit [] chunks')) ↔
    ∀ cut, cut <+: body → limit < cut.length → f cut = f body := by
  constructor
  · intro hsame cut hcut hlong
    obtain ⟨chunks, hchunks, hcollect⟩ := exists_collect hcut hlong
    have h := hsame chunks [body] hchunks (by simp)
    rwa [hcollect, collect_one] at h
  · intro hcuts
    have hwhole : ∀ chunks, chunks.flatten = body →
        f (collect limit [] chunks) = f body := by
      intro chunks hchunks
      have hcut : collect limit [] chunks <+: body := by
        simpa [hchunks] using collect_isPrefix limit [] chunks
      rcases collect_whole_or_long limit [] chunks with hall | hlong
      · rw [hall, List.nil_append, hchunks]
      · exact hcuts _ hcut hlong
    intro chunks chunks' hchunks hchunks'
    rw [hwhole chunks hchunks, hwhole chunks' hchunks']

end ConjureRuntime.Foundation.Chunks
