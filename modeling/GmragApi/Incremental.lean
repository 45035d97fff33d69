import Mathlib.Data.List.Basic

/-! Reading a stream that arrives in chunks: what cannot be read yet waits for the next chunk. -/

namespace Incremental

variable {α β : Type*}

/-- What is read of the input, and what is left of it. -/
structure Reader (α β : Type*) where
  read : List α → List β × List α
  read_nil : read [] = ([], [])
  /-- What is left is read with what follows it, as if it had come at once. -/
  read_append : ∀ s t, read (s ++ t) =
    ((read s).1 ++ (read ((read s).2 ++ t)).1, (read ((read s).2 ++ t)).2)

variable (reader : Reader α β)

/-- One more chunk, after what is left of those before. -/
def Reader.push (state : List β × List α) (chunk : List α) : List β × List α :=
  let (more, rest) := reader.read (state.2 ++ chunk)
  (state.1 ++ more, rest)

theorem Reader.push_read (s chunk : List α) :
    reader.push (reader.read s) chunk = reader.read (s ++ chunk) :=
  (reader.read_append s chunk).symm

theorem Reader.foldl_push_read (s : List α) (chunks : List (List α)) :
    chunks.foldl reader.push (reader.read s) = reader.read (s ++ chunks.flatten) := by
  induction chunks generalizing s with
  | nil => simp
  | cons chunk chunks ih => rw [List.foldl_cons, reader.push_read, ih, List.flatten_cons,
      List.append_assoc]

/-- However the input is cut, the same is read and the same is left. -/
theorem Reader.foldl_push (chunks : List (List α)) :
    chunks.foldl reader.push ([], []) = reader.read chunks.flatten := by
  have h := reader.foldl_push_read [] chunks
  rwa [reader.read_nil, List.nil_append] at h

end Incremental
