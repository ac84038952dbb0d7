import Mathlib.Data.List.Basic

namespace Protocols

variable {α : Type*}

/-- The `i`-th block, counted from 1, when `xs` is cut into blocks of `n` entries. -/
def chunk (n : Nat) (xs : List α) (i : Nat) : List α := (xs.drop (n * (i - 1))).take n

/-- Number of blocks up to and including the first short one; an empty list has none. -/
def chunkCount (n : Nat) (xs : List α) : Nat := if xs = [] then 0 else xs.length / n + 1

theorem chunk_length (n : Nat) (xs : List α) (i : Nat) :
    (chunk n xs i).length = min n (xs.length - n * (i - 1)) := by
  simp [chunk]

theorem take_append_chunk (n : Nat) (xs : List α) (c : Nat) :
    xs.take (n * c) ++ chunk n xs (c + 1) = xs.take (n * (c + 1)) := by
  rw [chunk, Nat.add_sub_cancel, Nat.mul_succ, List.take_add]

theorem chunks_flatten (n : Nat) (xs : List α) (c : Nat) :
    ((List.range c).map fun k => chunk n xs (k + 1)).flatten = xs.take (n * c) := by
  induction c with
  | zero => simp
  | succ c ih =>
    rw [List.range_succ, List.map_append, List.flatten_append, ih]
    simpa using take_append_chunk n xs c

theorem length_le_of_chunkCount_le {n : Nat} (hn : 0 < n) {xs : List α} {c : Nat}
    (h : chunkCount n xs ≤ c) : xs.length ≤ n * c := by
  unfold chunkCount at h
  split at h
  next he => simp [he]
  next =>
    have hlt := Nat.lt_mul_div_succ xs.length hn
    exact Nat.le_trans (Nat.le_of_lt hlt) (Nat.mul_le_mul_left n h)

end Protocols
