import Mathlib.Data.List.Basic

namespace Watchtower.Lib

universe u

variable {α : Type u}

def chunksFrom (size : Nat) : Nat → List α → List (List α)
  | 0, _ => []
  | _ + 1, [] => []
  | rounds + 1, a :: l => (a :: l).take size :: chunksFrom size rounds ((a :: l).drop size)

/-- Cuts a list into pieces of `size` items, the last one of what is left. -/
def chunks (size : Nat) (l : List α) : List (List α) :=
  chunksFrom size l.length l

theorem chunksFrom_within {size rounds : Nat} {l chunk : List α}
    (h : chunk ∈ chunksFrom size rounds l) : chunk <:+: l := by
  induction rounds generalizing l with
  | zero => simp [chunksFrom] at h
  | succ rounds ih =>
    cases l with
    | nil => simp [chunksFrom] at h
    | cons a l =>
      rcases List.mem_cons.mp h with h | h
      · rw [h]
        exact List.IsPrefix.isInfix <| List.take_prefix size (a :: l)
      · exact (ih h).trans <| List.IsSuffix.isInfix <| List.drop_suffix size (a :: l)

theorem chunk_within {size : Nat} {l chunk : List α} (h : chunk ∈ chunks size l) :
    chunk <:+: l := chunksFrom_within h

theorem chunksFrom_flatten {size rounds : Nat} (hsize : 0 < size) {l : List α}
    (hrounds : l.length ≤ rounds) : (chunksFrom size rounds l).flatten = l := by
  induction rounds generalizing l with
  | zero =>
    obtain rfl := List.length_eq_zero_iff.mp (Nat.le_zero.mp hrounds)
    rfl
  | succ rounds ih =>
    cases l with
    | nil => rfl
    | cons a l =>
      have hrest : ((a :: l).drop size).length ≤ rounds := by
        simp only [List.length_drop, List.length_cons] at hrounds ⊢
        omega
      rw [chunksFrom, List.flatten_cons, ih hrest, List.take_append_drop]

/-- Nothing is lost or moved by cutting. -/
theorem chunks_flatten {size : Nat} (hsize : 0 < size) (l : List α) :
    (chunks size l).flatten = l := chunksFrom_flatten hsize (Nat.le_refl _)

theorem chunksFrom_length {size rounds : Nat} (hsize : 0 < size) {l chunk : List α}
    (h : chunk ∈ chunksFrom size rounds l) : 0 < chunk.length ∧ chunk.length ≤ size := by
  induction rounds generalizing l with
  | zero => simp [chunksFrom] at h
  | succ rounds ih =>
    cases l with
    | nil => simp [chunksFrom] at h
    | cons a l =>
      rcases List.mem_cons.mp h with h | h
      · rw [h, List.length_take, List.length_cons]
        omega
      · exact ih h

theorem chunk_length {size : Nat} (hsize : 0 < size) {l chunk : List α}
    (h : chunk ∈ chunks size l) : 0 < chunk.length ∧ chunk.length ≤ size :=
  chunksFrom_length hsize h

/-- A piece of a range is a range within its bounds. -/
theorem range'_of_within {a n : Nat} {chunk : List Nat} (h : chunk <:+: List.range' a n) :
    ∃ start len, chunk = List.range' start len ∧ a ≤ start ∧ start + len ≤ a + n := by
  obtain ⟨before, after, hsplit⟩ := h
  obtain ⟨k, hk, hleft, -⟩ := List.range'_eq_append_iff.mp hsplit.symm
  obtain ⟨j, hj, -, hchunk⟩ := List.range'_eq_append_iff.mp hleft.symm
  refine ⟨a + j * 1, k - j, hchunk, ?_, ?_⟩ <;> omega

end Watchtower.Lib
