import Mathlib.Data.List.Basic

namespace Watchtower.Lib

universe u v

variable {α : Type u} {β : Type v} {left right whole : List α}

/-- One list is the two others dealt together, each kept in its order. -/
inductive Interleaving : List α → List α → List α → Prop where
  | nil : Interleaving [] [] []
  | left {left right whole : List α} (a : α) : Interleaving left right whole →
      Interleaving (a :: left) right (a :: whole)
  | right {left right whole : List α} (a : α) : Interleaving left right whole →
      Interleaving left (a :: right) (a :: whole)

namespace Interleaving

theorem mem_iff (h : Interleaving left right whole) {a : α} :
    a ∈ whole ↔ a ∈ left ∨ a ∈ right := by
  induction h with
  | nil => simp
  | left b _ ih => simp [ih, or_assoc]
  | right b _ ih => simp [ih, or_left_comm]

theorem filterMap (h : Interleaving left right whole) (f : α → Option β) :
    Interleaving (left.filterMap f) (right.filterMap f) (whole.filterMap f) := by
  induction h with
  | nil => exact .nil
  | left a _ ih | right a _ ih =>
    cases hf : f a with
    | none => simpa only [List.filterMap_cons, hf] using ih
    | some b =>
      simp only [List.filterMap_cons, hf]
      constructor
      exact ih

theorem length_eq (h : Interleaving left right whole) :
    whole.length = left.length + right.length := by
  induction h with
  | nil => rfl
  | left a _ ih =>
    rw [List.length_cons, List.length_cons, ih]
    omega
  | right a _ ih =>
    rw [List.length_cons, List.length_cons, ih]
    omega

/-- Where nothing is dealt in, the list stays as it is. -/
theorem whole_eq_left (h : Interleaving left [] whole) : whole = left := by
  generalize hright : ([] : List α) = right at h
  induction h with
  | nil => rfl
  | left a _ ih => rw [ih hright]
  | right a => contradiction

theorem flatMap_left (h : Interleaving left right whole) {f : α → List β}
    (hright : ∀ a ∈ right, f a = []) : whole.flatMap f = left.flatMap f := by
  induction h with
  | nil => rfl
  | left a _ ih => rw [List.flatMap_cons, List.flatMap_cons, ih hright]
  | right a _ ih =>
    rw [List.flatMap_cons, hright a List.mem_cons_self, List.nil_append,
      ih (fun b hb => hright b (List.mem_cons_of_mem _ hb))]

end Interleaving
end Watchtower.Lib
