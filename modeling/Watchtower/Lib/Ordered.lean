import Mathlib.Data.List.Basic
import Mathlib.Data.List.Nodup
import Mathlib.Order.Basic

namespace Watchtower.Lib

universe u v

variable {α : Type u} {κ : Type v}

/-- Two filters of one list that differ only in letting `x` through: the
longer result is the shorter one with `x` put in at one place. -/
theorem filter_split {l : List α} {p q : α → Bool} {x : α} (hn : l.Nodup) (hx : x ∈ l)
    (hp : p x = true) (hq : q x = false) (hagree : ∀ a ∈ l, a ≠ x → p a = q a) :
    ∃ front back, l.filter p = front ++ x :: back ∧ l.filter q = front ++ back := by
  obtain ⟨before, after, rfl⟩ := List.append_of_mem hx
  have hnb := List.nodup_middle.mp hn
  have hne : ∀ a ∈ before ++ after, a ≠ x := by
    rintro a ha rfl
    exact (List.nodup_cons.mp hnb).1 ha
  have hsame : ∀ m, m ⊆ before ++ after → m.filter p = m.filter q := by
    intro m hm
    apply List.filter_congr
    intro a ha
    refine hagree a ?_ (hne a (hm ha))
    have := hm ha
    simp only [List.mem_append, List.mem_cons] at this ⊢
    tauto
  refine ⟨before.filter q, after.filter q, ?_, ?_⟩
  · rw [List.filter_append, List.filter_cons_of_pos hp,
      hsame before (List.subset_append_left _ _), hsame after (List.subset_append_right _ _)]
  · rw [List.filter_append, List.filter_cons_of_neg (by simp [hq])]

/-- In a list ordered by key, what stands before and behind an item has a
smaller and a larger key. -/
theorem keys_around [LT κ] (key : α → κ) {front back : List α} {x : α}
    (h : (front ++ x :: back).Pairwise (fun a b => key a < key b)) :
    (∀ a ∈ front, key a < key x) ∧ ∀ a ∈ back, key x < key a := by
  obtain ⟨-, hback, hcross⟩ := List.pairwise_append.mp h
  exact ⟨fun a ha => hcross a ha x List.mem_cons_self, (List.pairwise_cons.mp hback).1⟩

/-- An item may go between those of smaller and those of larger key. -/
theorem ordered_around [Preorder κ] (key : α → κ) {front back : List α} {x : α}
    (h : (front ++ back).Pairwise (fun a b => key a < key b)) (hf : ∀ a ∈ front, key a < key x)
    (hb : ∀ a ∈ back, key x < key a) :
    (front ++ x :: back).Pairwise (fun a b => key a < key b) := by
  obtain ⟨hfront, hback, -⟩ := List.pairwise_append.mp h
  refine List.pairwise_append.mpr ⟨hfront, List.pairwise_cons.mpr ⟨hb, hback⟩, ?_⟩
  intro a ha b hm
  rcases List.mem_cons.mp hm with rfl | hm
  · exact hf a ha
  · exact (hf a ha).trans (hb b hm)

theorem eq_of_map_eq {f : α → κ} {l l' : List α} (h : l.map f = l'.map f)
    (hinj : ∀ a ∈ l, ∀ b ∈ l', f a = f b → a = b) : l = l' := by
  induction l generalizing l' with
  | nil => exact (List.map_eq_nil_iff.mp h.symm).symm
  | cons a l ih =>
    cases l' with
    | nil => simp at h
    | cons b l' =>
      obtain ⟨hab, hl⟩ := List.cons.inj h
      obtain rfl := hinj a List.mem_cons_self b List.mem_cons_self hab
      rw [ih hl (fun x hx y hy =>
        hinj x (List.mem_cons_of_mem _ hx) y (List.mem_cons_of_mem _ hy))]

theorem takeWhile_around {p : α → Bool} {front back : List α} (hf : ∀ a ∈ front, p a = true)
    (hb : ∀ a ∈ back, p a = false) : (front ++ back).takeWhile p = front := by
  rw [List.takeWhile_append_of_pos hf]
  cases back with
  | nil => simp
  | cons a back => simp [hb a List.mem_cons_self]

theorem insertIdx_middle (front back : List α) (x : α) :
    (front ++ back).insertIdx front.length x = front ++ x :: back := by
  induction front with
  | nil => rfl
  | cons a front ih =>
    rw [List.cons_append, List.length_cons, List.insertIdx_succ_cons, ih, List.cons_append]

/-- A range up to `next` goes on with the `n` numbers from there on. -/
theorem range'_extend {start next : Nat} (n : Nat) (h : start ≤ next) :
    List.range' start (next - start) ++ List.range' next n =
      List.range' start (next - start + n) := by
  have hcat := List.range'_append_1 (s := start) (m := next - start) (n := n)
  rwa [show start + (next - start) = next by omega] at hcat

end Watchtower.Lib
