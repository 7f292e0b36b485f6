import Watchtower.Lib.SortedMap

namespace Watchtower.Lib

universe u v

variable {α : Type u} {κ : Type v} [LinearOrder κ]

/-- The last item of the list filed under a key. -/
def latest (key : α → κ) (k : κ) (l : List α) : Option α :=
  (l.filter (fun a => key a = k)).getLast?

variable {key : α → κ} {k : κ} {a : α} {l l' : List α}

@[simp] theorem latest_nil : latest key k [] = none := rfl

theorem latest_append : latest key k (l ++ l') = (latest key k l').or (latest key k l) := by
  simp [latest, List.getLast?_append]

theorem latest_cons :
    latest key k (a :: l) = (latest key k l).or (if key a = k then some a else none) := by
  rw [← List.singleton_append, latest_append]
  by_cases h : key a = k <;> simp [latest, h]

theorem mem_of_latest (h : latest key k l = some a) : a ∈ l ∧ key a = k := by
  simpa using List.mem_filter.mp (List.mem_of_getLast? h)

theorem latest_eq_none : latest key k l = none ↔ ∀ b ∈ l, key b ≠ k := by
  simp [latest]

/-- Filing every item of a list under its key. -/
def SortedMap.fileAll (key : α → κ) (m : SortedMap κ α) (l : List α) : SortedMap κ α :=
  l.foldl (fun m a => m.insert (key a) a) m

theorem SortedMap.get?_fileAll (m : SortedMap κ α) (l : List α) (k : κ) :
    (m.fileAll key l).get? k = (latest key k l).or (m.get? k) := by
  induction l generalizing m with
  | nil => simp [fileAll]
  | cons a l ih =>
    change ((m.insert (key a) a).fileAll key l).get? k = _
    rw [ih, latest_cons, get?_insert, Option.or_assoc]
    by_cases h : key a = k
    · simp [h]
    · simp [h, Ne.symm h]

end Watchtower.Lib
