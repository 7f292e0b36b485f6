import Mathlib.Data.List.Basic
import Mathlib.Data.List.Nodup
import Mathlib.Order.Lattice

namespace Watchtower.Lib

universe u v

/-- A finite map held as its entries, in strictly increasing order of key. -/
structure SortedMap (κ : Type u) (ν : Type v) [LinearOrder κ] where
  entries : List (κ × ν)
  ordered : entries.Pairwise (fun a b => a.1 < b.1)
  deriving DecidableEq

namespace SortedMap

variable {κ : Type u} {ν : Type v} [LinearOrder κ]

def empty : SortedMap κ ν := ⟨[], .nil⟩

instance : Inhabited (SortedMap κ ν) := ⟨empty⟩

def keys (m : SortedMap κ ν) : List κ := m.entries.map Prod.fst

def size (m : SortedMap κ ν) : Nat := m.entries.length

def get? (m : SortedMap κ ν) (k : κ) : Option ν :=
  (m.entries.find? (fun e => e.1 = k)).map Prod.snd

/-- The entry of the least key. -/
def first? (m : SortedMap κ ν) : Option (κ × ν) := m.entries.head?

def insertEntry (k : κ) (v : ν) : List (κ × ν) → List (κ × ν)
  | [] => [(k, v)]
  | e :: es =>
    if k < e.1 then (k, v) :: e :: es
    else if k = e.1 then (k, v) :: es
    else e :: insertEntry k v es

theorem mem_insertEntry {k : κ} {v : ν} {e : κ × ν} {es : List (κ × ν)}
    (h : e ∈ insertEntry k v es) : e = (k, v) ∨ e ∈ es := by
  induction es with
  | nil => simpa [insertEntry] using h
  | cons x es ih =>
    simp only [insertEntry] at h
    split at h
    · simpa using h
    · split at h
      · rcases List.mem_cons.mp h with h | h
        · exact Or.inl h
        · exact Or.inr (List.mem_cons_of_mem _ h)
      · rcases List.mem_cons.mp h with h | h
        · exact Or.inr (h ▸ List.mem_cons_self)
        · exact (ih h).imp_right (List.mem_cons_of_mem _)

theorem insertEntry_ordered (k : κ) (v : ν) {es : List (κ × ν)}
    (h : es.Pairwise (fun a b => a.1 < b.1)) :
    (insertEntry k v es).Pairwise (fun a b => a.1 < b.1) := by
  induction es with
  | nil => simp [insertEntry]
  | cons x es ih =>
    obtain ⟨hx, hes⟩ := List.pairwise_cons.mp h
    simp only [insertEntry]
    split
    · rename_i hlt
      refine List.pairwise_cons.mpr ⟨?_, h⟩
      intro e he
      rcases List.mem_cons.mp he with rfl | he
      · exact hlt
      · exact hlt.trans (hx e he)
    · split
      · rename_i heq
        exact List.pairwise_cons.mpr ⟨fun e he => heq ▸ hx e he, hes⟩
      · rename_i hlt hne
        refine List.pairwise_cons.mpr ⟨?_, ih hes⟩
        intro e he
        rcases mem_insertEntry he with rfl | he
        · exact lt_of_le_of_ne (not_lt.mp hlt) (Ne.symm hne)
        · exact hx e he

/-- Inserting under a key already present replaces its value. -/
def insert (m : SortedMap κ ν) (k : κ) (v : ν) : SortedMap κ ν :=
  ⟨insertEntry k v m.entries, insertEntry_ordered k v m.ordered⟩

def erase (m : SortedMap κ ν) (k : κ) : SortedMap κ ν :=
  ⟨m.entries.filter (fun e => e.1 ≠ k), m.ordered.filter _⟩

/-- The entries from `k` on. -/
def splitOff (m : SortedMap κ ν) (k : κ) : SortedMap κ ν :=
  ⟨m.entries.filter (fun e => k ≤ e.1), m.ordered.filter _⟩

theorem mem_entries {m : SortedMap κ ν} {k : κ} {v : ν} :
    (k, v) ∈ m.entries ↔ m.get? k = some v := by
  obtain ⟨es, ho⟩ := m
  simp only [get?]
  induction es with
  | nil => simp
  | cons e es ih =>
    obtain ⟨he, hes⟩ := List.pairwise_cons.mp ho
    by_cases hk : e.1 = k
    · have hno : (k, v) ∉ es := fun hm => lt_irrefl k (hk ▸ he (k, v) hm)
      rw [List.find?_cons_of_pos (by simpa using hk)]
      simp only [List.mem_cons, hno, or_false, Option.map_some, Option.some.injEq]
      exact ⟨fun h => by rw [← h], fun h => Prod.ext hk.symm h.symm⟩
    · rw [List.find?_cons_of_neg (by simpa using hk), ← ih hes, List.mem_cons]
      exact ⟨fun h => h.resolve_left (fun h => hk (by rw [← h])), Or.inr⟩

theorem mem_keys {m : SortedMap κ ν} {k : κ} : k ∈ m.keys ↔ ∃ v, m.get? k = some v := by
  constructor
  · intro h
    obtain ⟨⟨j, v⟩, he, rfl⟩ := List.mem_map.mp h
    exact ⟨v, mem_entries.mp he⟩
  · intro h
    obtain ⟨v, hv⟩ := h
    exact List.mem_map.mpr ⟨(k, v), mem_entries.mpr hv, rfl⟩

theorem not_mem_keys {m : SortedMap κ ν} {k : κ} : k ∉ m.keys ↔ m.get? k = none := by
  rw [mem_keys, Option.eq_none_iff_forall_ne_some]
  exact not_exists

/-- Two maps that answer every lookup alike are the same map. -/
theorem ext_get? {a b : SortedMap κ ν} (h : ∀ k, a.get? k = b.get? k) : a = b := by
  obtain ⟨as, ha⟩ := a
  obtain ⟨bs, hb⟩ := b
  have hp : as.Perm bs := by
    refine (List.perm_ext_iff_of_nodup (ha.imp ?_) (hb.imp ?_)).mpr ?_
    · intro x y hxy he
      exact ne_of_lt hxy (by rw [he])
    · intro x y hxy he
      exact ne_of_lt hxy (by rw [he])
    · intro e
      obtain ⟨k, v⟩ := e
      exact (mem_entries (m := ⟨as, ha⟩)).trans
        ((by rw [h k] : _ ↔ _).trans (mem_entries (m := ⟨bs, hb⟩)).symm)
  obtain rfl : as = bs :=
    hp.eq_of_pairwise (fun x y _ _ hxy hyx => absurd hxy (not_lt.mpr hyx.le)) ha hb
  rfl

@[simp] theorem get?_empty (k : κ) : (empty : SortedMap κ ν).get? k = none := rfl

@[simp] theorem keys_empty : (empty : SortedMap κ ν).keys = [] := rfl

@[simp] theorem size_empty : (empty : SortedMap κ ν).size = 0 := rfl

theorem get?_insert (m : SortedMap κ ν) (k j : κ) (v : ν) :
    (m.insert k v).get? j = if j = k then some v else m.get? j := by
  obtain ⟨es, ho⟩ := m
  simp only [insert, get?]
  induction es with
  | nil => by_cases h : k = j <;> simp [insertEntry, h, Ne.symm, eq_comm]
  | cons e es ih =>
    have ih := ih (List.pairwise_cons.mp ho).2
    simp only [insertEntry]
    split
    · by_cases h : k = j
      · simp [h]
      · simp [List.find?_cons, h, @eq_comm _ j]
    · split
      · rename_i heq
        by_cases h : k = j
        · simp [h]
        · simp [← heq, h, @eq_comm _ j]
      · rename_i hne
        by_cases h : e.1 = j
        · have hj : j ≠ k := fun hc => hne (by rw [h, hc])
          simp [h, hj]
        · simpa [List.find?_cons, h] using ih

@[simp] theorem get?_insert_self (m : SortedMap κ ν) (k : κ) (v : ν) :
    (m.insert k v).get? k = some v := by simp [get?_insert]

theorem get?_insert_of_ne (m : SortedMap κ ν) {k j : κ} (v : ν) (h : j ≠ k) :
    (m.insert k v).get? j = m.get? j := by simp [get?_insert, h]

theorem get?_erase (m : SortedMap κ ν) (k j : κ) :
    (m.erase k).get? j = if j = k then none else m.get? j := by
  apply Option.ext
  intro v
  rw [← mem_entries]
  by_cases h : j = k <;> simp [erase, h, mem_entries]

@[simp] theorem get?_erase_self (m : SortedMap κ ν) (k : κ) : (m.erase k).get? k = none := by
  simp [get?_erase]

theorem get?_erase_of_ne (m : SortedMap κ ν) {k j : κ} (h : j ≠ k) :
    (m.erase k).get? j = m.get? j := by simp [get?_erase, h]

/-- What is there already may be put there again. -/
theorem insert_get? {m : SortedMap κ ν} {k : κ} {v : ν} (h : m.get? k = some v) :
    m.insert k v = m := by
  apply ext_get?
  intro j
  rw [get?_insert]
  split
  · rename_i he
    rw [he, h]
  · rfl

theorem erase_insert (m : SortedMap κ ν) (k : κ) (v : ν) : (m.insert k v).erase k = m.erase k := by
  apply ext_get?
  intro j
  rw [get?_erase, get?_erase, get?_insert]
  split <;> rfl

theorem get?_splitOff (m : SortedMap κ ν) (k j : κ) :
    (m.splitOff k).get? j = if k ≤ j then m.get? j else none := by
  apply Option.ext
  intro v
  rw [← mem_entries]
  by_cases h : k ≤ j <;> simp [splitOff, h, mem_entries]

theorem mem_keys_insert {m : SortedMap κ ν} {k j : κ} {v : ν} :
    j ∈ (m.insert k v).keys ↔ j = k ∨ j ∈ m.keys := by
  simp only [mem_keys, get?_insert]
  by_cases h : j = k <;> simp [h]

theorem mem_keys_erase {m : SortedMap κ ν} {k j : κ} :
    j ∈ (m.erase k).keys ↔ j ≠ k ∧ j ∈ m.keys := by
  simp only [mem_keys, get?_erase]
  by_cases h : j = k <;> simp [h]

theorem first?_eq_none {m : SortedMap κ ν} : m.first? = none ↔ m.keys = [] := by
  simp [first?, keys]

theorem size_eq_zero {m : SortedMap κ ν} : m.size = 0 ↔ m.keys = [] := by
  simp [size, keys]

/-- The first entry is an entry, and its key is the least. -/
theorem first?_eq_some {m : SortedMap κ ν} {k : κ} {v : ν} :
    m.first? = some (k, v) ↔ m.get? k = some v ∧ ∀ j ∈ m.keys, k ≤ j := by
  constructor
  · intro h
    obtain ⟨es, he⟩ : ∃ es, m.entries = (k, v) :: es := List.head?_eq_some_iff.mp h
    refine ⟨mem_entries.mp (by simp [he]), ?_⟩
    intro j hj
    have ho := m.ordered
    rw [he] at ho
    simp only [keys, he, List.map_cons, List.mem_cons] at hj
    rcases hj with rfl | hj
    · exact le_refl _
    · obtain ⟨e, hm, rfl⟩ := List.mem_map.mp hj
      exact ((List.pairwise_cons.mp ho).1 e hm).le
  · intro h
    obtain ⟨hv, hle⟩ := h
    cases hf : m.first? with
    | none =>
      have hk : k ∈ m.keys := mem_keys.mpr ⟨v, hv⟩
      simp [first?_eq_none.mp hf] at hk
    | some e =>
      obtain ⟨es, he⟩ : ∃ es, m.entries = e :: es := List.head?_eq_some_iff.mp hf
      have hme : (k, v) ∈ e :: es := he ▸ mem_entries.mpr hv
      have ho := m.ordered
      rw [he] at ho
      rcases List.mem_cons.mp hme with h | h
      · rw [h]
      · have hlt := (List.pairwise_cons.mp ho).1 _ h
        exact absurd (hle e.1 (by simp [keys, he])) (not_le.mpr hlt)

/-- Taking the first entry off leaves the rest. -/
theorem entries_erase_first {m : SortedMap κ ν} {k : κ} {v : ν}
    (h : m.first? = some (k, v)) : m.entries = (k, v) :: (m.erase k).entries := by
  obtain ⟨es, he⟩ : ∃ es, m.entries = (k, v) :: es := List.head?_eq_some_iff.mp h
  have ho := m.ordered
  rw [he] at ho
  have hes : es.filter (fun e => e.1 ≠ k) = es := by
    apply List.filter_eq_self.mpr
    intro e hm
    have := (List.pairwise_cons.mp ho).1 e hm
    simpa using ne_of_gt this
  have htail : (m.erase k).entries = es := by
    change m.entries.filter _ = es
    rw [he, List.filter_cons_of_neg (by simp), hes]
  rw [htail, he]

theorem size_erase_first {m : SortedMap κ ν} {k : κ} {v : ν} (h : m.first? = some (k, v)) :
    m.size = (m.erase k).size + 1 := by
  simp only [size, entries_erase_first h, List.length_cons]

theorem size_insertEntry_le (k : κ) (v : ν) (es : List (κ × ν)) :
    (insertEntry k v es).length ≤ es.length + 1 := by
  induction es with
  | nil => simp [insertEntry]
  | cons e es ih =>
    simp only [insertEntry]
    split
    · simp
    · split
      · simp
      · simpa using ih

theorem size_insertEntry_of_not_mem {k : κ} (v : ν) {es : List (κ × ν)}
    (h : k ∉ es.map Prod.fst) : (insertEntry k v es).length = es.length + 1 := by
  induction es with
  | nil => rfl
  | cons e es ih =>
    rw [List.map_cons, List.mem_cons, not_or] at h
    simp only [insertEntry, if_neg h.1]
    split
    · rfl
    · rw [List.length_cons, ih h.2, List.length_cons]

theorem size_insert_of_not_mem {m : SortedMap κ ν} {k : κ} (v : ν) (h : k ∉ m.keys) :
    (m.insert k v).size = m.size + 1 :=
  size_insertEntry_of_not_mem v h

theorem size_insert_le (m : SortedMap κ ν) (k : κ) (v : ν) : (m.insert k v).size ≤ m.size + 1 :=
  size_insertEntry_le k v m.entries

end SortedMap
end Watchtower.Lib
