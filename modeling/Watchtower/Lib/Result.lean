import Mathlib.Data.List.Forall2

namespace Watchtower.Lib

universe u

variable {ε σ α β : Type u}

/-- The state a computation leaves behind, whether it succeeds or not. -/
def finalState : EStateM.Result ε σ α → σ
  | .ok _ s => s
  | .error _ s => s

@[simp] theorem finalState_ok (a : α) (s : σ) :
    finalState (.ok a s : EStateM.Result ε σ α) = s := rfl

@[simp] theorem finalState_error (e : ε) (s : σ) :
    finalState (.error e s : EStateM.Result ε σ α) = s := rfl

theorem mapM_cons_ok {f : α → Except ε β} {a : α} {l : List α} {out : List β}
    (h : (a :: l).mapM f = .ok out) :
    ∃ b rest, f a = .ok b ∧ l.mapM f = .ok rest ∧ out = b :: rest := by
  rw [List.mapM_cons] at h
  cases hb : f a with
  | error e => simp [hb, bind, Except.bind] at h
  | ok b =>
    cases hr : l.mapM f with
    | error e => simp [hb, hr, bind, Except.bind] at h
    | ok rest =>
      simp only [hb, hr, bind, Except.bind, pure, Except.pure, Except.ok.injEq] at h
      exact ⟨b, rest, rfl, rfl, h.symm⟩

theorem mapM_cons_of_ok {f : α → Except ε β} {a : α} {b : β} {l : List α} {out : List β}
    (ha : f a = .ok b) (hl : l.mapM f = .ok out) : (a :: l).mapM f = .ok (b :: out) := by
  rw [List.mapM_cons, ha, hl]
  rfl

/-- Each item of a list made from another is traversed as its original says. -/
theorem mapM_map_ok {γ : Type u} {f : α → Except ε β} {g : γ → α} {k : γ → β} {l : List γ}
    (h : ∀ c ∈ l, f (g c) = .ok (k c)) : (l.map g).mapM f = .ok (l.map k) := by
  induction l with
  | nil => rfl
  | cons c l ih =>
    rw [List.map_cons, List.map_cons]
    apply mapM_cons_of_ok
    · exact h c List.mem_cons_self
    · exact ih (fun d hd => h d (List.mem_cons_of_mem c hd))

/-- A traversal that succeeds yields one result for each item, in order. -/
theorem forall₂_of_mapM_ok {f : α → Except ε β} {l : List α} {out : List β}
    (h : l.mapM f = .ok out) : List.Forall₂ (fun a b => f a = .ok b) l out := by
  induction l generalizing out with
  | nil =>
    simp only [List.mapM_nil, pure, Except.pure, Except.ok.injEq] at h
    exact h ▸ .nil
  | cons a l ih =>
    obtain ⟨b, rest, hf, hr, rfl⟩ := mapM_cons_ok h
    exact .cons hf (ih hr)

theorem length_of_mapM_ok {f : α → Except ε β} {l : List α} {out : List β}
    (h : l.mapM f = .ok out) : out.length = l.length :=
  (forall₂_of_mapM_ok h).length_eq.symm

theorem getElem?_of_mapM_ok {f : α → Except ε β} {l : List α} {out : List β} {k : Nat} {a : α}
    (h : l.mapM f = .ok out) (ha : l[k]? = some a) : ∃ b, out[k]? = some b ∧ f a = .ok b := by
  obtain ⟨hk, rfl⟩ := List.getElem?_eq_some_iff.mp ha
  have hk' : k < out.length := (length_of_mapM_ok h).symm ▸ hk
  exact ⟨out[k], List.getElem?_eq_getElem hk', (forall₂_of_mapM_ok h).get hk hk'⟩

/-- Each item on the right has a partner on the left. -/
theorem exists_mem_of_forall₂ {R : α → β → Prop} {l : List α} {out : List β} {b : β}
    (h : List.Forall₂ R l out) (hb : b ∈ out) : ∃ a ∈ l, R a b := by
  induction h with
  | nil => simp at hb
  | cons hr _ ih =>
    rcases List.mem_cons.mp hb with rfl | hb
    · exact ⟨_, List.mem_cons_self, hr⟩
    · obtain ⟨a, ha, hab⟩ := ih hb
      exact ⟨a, List.mem_cons_of_mem _ ha, hab⟩

theorem forall₂_mapIdx {R : α → β → Prop} {f : Nat → α → β} {l : List α}
    (h : ∀ k (hk : k < l.length), R l[k] (f k l[k])) : List.Forall₂ R l (l.mapIdx f) := by
  apply List.forall₂_iff_get.mpr
  refine ⟨List.length_mapIdx.symm, ?_⟩
  intro k hk hk'
  simp only [List.get_eq_getElem, List.getElem_mapIdx]
  exact h k hk

end Watchtower.Lib
