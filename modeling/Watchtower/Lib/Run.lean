import Mathlib.Data.List.Basic
import Mathlib.Order.RelClasses

namespace Watchtower.Lib

universe u v

variable {σ : Type u} {ε : Type v} {step : σ → ε → Option σ} {admitted : σ → ε → Prop}

/-- The states a machine reaches when each event is one `admitted` in the state it meets. -/
inductive Run (step : σ → ε → Option σ) (admitted : σ → ε → Prop) (s : σ) : σ → Prop where
  | start : Run step admitted s s
  | next {t u : σ} {e : ε} : Run step admitted s t → admitted t e → step t e = some u →
      Run step admitted s u

namespace Run

/-- What holds at the start and across each admitted step holds in every state of a run. -/
theorem invariant {motive : σ → Prop} {s t : σ} (h : Run step admitted s t) (hs : motive s)
    (keep : ∀ t u e, motive t → admitted t e → step t e = some u → motive u) : motive t := by
  induction h with
  | start => exact hs
  | next _ ha hstep ih => exact keep _ _ _ ih ha hstep

theorem trans {s t u : σ} (h : Run step admitted s t) (h' : Run step admitted t u) :
    Run step admitted s u := by
  induction h' with
  | start => exact h
  | next _ ha hstep ih => exact ih.next ha hstep

theorem mono {other : σ → ε → Prop} (hle : ∀ t e, admitted t e → other t e) {s t : σ}
    (h : Run step admitted s t) : Run step other s t := by
  induction h with
  | start => exact .start
  | next _ ha hstep ih => exact ih.next (hle _ _ ha) hstep

/-- A run goes on to a final state when every step lowers a measure and only
final states have none. -/
theorem ends {final : σ → Prop} {measure : σ → Nat} {s t : σ} (h : Run step admitted s t)
    (progress : ∀ t, Run step admitted s t → ¬ final t →
      ∃ e, admitted t e ∧ (step t e).isSome = true)
    (lowers : ∀ t e u, Run step admitted s t → admitted t e → step t e = some u →
      measure u < measure t) :
    ∃ u, Run step admitted t u ∧ final u := by
  induction hm : measure t using Nat.strongRecOn generalizing t with
  | _ m ih =>
    by_cases hfinal : final t
    · exact ⟨t, .start, hfinal⟩
    · obtain ⟨e, ha, hsome⟩ := progress t h hfinal
      obtain ⟨next, hstep⟩ := Option.isSome_iff_exists.mp hsome
      obtain ⟨u, hrun, hu⟩ := ih _ (hm ▸ lowers t e next h ha hstep) (h.next ha hstep) rfl
      exact ⟨u, (Run.start.next ha hstep).trans hrun, hu⟩

end Run

/-- One admitted step, from the state on the right. -/
def Moves (step : σ → ε → Option σ) (admitted : σ → ε → Prop) (t s : σ) : Prop :=
  ∃ e, admitted s e ∧ step s e = some t

/-- A machine of which each step lowers a measure cannot go on forever. -/
theorem Moves.wellFounded {α : Type u} [Preorder α] [WellFoundedLT α] (measure : σ → α)
    (lowers : ∀ s e t, admitted s e → step s e = some t → measure t < measure s) :
    WellFounded (Moves step admitted) := by
  refine Subrelation.wf (fun {t s} h => ?_) (InvImage.wf measure wellFounded_lt)
  obtain ⟨e, ha, hstep⟩ := h
  exact lowers s e t ha hstep

/-- A machine that cannot go on forever comes to rest. -/
theorem Run.rests (ends : WellFounded (Moves step admitted)) (s : σ) :
    ∃ t, Run step admitted s t ∧ ∀ u, ¬ Moves step admitted u t := by
  induction s using ends.induction with
  | _ s ih =>
    by_cases hmoves : ∃ u, Moves step admitted u s
    · obtain ⟨u, e, ha, hstep⟩ := hmoves
      obtain ⟨t, hrun, hrest⟩ := ih u ⟨e, ha, hstep⟩
      exact ⟨t, (Run.start.next ha hstep).trans hrun, hrest⟩
    · exact ⟨s, .start, fun u hu => hmoves ⟨u, hu⟩⟩

variable [∀ t e, Decidable (admitted t e)]

/-- Feeds the events to the machine, giving up at the first one not admitted. -/
def drive (step : σ → ε → Option σ) (admitted : σ → ε → Prop)
    [∀ t e, Decidable (admitted t e)] (s : σ) : List ε → Option σ
  | [] => some s
  | e :: es =>
    if admitted s e then
      match step s e with
      | some t => drive step admitted t es
      | none => none
    else none

theorem Run.of_drive {s t : σ} {es : List ε} (h : drive step admitted s es = some t) :
    Run step admitted s t := by
  induction es generalizing s with
  | nil =>
    simp only [drive, Option.some.injEq] at h
    exact h ▸ .start
  | cons e es ih =>
    simp only [drive] at h
    split at h
    · rename_i ha
      split at h
      · rename_i u hu
        exact Run.trans (Run.start.next ha hu) (ih h)
      · contradiction
    · contradiction

/-- A scripted run that ends in a state passing the test. -/
theorem Run.exists_of_drive {good : σ → Prop} [DecidablePred good] {s : σ} (es : List ε)
    (h : (drive step admitted s es).any (fun t => good t) = true) :
    ∃ t, Run step admitted s t ∧ good t := by
  obtain ⟨t, ht, hg⟩ := (Option.any_eq_true _ _).mp h
  exact ⟨t, Run.of_drive ht, of_decide_eq_true hg⟩

end Watchtower.Lib
