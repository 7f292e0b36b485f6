import Watchtower.Downloader.QueueInvariants

namespace Watchtower.Downloader.Queue
open Lib

/-- The node has every block; all it may do is hit its rate limit. -/
def BlockOrLimit (h : Nat) : Answer → Prop
  | .ok (some block) => block.number = h
  | .error .rateLimited => True
  | _ => False

instance : (h : Nat) → (out : Answer) → Decidable (BlockOrLimit h out)
  | h, .ok (some block) => inferInstanceAs (Decidable (block.number = h))
  | _, .error .rateLimited => inferInstanceAs (Decidable True)
  | _, .ok none | _, .error (.other _) => inferInstanceAs (Decidable False)

theorem blockOrLimit_faithful : Faithful BlockOrLimit := fun _ _ h => h

/-- The event joins an answer that hit the rate limit. -/
def joinsLimit (s : State) : Event → Bool
  | .join i =>
    match s.pending[i]? with
    | some ⟨_, some (.error .rateLimited)⟩ => true
    | _ => false
  | _ => false

variable {s t : State}

/-- A height between the cursors that nothing will bring any more. -/
def Lost (s : State) (h : Nat) : Prop :=
  s.nextToEmit ≤ h ∧ h < s.nextDaHeight ∧ h ∉ s.heights ∧ h ∉ s.completed.keys

theorem Lost.not_covered {h : Nat} (hl : Lost s h) : ¬ Covered s := by
  intro hc
  obtain ⟨hlo, hhi, hp, hk⟩ := hl
  exact (hc h hlo hhi).elim hp hk

/-- Without a `None` the queue never leaves the batch mode. -/
theorem batch_step (hs : Sound BlockOrLimit s) (hm : s.mode = .batch) {e : Event}
    (hst : Stepped s e t) : t.mode = .batch := by
  cases hst with
  | join front back a out here split =>
    have hg := hs.given split
    cases out with
    | error err => cases err <;> exact hm
    | ok found =>
      cases found with
      | some block => exact hm
      | none => exact False.elim hg
  | spawn | full | idle | answer | send | done | dropped => exact hm

theorem joinsBlock_of_no_limit (hs : Sound BlockOrLimit s) {e : Event} (hst : Stepped s e t)
    (hno : joinsLimit s e = false) : joinsBlock s e = true := by
  cases hst with
  | join front back a out here split =>
    have hg := hs.given split
    match out, hg with
    | .ok (some block), _ => simp [joinsBlock, split]
    | .error .rateLimited, _ => simp [joinsLimit, split] at hno
  | spawn | full | idle | answer | send | done | dropped => rfl

/-- A run that joins no rate limit keeps the window covered. -/
theorem run_covered {daHeight : Nat}
    (run : Run step (fun u e => Admitted BlockOrLimit u e ∧ joinsLimit u e = false)
      (startFrom daHeight) s) (hgo : s.Running) : Covered s := by
  have hall : Sound BlockOrLimit s ∧ (s.Running → Covered s) := by
    apply run.invariant (motive := fun u => Sound BlockOrLimit u ∧ (u.Running → Covered u))
      ⟨startFrom_sound daHeight, fun _ => startFrom_covered daHeight⟩
    intro u v e h hadm hst
    obtain ⟨hs, hc⟩ := h
    obtain ⟨ha, hno⟩ := hadm
    have hstep := step_cases hst
    have hb := joinsBlock_of_no_limit hs hstep hno
    exact ⟨hs.step blockOrLimit_faithful ha hstep,
      fun hgo => (hc (hstep.running hgo)).step blockOrLimit_faithful hs hstep hb hgo⟩
  exact hall.2 hgo

/-- Joining a rate limit loses its height. -/
theorem joinsLimit_lost (hs : Sound BlockOrLimit s) (hm : s.mode = .batch) {e : Event}
    (hst : Stepped s e t) (hl : joinsLimit s e = true) : ∃ h, Lost t h := by
  cases hst with
  | join front back a out here split =>
    obtain ⟨-, -, hi, hk, hb⟩ := hs.leave split
    cases out with
    | ok found => simp [joinsLimit, split] at hl
    | error err =>
      cases err with
      | other err => simp [joinsLimit, split] at hl
      | rateLimited => exact ⟨a, (hb hm).1, (hb hm).2, hi, hk⟩
  | spawn | full | idle | answer | send | done | dropped => simp [joinsLimit] at hl

/-- Nothing brings a lost height back: the emit loop stops in front of it and
the refill loop only asks for later ones. -/
theorem Lost.step (hs : Sound BlockOrLimit s) {h : Nat} (hl : Lost s h) {e : Event}
    (hst : Stepped s e t) : Lost t h := by
  obtain ⟨hlo, hhi, hp, hk⟩ := hl
  cases hst with
  | spawn here room =>
    refine ⟨hlo, Nat.lt_succ_of_lt hhi, ?_, hk⟩
    rw [heights_spawn, List.mem_append, List.mem_singleton, not_or]
    exact ⟨hp, by omega⟩
  | full | idle | done => exact ⟨hlo, hhi, hp, hk⟩
  | answer front back a out split =>
    refine ⟨hlo, hhi, ?_, hk⟩
    rwa [heights_answer split]
  | join front back a out here split =>
    have hg := hs.given split
    rw [mem_heights_split split, not_or] at hp
    obtain ⟨hne, hrest⟩ := hp
    cases out with
    | error err => cases err <;> exact ⟨hlo, hhi, hrest, hk⟩
    | ok found =>
      cases found with
      | none => exact False.elim hg
      | some block =>
        have hn : block.number = a := hg
        refine ⟨hlo, hhi, hrest, ?_⟩
        simp only [State.joined, SortedMap.mem_keys_insert, not_or]
        exact ⟨fun he => hne (he.trans hn), hk⟩
  | send block here head =>
    have hne : h ≠ s.nextToEmit := fun he => hk (he ▸ head_mem_keys head)
    refine ⟨?_, hhi, hp, fun hm => hk (SortedMap.mem_keys_erase.mp hm).2⟩
    change s.nextToEmit + 1 ≤ h
    omega
  | dropped block here head =>
    exact ⟨hlo, hhi, hp, fun hm => hk (SortedMap.mem_keys_erase.mp hm).2⟩

theorem run_batch {daHeight : Nat}
    (run : Run step (Admitted BlockOrLimit) (startFrom daHeight) s) :
    Sound BlockOrLimit s ∧ s.mode = .batch := by
  apply run.invariant (motive := fun u => Sound BlockOrLimit u ∧ u.mode = .batch)
    ⟨startFrom_sound daHeight, rfl⟩
  intro u v e h ha hst
  obtain ⟨hs, hm⟩ := h
  exact ⟨hs.step blockOrLimit_faithful ha (step_cases hst), batch_step hs hm (step_cases hst)⟩

/-- After the refill loop every height between the cursors is in flight or
buffered in a run that joins no rate limit, and never again in one that has
joined a rate limit. -/
theorem covered_unless_limited (daHeight : Nat) :
    (∀ s, Run step (fun u e => Admitted BlockOrLimit u e ∧ joinsLimit u e = false)
        (startFrom daHeight) s → s.point = .join → Covered s) ∧
    (∀ u v w e, Run step (Admitted BlockOrLimit) (startFrom daHeight) u →
        joinsLimit u e = true → step u e = some v → Run step (Admitted BlockOrLimit) v w →
        ¬ Covered w) := by
  refine ⟨fun s run here => run_covered run (by simp [State.Running, here]), ?_⟩
  intro u v w e hu hl hst run
  obtain ⟨hs, hm⟩ := run_batch hu
  have hadm : Admitted BlockOrLimit u e := by
    cases e with
    | answer i out => simp [joinsLimit] at hl
    | join | advance | hangUp => trivial
  obtain ⟨h, hlost⟩ := joinsLimit_lost hs hm (step_cases hst) hl
  have hall : Sound BlockOrLimit w ∧ Lost w h := by
    apply run.invariant (motive := fun x => Sound BlockOrLimit x ∧ Lost x h)
      ⟨hs.step blockOrLimit_faithful hadm (step_cases hst), hlost⟩
    intro x y e hboth ha hst
    obtain ⟨hx, hlx⟩ := hboth
    exact ⟨hx.step blockOrLimit_faithful ha (step_cases hst), hlx.step hx (step_cases hst)⟩
  exact hall.2.not_covered

/-- Height 4 is answered and joined before height 3. -/
theorem covered_unless_limited_full :
    ∃ s, Run step (fun u e => Admitted BlockOrLimit u e ∧ joinsLimit u e = false) (startFrom 3) s ∧
      s.point = .join ∧ s.sent = [bareBlock 3, bareBlock 4] ∧
      s.heights = [5, 6, 7, 8, 9, 10, 11, 12] ∧ Covered s := by
  obtain ⟨s, run, here, hsent, hh⟩ :
      ∃ s, Run step (fun u e => Admitted BlockOrLimit u e ∧ joinsLimit u e = false)
        (startFrom 3) s ∧ s.point = .join ∧ s.sent = [bareBlock 3, bareBlock 4] ∧
        s.heights = [5, 6, 7, 8, 9, 10, 11, 12] :=
    Run.exists_of_drive (List.flatten [advances 9,
      [.answer 1 (.ok (some (bareBlock 4))), .join 1], advances 2,
      [.answer 0 (.ok (some (bareBlock 3))), .join 0], advances 6]) (by decide)
  exact ⟨s, run, here, hsent, hh, (covered_unless_limited 3).1 s run here⟩

/-- Eight requests from height 0 on; the first hits the limit and is joined,
and the refill asks for height 8. -/
def limitedFirst : List Event :=
  List.flatten [advances 9,
    [.answer 0 (.error (.errorResp 429 "Too Many Requests")), .join 0], advances 3]

/-- Height 0 hit the limit and is gone, with nothing sent yet. -/
theorem limited_height_dropped :
    ¬ ∀ daHeight s, Run step (Admitted BlockOrLimit) (startFrom daHeight) s →
      s.point = .join → Covered s := by
  intro hall
  obtain ⟨s, run, here, hn, hd, hp, hk⟩ :
      ∃ s, Run step (Admitted BlockOrLimit) (startFrom 0) s ∧ s.point = .join ∧
        s.nextToEmit = 0 ∧ s.nextDaHeight = 9 ∧ 0 ∉ s.heights ∧ 0 ∉ s.completed.keys :=
    Run.exists_of_drive limitedFirst (by decide)
  exact (hall 0 s run here 0 (by omega) (by omega)).elim hp hk

end Watchtower.Downloader.Queue
