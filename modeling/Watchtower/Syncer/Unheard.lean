import Watchtower.Syncer.FetchTask

namespace Watchtower.Syncer
open Lib BlockSyncer

namespace FetchTask

variable {β : Type} {results : List (Except Error (List β))} {t u v : FetchTask β}

/-- What the requests for a range of heights come to, chunk by chunk. Both
GraphQL syncs fetch like this, each with its own request. -/
def fetched (first stop : Nat) (fetch : Nat → HeightRange → Except Error (List β)) :
    List (Except Error (List β)) :=
  (fetchRanges first stop).mapIdx fetch

/-- Whatever becomes of the consumer, and whenever. -/
abbrev Reached (results : List (Except Error (List β))) (t u : FetchTask β) : Prop :=
  Run (step results) (fun _ _ => True) t u

theorem window_of_reached (h : Reached results start t) : Window results t :=
  h.invariant (start_inFlight results).window (fun _ _ _ ht _ hs => ht.step hs)

/-- The next send fails: a block is to be sent and the receiver is gone. -/
structure Unheard (t : FetchTask β) : Prop where
  sending : ∃ block blocks, t.point = .sending (block :: blocks)
  gone : t.listening = false

/-- A failed send ends the loop over the blocks of the chunk, and that is all. -/
theorem Unheard.step_send (h : t.Unheard) (hs : step results t .send = some u) :
    u = { t with point := .next } := by
  obtain ⟨block, blocks, here⟩ := h.sending
  cases step_cases hs with
  | sent => rfl
  | unheard => rfl
  | send _ _ _ listening => exact absurd listening (by simp [h.gone])

/-- With every chunk taken there is nothing more to ask for or to take. -/
theorem Window.spent (h : Window results t) (hall : results.length ≤ t.taken) {e : Event}
    (hs : FetchTask.step results t e = some u) : u.taken = t.taken ∧ u.asked = t.asked := by
  have htaken := h.taken
  have hwithin := h.within
  cases step_cases hs with
  | ask here room =>
    have hle : t.requested results ≤ results.length := Nat.min_le_left _ _
    omega
  | take blocks here full ready result =>
    have := (List.getElem?_eq_some_iff.mp result).1
    omega
  | failed err here full ready result =>
    have := (List.getElem?_eq_some_iff.mp result).1
    omega
  | answer | exhausted | sent | send | unheard | recv | hangUp => exact ⟨rfl, rfl⟩

theorem spent_of_reached (h : Window results t) (hall : results.length ≤ t.taken)
    (hrun : Reached results t u) :
    Window results u ∧ u.taken = t.taken ∧ u.asked = t.asked := by
  apply hrun.invariant (motive := fun u => Window results u ∧ u.taken = t.taken ∧
    u.asked = t.asked) ⟨h, rfl, rfl⟩
  intro u v e hu _ hs
  obtain ⟨hwindow, htaken, hasked⟩ := hu
  obtain ⟨htaken', hasked'⟩ := hwindow.spent (htaken ▸ hall) hs
  exact ⟨hwindow.step hs, htaken'.trans htaken, hasked'.trans hasked⟩

theorem step_ask (here : t.point = .next) (room : t.asked < t.requested results) :
    step results t .ask = some { t with asked := t.requested results } := by
  simp only [step, here, if_pos room]

theorem step_answer {chunk : Nat} (waiting : t.taken ≤ chunk) (sent : chunk < t.asked)
    (fresh : chunk ∉ t.answered) :
    step results t (.answer chunk) = some { t with answered := chunk :: t.answered } := by
  simp only [step, if_pos (And.intro waiting (And.intro sent fresh))]

/-- At the head of the loop over the chunks, the task fills up its requests. -/
theorem fills (results : List (Except Error (List β))) (here : t.point = .next) :
    ∃ u, Reached results t u ∧ u.point = .next ∧ u.taken = t.taken ∧
      u.requested results ≤ u.asked := by
  by_cases room : t.asked < t.requested results
  · exact ⟨_, Run.start.next trivial (step_ask here room), here, rfl, Nat.le_refl _⟩
  · exact ⟨t, .start, here, rfl, Nat.le_of_not_lt room⟩

/-- It gets the next chunk, if there is one, whether or not anybody listens. -/
theorem takes (here : t.point = .next) (hmore : t.taken < results.length) :
    ∃ u, Reached results t u ∧ u.taken = t.taken + 1 := by
  obtain ⟨filled, hfills, here, htaken, full⟩ := fills results here
  have hout : filled.taken < filled.asked := by
    simp only [requested] at full
    omega
  obtain ⟨ready, hanswer, here, htaken', full, hready⟩ : ∃ ready, Reached results filled ready ∧
      ready.point = .next ∧ ready.taken = filled.taken ∧
      ready.requested results ≤ ready.asked ∧ ready.taken ∈ ready.answered := by
    by_cases hready : filled.taken ∈ filled.answered
    · exact ⟨filled, .start, here, rfl, full, hready⟩
    · exact ⟨_, Run.start.next trivial (step_answer (Nat.le_refl _) hout hready), here, rfl,
        full, List.mem_cons_self⟩
  have hlt : ready.taken < results.length := by omega
  obtain ⟨u, htake, hnow⟩ : ∃ u, FetchTask.step results ready .take = some u ∧
      u.taken = ready.taken + 1 := by
    simp only [FetchTask.step, here, if_neg (Nat.not_lt.mpr full), List.getElem?_eq_getElem hlt,
      if_pos hready]
    cases results[ready.taken] with
    | ok blocks => exact ⟨_, rfl, rfl⟩
    | error err => exact ⟨_, rfl, rfl⟩
  refine ⟨u, (hfills.trans hanswer).next trivial htake, ?_⟩
  rw [hnow, htaken', htaken]

/-- After a send has failed, the task goes on to take chunks and to make
requests, unless the block was one of the last chunk. -/
theorem stops_unheard_iff (β : Type) (first stop : Nat)
    (fetch : Nat → HeightRange → Except Error (List β)) (t u : FetchTask β)
    (ht : Reached (fetched first stop fetch) start t) (hfails : t.Unheard)
    (hs : step (fetched first stop fetch) t .send = some u) :
    (∀ v, Reached (fetched first stop fetch) u v → v.taken = u.taken ∧ v.asked = u.asked) ↔
      (fetchRanges first stop).length ≤ t.taken := by
  have hlength : (fetched first stop fetch).length = (fetchRanges first stop).length :=
    List.length_mapIdx
  have hwindow := (window_of_reached ht).step hs
  obtain rfl := hfails.step_send hs
  rw [← hlength]
  constructor
  · intro hstops
    by_contra hmore
    obtain ⟨v, hrun, htaken⟩ :=
      takes (t := { t with point := .next }) rfl (Nat.lt_of_not_le hmore)
    have := (hstops v hrun).1
    omega
  · intro hall v hrun
    exact (spent_of_reached hwindow hall hrun).2

/-- A node that has a block for every height. -/
def wholeChain (_ : Nat) (range : HeightRange) : Except Error (List SealedBlock) :=
  .ok (range.heights.map (fun height => ⟨⟨height, 0, []⟩, []⟩))

/-- Two heights make one chunk, and the consumer is gone when it is there. -/
theorem stops_unheard_in_last_chunk :
    ∃ t u : FetchTask SealedBlock, Reached (fetched 1 3 wholeChain) start t ∧ t.Unheard ∧
      step (fetched 1 3 wholeChain) t .send = some u ∧
      ∀ v, Reached (fetched 1 3 wholeChain) u v → v.taken = u.taken ∧ v.asked = u.asked := by
  obtain ⟨t, hrun, hgone, hsending, htaken⟩ : ∃ t, Reached (fetched 1 3 wholeChain) start t ∧
      t.listening = false ∧ t.point = .sending [⟨⟨1, 0, []⟩, []⟩, ⟨⟨2, 0, []⟩, []⟩] ∧
      t.taken = 1 :=
    Run.exists_of_drive [.ask, .answer 0, .take, .hangUp] (by decide)
  have hfails : t.Unheard := ⟨⟨_, _, hsending⟩, hgone⟩
  have hs : step (fetched 1 3 wholeChain) t .send = some { t with point := .next } := by
    simp [step, hsending, hgone]
  refine ⟨t, _, hrun, hfails, hs, ?_⟩
  exact (stops_unheard_iff SealedBlock 1 3 wholeChain t _ hrun hfails hs).mpr
    (by rw [htaken]; decide)

/-- Ten chunks of forty blocks each. The consumer is gone before the first of them is sent. -/
def abandoned : FetchTask SealedBlock where
  asked := 8
  answered := []
  taken := 1
  point := .sending ((List.range' 1 40).map (fun height => ⟨⟨height, 0, []⟩, []⟩))
  channel := []
  received := []
  listening := false

/-- The send fails, and the task asks for the ninth chunk and takes the second. -/
theorem fetches_on_unheard :
    ∃ u v, Reached (fetched 1 401 wholeChain) start abandoned ∧ abandoned.Unheard ∧
      step (fetched 1 401 wholeChain) abandoned .send = some u ∧
      Reached (fetched 1 401 wholeChain) u v ∧ u.taken < v.taken ∧ u.asked < v.asked := by
  have hrun : Reached (fetched 1 401 wholeChain) start abandoned :=
    Run.of_drive (show drive _ _ start [.ask, .answer 0, .take, .hangUp] = some abandoned by
      decide +kernel)
  obtain ⟨v, hlater, htaken, hasked⟩ : ∃ v, Reached (fetched 1 401 wholeChain)
      { abandoned with point := .next } v ∧ 1 < v.taken ∧ 8 < v.asked :=
    Run.exists_of_drive [.ask, .answer 1, .take] (by decide +kernel)
  exact ⟨_, v, hrun, ⟨⟨_, _, rfl⟩, rfl⟩, rfl, hlater, htaken, hasked⟩

end FetchTask
end Watchtower.Syncer
