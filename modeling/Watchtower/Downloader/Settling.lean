import Watchtower.Downloader.QueueSettling
import Watchtower.Downloader.Stream

namespace Watchtower.Downloader
open Lib

variable {Blob : Type} {lib : Libraries Blob} {message : Queue.Failure → Error} {config : Config}

/-- What is left of `process_block`, counted in blobs. -/
def Stage.weight : Stage Blob → Nat
  | .first | .next _ | .fetch _ _ => 1
  | .insert _ blobs => 2 * blobs.length + 2
  | .emit _ blobs => 2 * blobs.length + 3
  | .returned _ | .panicked => 0

namespace Pipeline

variable {x y : Pipeline Blob}

/-- The steps that no answer of the L1 or the beacon node is needed for, before a
consumer that reads. A queue that spins is left out. -/
def Own (x : Pipeline Blob) : Event → Prop
  | .queue e => e.own ∧ ¬ Queue.Spinning x.queue
  | .relay | .read | .work | .forward | .take => True
  | .answer _ | .drop => False

/-- What is ahead of the tasks behind the queue: first what the downloader may
still read and the blobs it has at hand, then the Fuel blocks it holds, then
those on their way. -/
def ahead (x : Pipeline Blob) : ℕ ×ₗ ℕ ×ₗ ℕ :=
  toLex (x.inlet.left + x.stage.weight,
    toLex (x.downloader.blockBuffer.blocks.size, x.outlet.left))

def load (x : Pipeline Blob) : (ℕ ×ₗ ℕ ×ₗ ℕ) ×ₗ (ℕ ×ₗ ℕ ×ₗ ℕ) := toLex (x.queue.load, x.ahead)

theorem ahead_lt_of_input
    (h : y.inlet.left + y.stage.weight < x.inlet.left + x.stage.weight) : y.ahead < x.ahead :=
  Prod.Lex.toLex_lt_toLex.mpr (Or.inl h)

theorem ahead_lt_of_buffer (hinput : y.inlet.left + y.stage.weight = x.inlet.left + x.stage.weight)
    (h : y.downloader.blockBuffer.blocks.size < x.downloader.blockBuffer.blocks.size) :
    y.ahead < x.ahead :=
  Prod.Lex.toLex_lt_toLex.mpr (Or.inr ⟨hinput, Prod.Lex.toLex_lt_toLex.mpr (Or.inl h)⟩)

theorem ahead_lt_of_output {outlet : Outlet 1024 Error VersionedCompressedBlock}
    (h : outlet.left < x.outlet.left) : { x with outlet }.ahead < x.ahead :=
  Prod.Lex.toLex_lt_toLex.mpr (Or.inr ⟨rfl, Prod.Lex.toLex_lt_toLex.mpr (Or.inr ⟨rfl, h⟩)⟩)

theorem read_lowers {go : Block → Stage Blob} (hgo : ∀ block, (go block).weight = 1)
    (here : x.stage.weight = 1) (hst : x.read go = some y) : y.ahead < x.ahead := by
  apply ahead_lt_of_input
  unfold read at hst
  split at hst
  · rename_i block inlet found
    cases hst
    have := Outlet.left_next found
    have := hgo block
    dsimp only
    omega
  · rename_i err inlet found
    cases hst
    have := Outlet.left_next found
    change inlet.left + 0 < _
    omega
  · split at hst
    · cases hst
      change x.inlet.left + 0 < _
      omega
    · contradiction

theorem insertBlob_lowers {nextBlock : Block} {blob : Blob} {rest : List Blob}
    (here : x.stage = .insert nextBlock (blob :: rest)) :
    (x.insertBlob lib nextBlock blob rest).ahead < x.ahead := by
  have hweight : x.stage.weight = 2 * (rest.length + 1) + 2 := by rw [here]; rfl
  apply ahead_lt_of_input
  rw [hweight]
  unfold insertBlob
  split
  · simp [Stage.weight]
  · simp [Stage.weight]
  · split
    · simp [Stage.weight]
    · simp only [Stage.weight]
      omega

theorem sendNext_lowers {nextBlock : Block} {blobs : List Blob}
    (here : x.stage = .emit nextBlock blobs) (hst : x.sendNext nextBlock blobs = some y) :
    y.ahead < x.ahead := by
  have hweight : x.stage.weight = 2 * blobs.length + 3 := by rw [here]; rfl
  simp only [sendNext] at hst
  split at hst
  · cases hst
    apply ahead_lt_of_input
    rw [hweight]
    simp [Stage.weight]
  · rename_i block buffer hpop
    obtain ⟨-, -, -, hsize⟩ := BlockBuffer.popHeight_eq_some hpop
    split at hst
    · cases hst
      apply ahead_lt_of_input
      rw [hweight]
      simp [Stage.weight]
    · obtain ⟨outlet, -, rfl⟩ := Option.map_eq_some_iff.mp hst
      split
      · apply ahead_lt_of_input
        rw [hweight]
        simp [Stage.weight]
      · apply ahead_lt_of_buffer
        · rfl
        · dsimp only
          omega

theorem step_lowers_ahead {e : Event} (he : Own x e) (hno : ∀ q, e ≠ .queue q)
    (hst : Pipeline.step lib message x e = some y) : y.ahead < x.ahead := by
  cases e with
  | queue q => exact absurd rfl (hno q)
  | answer | drop => exact he.elim
  | relay =>
    simp only [step] at hst
    split at hst
    · rename_i task out
      cases hst
      exact ahead_lt_of_input (Nat.add_lt_add_right (Outlet.left_returns _ task) _)
    · obtain ⟨inlet, sent, rfl⟩ := Option.map_eq_some_iff.mp hst
      exact ahead_lt_of_input (Nat.add_lt_add_right (Outlet.left_forward sent) _)
  | read =>
    simp only [step] at hst
    split at hst
    · rename_i here
      exact read_lowers (fun _ => rfl) (by rw [here]; rfl) hst
    · rename_i here
      exact read_lowers (fun _ => rfl) (by rw [here]; rfl) hst
    · contradiction
  | work =>
    simp only [step] at hst
    split at hst
    · rename_i here
      cases hst
      apply ahead_lt_of_input
      rw [here]
      exact Nat.lt_succ_self _
    · rename_i here
      cases hst
      exact insertBlob_lowers here
    · rename_i here
      exact sendNext_lowers here hst
    · contradiction
  | forward =>
    simp only [step] at hst
    split at hst
    · rename_i task out
      cases hst
      exact ahead_lt_of_output (Outlet.left_returns _ task)
    · obtain ⟨outlet, sent, rfl⟩ := Option.map_eq_some_iff.mp hst
      exact ahead_lt_of_output (Outlet.left_forward sent)
  | take =>
    simp only [step] at hst
    split at hst
    · contradiction
    · obtain ⟨⟨item, outlet⟩, found, rfl⟩ := Option.map_eq_some_iff.mp hst
      exact ahead_lt_of_output (Outlet.left_next found)

theorem stepQueue_moves {e : Queue.Event} (h : x.stepQueue e = some y) :
    Queue.step x.queue e = some y.queue := by
  unfold stepQueue at h
  split at h
  · rename_i block here head
    split at h
    · contradiction
    · obtain ⟨inlet, -, rfl⟩ := Option.map_eq_some_iff.mp h
      simp [Queue.step, here, head]
  · split at h
    · obtain ⟨queue, moves, rfl⟩ := Option.map_eq_some_iff.mp h
      exact moves
    · contradiction
  · obtain ⟨queue, moves, rfl⟩ := Option.map_eq_some_iff.mp h
    exact moves

theorem step_lowers {e : Event} (he : Own x e) (hst : Pipeline.step lib message x e = some y) :
    y.load < x.load := by
  by_cases hqueue : ∃ q, e = .queue q
  · obtain ⟨q, rfl⟩ := hqueue
    exact Prod.Lex.toLex_lt_toLex.mpr
      (Or.inl (Queue.step_lowers he.2 he.1 (Queue.step_cases (stepQueue_moves hst))))
  · have hno : ∀ q, e ≠ .queue q := fun q hq => hqueue ⟨q, hq⟩
    have hsame : y.queue = x.queue := by
      have hcases : Stepped message x e y := step_cases hst
      rcases hcases.queue_cases with hsame | ⟨q, hq, -⟩
      · exact hsame
      · exact absurd hq (hno q)
    exact Prod.Lex.toLex_lt_toLex.mpr
      (Or.inr ⟨congrArg Queue.State.load hsame, step_lowers_ahead he hno hst⟩)

/-- Where everything waits for somebody else. The consumer has all there is, and
the downloader waits for the beacon node, or has read all that the queue has
sent, or has failed and the consumer knows. -/
inductive AtRest (x : Pipeline Blob) : Prop where
  | forL1 (here : x.stage = .first ∨ ∃ block, x.stage = .next block)
      (queue : Queue.Waiting x.queue ∨ Queue.Spinning x.queue)
      (read : x.inlet.received = x.queue.sent.map .ok)
      (received : x.outlet.received = x.downloader.tx.sent.map .ok)
  | forBeacon {thisBlock nextBlock : Block} (here : x.stage = .fetch thisBlock nextBlock)
      (received : x.outlet.received = x.downloader.tx.sent.map .ok)
  | ended {err : Error} (here : x.stage = .returned (.error err)) (heard : x.outlet.Over)
      (received : x.outlet.received = x.downloader.tx.sent.map .ok ++ [.error err])

/-- A consumer that has nothing to take has what the downloader sent, while that
goes on. -/
theorem received_of_active (hs : Sound message x) (active : x.stage.closed = false)
    (hnone : x.outlet.next? = none) : x.outlet.received = x.downloader.tx.sent.map .ok := by
  have houtlet := hs.outlet
  rw [outcome?_of_active active] at houtlet
  rw [Outlet.received_of_taken (Outlet.next?_eq_none hnone)]
  exact houtlet.running.2

/-- A task that waits for nothing but the reader has nothing to send. -/
theorem relay_running (hs : Sound message x) (active : x.stage.closed = false)
    (hnone : x.inlet.next? = none) (still : Pipeline.step lib message x .relay = none) :
    x.inlet.task = .running ∧ x.queue.outcome? message = none := by
  have htaken := Outlet.next?_eq_none hnone
  have hforward : x.inlet.forward x.stage.closed = none ∧
      (x.inlet.task = .running → x.queue.outcome? message = none) := by
    simp only [step] at still
    split at still
    · contradiction
    · rename_i hno
      refine ⟨Option.map_eq_none_iff.mp still, fun htask => ?_⟩
      by_contra hout
      obtain ⟨outcome, hout⟩ := Option.ne_none_iff_exists'.mp hout
      exact hno outcome htask hout
  cases htask : x.inlet.task with
  | running => exact ⟨rfl, hforward.2 htask⟩
  | failed err =>
    have hsome : (x.inlet.forward x.stage.closed).isSome = true :=
      Outlet.forward_isSome Nat.one_pos htaken htask
    rw [hforward.1] at hsome
    contradiction
  | ended => exact absurd ⟨htaken, Or.inl htask⟩ (hs.not_over active)
  | unreachable => exact absurd ⟨htaken, Or.inr htask⟩ (hs.not_over active)

theorem forward_ended {err : Error} (here : x.stage = .returned (.error err))
    (hnone : x.outlet.next? = none) (still : Pipeline.step lib message x .forward = none) :
    x.outlet.Over := by
  have htaken := Outlet.next?_eq_none hnone
  cases htask : x.outlet.task with
  | running => simp [step, htask, here, Stage.outcome?] at still
  | failed err =>
    have hsome : (x.outlet.forward x.gone).isSome = true :=
      Outlet.forward_isSome (by decide) htaken htask
    simp only [step, htask, Option.map_eq_none_iff] at still
    rw [still] at hsome
    contradiction
  | ended => exact ⟨htaken, Or.inl htask⟩
  | unreachable => exact ⟨htaken, Or.inr htask⟩

theorem running_of_outcome (out : x.queue.outcome? message = none) : x.queue.Running := by
  intro why hpoint
  rw [Queue.State.outcome?, hpoint] at out
  contradiction

/-- A queue that can do nothing with its channel empty waits for an answer. -/
theorem queue_waits (active : x.stage.closed = false) (hnone : x.inlet.next? = none)
    (running : x.queue.Running)
    (still : ∀ e : Queue.Event, e.own → x.stepQueue e = none) : Queue.Waiting x.queue := by
  have hroom : x.inlet.put.length < x.inlet.taken + 1 := by
    have := Outlet.next?_eq_none hnone
    omega
  refine Queue.waiting_of_still running ?_ (fun i => ?_)
  · have hadvance := still .advance trivial
    unfold stepQueue at hadvance
    split at hadvance
    · simp [active, Outlet.send, hroom] at hadvance
    · contradiction
    · exact Option.map_eq_none_iff.mp hadvance
  · exact Option.map_eq_none_iff.mp (still (.join i) trivial)

theorem atRest_of_reading (hs : Sound message x)
    (here : x.stage = .first ∨ ∃ block, x.stage = .next block)
    (active : x.stage.closed = false) (hinlet : x.inlet.next? = none)
    (houtlet : x.outlet.next? = none)
    (still : ∀ e : Event, Own x e → Pipeline.step lib message x e = none) : AtRest x := by
  obtain ⟨-, hout⟩ := relay_running hs active hinlet (still .relay trivial)
  have hrelays := hs.inlet
  rw [hout] at hrelays
  refine .forL1 here ?_ ?_ (received_of_active hs active houtlet)
  · by_cases spins : Queue.Spinning x.queue
    · exact Or.inr spins
    · exact Or.inl (queue_waits active hinlet (running_of_outcome hout)
        (fun e he => still (.queue e) ⟨he, spins⟩))
  · rw [Outlet.received_of_taken (Outlet.next?_eq_none hinlet), hrelays.running.2]

theorem next?_of_read {go : Block → Stage Blob} (h : x.read go = none) : x.inlet.next? = none := by
  cases hnext : x.inlet.next? with
  | none => rfl
  | some next =>
    obtain ⟨item, inlet⟩ := next
    cases item <;> simp [read, hnext] at h

theorem atRest_of_still (hs : Sound message x) (here : x.gone = false)
    (still : ∀ e : Event, Own x e → Pipeline.step lib message x e = none) : AtRest x := by
  have houtlet : x.outlet.next? = none := by
    have htake := still .take trivial
    simpa [step, here] using htake
  have hwork := still .work trivial
  have hread := still .read trivial
  cases hstage : x.stage with
  | first =>
    have hfirst : x.read .next = none := by simpa [step, hstage] using hread
    exact atRest_of_reading hs (Or.inl hstage) (by rw [hstage]; rfl) (next?_of_read hfirst)
      houtlet still
  | next block =>
    have hnext : x.read (.fetch block) = none := by simpa [step, hstage] using hread
    exact atRest_of_reading hs (Or.inr ⟨block, hstage⟩) (by rw [hstage]; rfl)
      (next?_of_read hnext) houtlet still
  | fetch thisBlock nextBlock =>
    exact .forBeacon hstage (received_of_active hs (by rw [hstage]; rfl) houtlet)
  | insert nextBlock blobs => cases blobs <;> simp [step, hstage] at hwork
  | emit nextBlock blobs =>
    -- the channel has room, because the consumer has taken all there was
    have hroom : x.outlet.put.length < x.outlet.taken + 1024 := by
      have := Outlet.next?_eq_none houtlet
      omega
    simp only [step, hstage, sendNext, here] at hwork
    split at hwork
    · contradiction
    · simp [Outlet.send, hroom] at hwork
  | returned outcome =>
    obtain ⟨err, hended⟩ := hs.ends (by rw [hstage]; rfl)
    have hover := forward_ended hended houtlet (still .forward trivial)
    have hrelays := hs.outlet
    rw [here, hended] at hrelays
    obtain ⟨last, hlast, hall⟩ := hrelays.error_of_over hover
    obtain rfl := Except.error.inj (Option.some.inj hlast)
    exact .ended hended hover hall
  | panicked =>
    obtain ⟨err, hended⟩ := hs.ends (by rw [hstage]; rfl)
    rw [hstage] at hended
    contradiction

theorem own_here {e : Event} (he : Own x e) (hst : Pipeline.step lib message x e = some y) :
    y.gone = x.gone := by
  have hcases : Stepped message x e y := step_cases hst
  cases hcases with
  | drop => exact he.elim
  | queue | block | queueReturned | relay | read | readError | readEnd | quiet | send | returned
  | forward | take => rfl

/-- The runs in which neither the L1 nor the beacon node answers. -/
abbrev OwnRun (lib : Libraries Blob) (message : Queue.Failure → Error) (x y : Pipeline Blob) :
    Prop :=
  Run (Pipeline.step lib message) Own x y

theorem ownRun_here (run : OwnRun lib message x y) : y.gone = x.gone := by
  apply run.invariant (motive := fun y => y.gone = x.gone) rfl
  intro t u e ht he hst
  exact (own_here he hst).trans ht

/-- A queue that spins sends no more L1 blocks, whatever else happens. -/
theorem spinning_for_good (run : Run (Pipeline.step lib message) (fun _ _ => True) x y)
    (h : Queue.Spinning x.queue) :
    Queue.Spinning y.queue ∧ y.queue.sent = x.queue.sent := by
  apply run.invariant
    (motive := fun y => Queue.Spinning y.queue ∧ y.queue.sent = x.queue.sent) ⟨h, rfl⟩
  intro t u e ht _ hst
  obtain ⟨hspins, hsent⟩ := ht
  have hcases : Stepped message t e u := step_cases hst
  rcases hcases.queue_cases with hsame | ⟨q, -, hq⟩
  · rw [hsame]
    exact ⟨hspins, hsent⟩
  · obtain ⟨hspins, hmore⟩ := hspins.step (Queue.step_cases hq)
    exact ⟨hspins, hmore.trans hsent⟩

/-- Whatever has happened so far, the downloader with its tasks and channels can
neither block itself nor, but for a download queue that spins, work on by itself
forever, under no order of the steps: before a consumer that reads on it comes to
rest, and there only the L1 or the beacon node can move it on, or it is over. A
queue that spins does so for good. -/
theorem settles (lib : Libraries Blob) (message : Queue.Failure → Error) (config : Config) :
    WellFounded (Moves (Pipeline.step lib message) Own) ∧
    ∀ x, Run (Pipeline.step lib message) (fun _ _ => True) (start config) x →
      (Queue.Spinning x.queue → (Queue.step x.queue .advance).isSome = true ∧
        ∀ y, Run (Pipeline.step lib message) (fun _ _ => True) x y →
          Queue.Spinning y.queue ∧ y.queue.sent = x.queue.sent) ∧
      (x.gone = false → (∃ y, OwnRun lib message x y ∧ AtRest y) ∧
        ∀ y, OwnRun lib message x y →
          (∀ e : Event, Own y e → Pipeline.step lib message y e = none) → AtRest y) := by
  have hends : WellFounded (Moves (Pipeline.step lib message) Own) :=
    Moves.wellFounded load (fun s e t he hst => step_lowers he hst)
  refine ⟨hends, fun x run => ⟨fun spins => ?_, fun here => ?_⟩⟩
  · exact ⟨spins.goes_round, fun y later => spinning_for_good later spins⟩
  have hstill : ∀ y, OwnRun lib message x y →
      (∀ e : Event, Own y e → Pipeline.step lib message y e = none) → AtRest y := by
    intro y own still
    have hsound := run_sound (run.trans (own.mono (fun _ _ _ => trivial)))
    exact atRest_of_still hsound ((ownRun_here own).trans here) still
  refine ⟨?_, hstill⟩
  obtain ⟨y, own, hrest⟩ := Run.rests hends x
  refine ⟨y, own, hstill y own (fun e he => ?_)⟩
  by_contra hmoves
  obtain ⟨z, hz⟩ := Option.ne_none_iff_exists'.mp hmoves
  exact hrest z ⟨e, he, hz⟩

/-- The blob of the first L1 block is at hand. -/
theorem settles_one_blob :
    ∃ x y : Pipeline (HeaderV1 × UInt8),
      Run (step plainLibraries (fun _ => "refused")) (fun _ _ => True)
        (start ⟨"", "", [], 0, 1⟩) x ∧
      x.stage = .insert (plainBlock 1 []) [(⟨0, 0, true⟩, 1)] ∧
      OwnRun plainLibraries (fun _ => "refused") x y ∧ AtRest y := by
  obtain ⟨x, run, here, hstage⟩ : ∃ x, Run (step plainLibraries (fun _ => "refused"))
      (fun _ _ => True) (start ⟨"", "", [], 0, 1⟩) x ∧ x.gone = false ∧
      x.stage = .insert (plainBlock 1 []) [(⟨0, 0, true⟩, 1)] :=
    Run.exists_of_drive (oneBlock.take 21) (by decide)
  obtain ⟨-, hall⟩ := settles plainLibraries (fun _ => "refused") ⟨"", "", [], 0, 1⟩
  obtain ⟨y, own, hrest⟩ := ((hall x run).2 here).1
  exact ⟨x, y, run, hstage, own, hrest⟩

end Pipeline
end Watchtower.Downloader
