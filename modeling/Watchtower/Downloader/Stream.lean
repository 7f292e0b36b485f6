import Watchtower.Downloader.Completeness
import Watchtower.Downloader.Pipeline

namespace Watchtower.Downloader
open Lib

namespace Pipeline

variable {Blob : Type} {lib : Libraries Blob} {message : Queue.Failure → Error}
  {x y : Pipeline Blob}

theorem outcome?_of_active {stage : Stage Blob} (h : stage.closed = false) :
    stage.outcome? = none := by
  cases stage <;> first | rfl | cases h

/-- The download queue returns once, with an error. -/
theorem queue_outcome (message : Queue.Failure → Error) {e : Queue.Event} {queue : Queue.State}
    (moves : Queue.step x.queue e = some queue) :
    x.queue.outcome? message = none ∨ queue.outcome? message = x.queue.outcome? message := by
  cases Queue.step_cases moves with
  | answer => exact Or.inr rfl
  | spawn here | full here | idle here | join _ _ _ _ here | send _ here | done here
  | dropped _ here => exact Or.inl (by rw [Queue.State.outcome?, here])

theorem queue_outcome_error {outcome : Except Error Unit}
    (out : x.queue.outcome? message = some outcome) : ∃ err, outcome = .error err := by
  unfold Queue.State.outcome? at out
  split at out
  · cases out
    exact ⟨_, rfl⟩
  · cases out

/-- Both channels hold what their producers sent, everything the downloader has
read while it goes on was a block, and it stops with an error only. -/
structure Sound (message : Queue.Failure → Error) (x : Pipeline Blob) : Prop where
  inlet : x.inlet.Relays x.queue.sent (x.queue.outcome? message) x.stage.closed
  reads : x.stage.closed = false → ∃ earlier, x.inlet.received = (earlier ++ x.stage.reads).map .ok
  outlet : x.outlet.Relays x.downloader.tx.sent x.stage.outcome? x.gone
  ends : x.stage.closed = true → ∃ err, x.stage = .returned (.error err)

theorem start_sound (config : Config) : Sound message (start config : Pipeline Blob) where
  inlet := Outlet.empty_relays
  reads _ := ⟨[], rfl⟩
  outlet := Outlet.empty_relays
  ends := nofun

/-- The outer channel does not mind what the downloader is at, and it may stop. -/
theorem Sound.outlet_moves (h : Sound message x) (active : x.stage.closed = false)
    (out : Option (Except Error Unit)) :
    x.outlet.Relays x.downloader.tx.sent out x.gone := by
  have houtlet := h.outlet
  rw [outcome?_of_active active] at houtlet
  exact houtlet.returns

theorem Sound.inlet_moves (h : Sound message x) (active : x.stage.closed = false)
    (gone : Bool) : x.inlet.Relays x.queue.sent (x.queue.outcome? message) gone := by
  have hinlet := h.inlet
  rw [active] at hinlet
  cases gone with
  | false => exact hinlet
  | true => exact hinlet.hangUp

theorem Sound.read_on (h : Sound message x) (active : x.stage.closed = false)
    {stage : Stage Blob} (reads : stage.reads <:+ x.stage.reads) :
    ∃ earlier, x.inlet.received = (earlier ++ stage.reads).map .ok := by
  obtain ⟨earlier, hreceived⟩ := h.reads active
  obtain ⟨dropped, hdropped⟩ := reads
  exact ⟨earlier ++ dropped, by rw [hreceived, ← hdropped, List.append_assoc]⟩

/-- The blocks read stand in what the queue has sent, next to each other. -/
theorem Sound.sent_of_reads (h : Sound message x) (active : x.stage.closed = false) :
    ∃ earlier rest, x.queue.sent = earlier ++ x.stage.reads ++ rest := by
  obtain ⟨earlier, hreceived⟩ := h.reads active
  refine ⟨earlier, (x.inlet.put.drop x.inlet.taken).filterMap Except.toOption, ?_⟩
  rw [← h.inlet.sent_eq, ← List.take_append_drop x.inlet.taken x.inlet.put, List.filterMap_append,
    List.take_append_drop]
  congr 1
  change x.inlet.received.filterMap Except.toOption = _
  rw [hreceived]
  simp [List.filterMap_map, Function.comp_def, Except.toOption]

/-- The reader has met no error yet, so it never finds the stream at its end. -/
theorem Sound.not_over (h : Sound message x) (active : x.stage.closed = false) :
    ¬ x.inlet.Over := by
  intro hover
  have hinlet := h.inlet
  rw [active] at hinlet
  obtain ⟨err, -, hall⟩ := hinlet.error_of_over hover
  obtain ⟨earlier, hreceived⟩ := h.reads active
  have : .error err ∈ (earlier ++ x.stage.reads).map Except.ok := by
    rw [← hreceived, hall]
    simp
  simp at this

theorem Sound.outcome_error (h : Sound message x) {outcome : Except Error Unit}
    (out : x.stage.outcome? = some outcome) : ∃ err, outcome = .error err := by
  have hover : x.stage.closed = true := by
    by_contra hactive
    rw [outcome?_of_active (Bool.eq_false_iff.mpr hactive)] at out
    cases out
  obtain ⟨err, hstage⟩ := h.ends hover
  rw [hstage] at out
  exact ⟨err, (Option.some.inj out).symm⟩

theorem Sound.step (h : Sound message x) {e : Event} (hst : Stepped message x e y) :
    Sound message y := by
  cases hst with
  | queue moves same =>
    refine ⟨?_, h.reads, h.outlet, h.ends⟩
    have hinlet := h.inlet
    rw [← same] at hinlet
    rcases queue_outcome message moves with hnone | hsame
    · rw [hnone] at hinlet
      exact hinlet.returns
    · rwa [← hsame] at hinlet
  | block here head fits =>
    refine ⟨?_, ?_, h.outlet, h.ends⟩
    · have hinlet := h.inlet
      rw [Queue.State.outcome?, here] at hinlet
      exact hinlet.send fits
    · rw [Outlet.received_send fits]
      exact h.reads
  | queueReturned task out =>
    obtain ⟨err, rfl⟩ := queue_outcome_error out
    exact ⟨h.inlet.finish task out, h.reads, h.outlet, h.ends⟩
  | relay sent =>
    refine ⟨h.inlet.forward sent, ?_, h.outlet, h.ends⟩
    rw [Outlet.received_forward sent]
    exact h.reads
  | read active found reads goes =>
    refine ⟨?_, fun _ => ?_, ?_, ?_⟩
    · exact goes ▸ (h.inlet_moves active false).next found
    · obtain ⟨earlier, hreceived⟩ := h.reads active
      refine ⟨earlier, ?_⟩
      rw [(Outlet.next?_spec found).1, hreceived, reads, ← List.append_assoc]
      simp only [List.map_append, List.map_singleton]
    · exact h.outlet_moves active _
    · intro hover
      rw [goes] at hover
      cases hover
  | readError active found =>
    exact ⟨(h.inlet_moves active true).next found, nofun, h.outlet_moves active _,
      fun _ => ⟨_, rfl⟩⟩
  | readEnd active none ended => exact absurd ended (h.not_over active)
  | quiet active quiet reads ends =>
    refine ⟨h.inlet_moves active _, fun _ => h.read_on active reads, ?_, ends⟩
    rw [quiet.tx]
    exact h.outlet_moves active _
  | send active head fits sent keyed goes =>
    have houtlet := h.outlet
    rw [outcome?_of_active active] at houtlet
    refine ⟨h.inlet_moves active _, fun hactive => ?_, sent ▸ houtlet.send fits, ?_⟩
    · rcases goes with ⟨-, -, rfl⟩ | ⟨-, -, rfl⟩
      · exact h.reads active
      · cases hactive
    · rcases goes with ⟨-, -, rfl⟩ | ⟨-, -, rfl⟩
      · exact h.ends
      · exact fun _ => ⟨_, rfl⟩
  | returned task out =>
    obtain ⟨err, rfl⟩ := h.outcome_error out
    exact ⟨h.inlet, h.reads, h.outlet.finish task out, h.ends⟩
  | forward sent => exact ⟨h.inlet, h.reads, h.outlet.forward sent, h.ends⟩
  | take here found => exact ⟨h.inlet, h.reads, h.outlet.next found, h.ends⟩
  | drop => exact ⟨h.inlet, h.reads, h.outlet.hangUp, h.ends⟩

/-- The blocks sent have the heights from `start` on, none above u32::MAX, and
the block of that height was the last one. -/
structure Orderly (start : Nat) (x : Pipeline Blob) : Prop where
  keyed : x.downloader.blockBuffer.Keyed
  heights : x.downloader.tx.sent.map VersionedCompressedBlock.height =
    List.range' start x.downloader.tx.sent.length
  cursor : x.stage.closed = false → x.downloader.nextFuelBlock ≤ u32Max ∧
    x.downloader.nextFuelBlock = start + x.downloader.tx.sent.length
  bounded : ∀ block ∈ x.downloader.tx.sent, block.height ≤ u32Max
  spent : (∃ block ∈ x.downloader.tx.sent, block.height = u32Max) →
    x.stage = .returned (.error "Out of Fuel block numbers")

theorem start_orderly {config : Config} (hstart : config.nextFuelBlock ≤ u32Max) :
    Orderly config.nextFuelBlock (start config : Pipeline Blob) where
  keyed := fun k block h => by cases h
  heights := rfl
  cursor _ := ⟨hstart, rfl⟩
  bounded := fun block hm => absurd hm List.not_mem_nil
  spent h := by
    obtain ⟨block, hm, -⟩ := h
    exact absurd hm List.not_mem_nil

variable {first : Nat}

/-- A downloader that goes on can still count up. -/
theorem Orderly.unspent (h : Orderly first x) (active : x.stage.closed = false) :
    ¬ ∃ block ∈ x.downloader.tx.sent, block.height = u32Max := by
  intro hspent
  rw [h.spent hspent] at active
  cases active

theorem Orderly.quiet (h : Orderly first x) (active : x.stage.closed = false)
    (quiet : Quiet x.downloader y.downloader) : Orderly first y := by
  refine ⟨quiet.keyed h.keyed, ?_, fun _ => ?_, ?_, fun hspent => ?_⟩
  · exact quiet.tx ▸ h.heights
  · exact quiet.next ▸ quiet.tx ▸ h.cursor active
  · exact quiet.tx ▸ h.bounded
  · exact absurd (quiet.tx ▸ hspent) (h.unspent active)

theorem Orderly.step (h : Orderly first x) {e : Event} (hst : Stepped message x e y) :
    Orderly first y := by
  cases hst with
  | queue | block | queueReturned | relay | returned | forward | take | drop =>
    exact ⟨h.keyed, h.heights, h.cursor, h.bounded, h.spent⟩
  | read active | readError active | readEnd active => exact h.quiet active ⟨rfl, rfl, id⟩
  | quiet active quiet reads ends => exact h.quiet active quiet
  | send active head fits sent keyed goes =>
    rename_i block outlet d stage
    obtain ⟨hmax, hnext⟩ := h.cursor active
    have hheight : block.height = first + x.downloader.tx.sent.length :=
      (h.keyed _ block head).trans hnext
    refine ⟨keyed h.keyed, ?_, ?_, ?_, ?_⟩
    · rw [sent, List.map_append, h.heights, List.length_append, List.length_singleton,
        List.range'_concat, List.map_singleton, hheight, Nat.one_mul]
    · intro hactive
      change d.nextFuelBlock ≤ u32Max ∧ d.nextFuelBlock = first + d.tx.sent.length
      rw [sent, List.length_append, List.length_singleton]
      rcases goes with ⟨hlt, hd, -⟩ | ⟨-, -, rfl⟩
      · omega
      · cases hactive
    · rw [sent]
      intro b hb
      rcases List.mem_append.mp hb with hb | hb
      · exact h.bounded b hb
      · rw [List.mem_singleton.mp hb, hheight, ← hnext]
        exact hmax
    · rw [sent]
      intro hspent
      obtain ⟨b, hb, htop⟩ := hspent
      rcases List.mem_append.mp hb with hb | hb
      · exact absurd ⟨b, hb, htop⟩ (h.unspent active)
      · rcases goes with ⟨hlt, -, -⟩ | ⟨-, -, hstage⟩
        · rw [List.mem_singleton.mp hb, hheight] at htop
          omega
        · exact hstage

/-- The task that forwards and a consumer that reads, and nobody else. -/
def Event.outward : Event → Prop
  | .forward | .take => True
  | _ => False

/-- The downloader has stopped with an error, and the consumer is still there. -/
structure Stopped (message : Queue.Failure → Error) (sent : List VersionedCompressedBlock)
    (err : Error) (x : Pipeline Blob) : Prop where
  sound : Sound message x
  stage : x.stage = .returned (.error err)
  here : x.gone = false
  tx : x.downloader.tx.sent = sent

variable {sent : List VersionedCompressedBlock} {err : Error}

theorem Stopped.step (h : Stopped message sent err x) {e : Event} (he : e.outward)
    (hst : Stepped message x e y) :
    Stopped message sent err y ∧ y.outlet.left < x.outlet.left := by
  have hover : x.stage.closed = true := by rw [h.stage]; rfl
  have hsound := h.sound.step hst
  cases hst with
  | queue | block | queueReturned | relay | read | readError | readEnd | send | drop =>
    exact he.elim
  | quiet active =>
    rw [hover] at active
    cases active
  | returned task out =>
    rw [h.stage] at out
    cases out
    exact ⟨⟨hsound, h.stage, h.here, h.tx⟩, Outlet.left_returns (.error err) task⟩
  | forward sent => exact ⟨⟨hsound, h.stage, h.here, h.tx⟩, Outlet.left_forward sent⟩
  | take here found => exact ⟨⟨hsound, h.stage, h.here, h.tx⟩, Outlet.left_next found⟩

theorem Stopped.progress (h : Stopped message sent err x) (hnot : ¬ x.outlet.Over) :
    ∃ e : Event, e.outward ∧ (Pipeline.step lib message x e).isSome = true := by
  cases hnext : x.outlet.next? with
  | some next => exact ⟨.take, trivial, by simp [Pipeline.step, h.here, hnext]⟩
  | none =>
    have htaken := Outlet.next?_eq_none hnext
    refine ⟨.forward, trivial, ?_⟩
    cases htask : x.outlet.task with
    | running => simp [Pipeline.step, htask, h.stage, Stage.outcome?]
    | failed err =>
      simp only [Pipeline.step, htask, Option.isSome_map]
      exact Outlet.forward_isSome (by decide) htaken htask
    | ended => exact absurd ⟨htaken, Or.inl htask⟩ hnot
    | unreachable => exact absurd ⟨htaken, Or.inr htask⟩ hnot

/-- A consumer that reads on gets everything sent, then the error, then the end. -/
theorem Stopped.delivers (lib : Libraries Blob) (h : Stopped message sent err x) :
    ∃ y, Run (Pipeline.step lib message) (fun _ e => e.outward) x y ∧ y.outlet.Over ∧
      y.outlet.received = sent.map .ok ++ [.error err] := by
  have hkeeps : ∀ y, Run (Pipeline.step lib message) (fun _ e => e.outward) x y →
      Stopped message sent err y := by
    intro y run
    apply run.invariant (motive := Stopped message sent err) h
    intro t u e ht he hst
    exact (ht.step he (step_cases hst)).1
  have hends : ∃ y, Run (Pipeline.step lib message) (fun _ e => e.outward) x y ∧
      y.outlet.Over := by
    apply Run.ends .start
    · intro t run hnot
      exact (hkeeps t run).progress hnot
    · intro t e u run he hst
      exact ((hkeeps t run).step he (step_cases hst)).2
  obtain ⟨y, run, hover⟩ := hends
  have hstopped := hkeeps y run
  have houtlet := hstopped.sound.outlet
  rw [hstopped.here, hstopped.stage, hstopped.tx] at houtlet
  obtain ⟨last, hlast, hreceived⟩ := houtlet.error_of_over hover
  cases hlast
  exact ⟨y, run, hover, hreceived⟩

theorem Stepped.received_grows {e : Event} (hst : Stepped message x e y) :
    x.outlet.received <+: y.outlet.received := by
  cases hst with
  | queue | block | queueReturned | relay | read | readError | readEnd | quiet | drop =>
    exact List.prefix_rfl
  | send active head fits => exact Outlet.received_send fits ▸ List.prefix_rfl
  | returned task out =>
    rename_i outcome
    cases outcome <;> exact List.prefix_rfl
  | forward sent => exact Outlet.received_forward sent ▸ List.prefix_rfl
  | take here found => exact (Outlet.next?_spec found).1 ▸ List.prefix_append _ _

theorem run_received_grows (run : Run (step lib message) (fun _ _ => True) x y) :
    x.outlet.received <+: y.outlet.received := by
  apply run.invariant (motive := fun y => x.outlet.received <+: y.outlet.received) List.prefix_rfl
  intro t u e ht _ hst
  exact ht.trans (step_cases hst).received_grows

theorem run_sound {config : Config}
    (run : Run (step lib message) (fun _ _ => True) (start config) x) : Sound message x := by
  apply run.invariant (motive := Sound message) (start_sound config)
  intro t u e h _ hst
  exact h.step (step_cases hst)

theorem run_orderly {config : Config} (hstart : config.nextFuelBlock ≤ u32Max)
    (run : Run (step lib message) (fun _ _ => True) (start config) x) :
    Orderly config.nextFuelBlock x := by
  apply run.invariant (motive := Orderly config.nextFuelBlock) (start_orderly hstart)
  intro t u e h _ hst
  have hstepped : Stepped message t e u := step_cases hst
  exact h.step hstepped

/-- Everything that was put on the outer channel is in sequence. -/
theorem put_inSequence (hs : Sound message x) (ho : Orderly first x) :
    InSequence first x.outlet.put := by
  rcases hs.outlet.shape with hput | ⟨err, -, -, hput⟩
  · rw [hput, ← List.append_nil (List.map _ _)]
    exact inSequence_append ho.heights trivial
  · rw [hput]
    exact inSequence_append ho.heights rfl

theorem received_inSequence (hs : Sound message x) (ho : Orderly first x) :
    InSequence first x.outlet.received := by
  have h := put_inSequence hs ho
  rw [← List.take_append_drop x.outlet.taken x.outlet.put] at h
  exact h.left

/-- A block that was received was sent. -/
theorem sent_of_received (hs : Sound message x) {block : VersionedCompressedBlock}
    (hm : .ok block ∈ x.outlet.received) : block ∈ x.downloader.tx.sent := by
  have hput := List.mem_of_mem_take hm
  rcases hs.outlet.shape with h | ⟨err, -, -, h⟩ <;> rw [h] at hput <;> simpa using hput

/-- Whatever the L1, the beacon node and the consumer do: the items received are
blocks of consecutive heights within u32 and then at most one error, behind which
the stream is at its end, and no panic is reached. -/
theorem stream_shape (lib : Libraries Blob) (message : Queue.Failure → Error) (config : Config)
    (hstart : config.nextFuelBlock ≤ u32Max) {x : Pipeline Blob}
    (run : Run (step lib message) (fun _ _ => True) (start config) x) :
    InSequence config.nextFuelBlock x.outlet.received ∧
    (∀ block, .ok block ∈ x.outlet.received → block.height ≤ u32Max) ∧
    (∀ err, .error err ∈ x.outlet.received → x.outlet.Over ∧
      ∀ y, Run (step lib message) (fun _ _ => True) x y →
        y.outlet.received = x.outlet.received) ∧
    (x.outlet.Over → x.gone = false → ∃ err, .error err ∈ x.outlet.received) ∧
    (∀ block, .ok block ∈ x.outlet.received → block.height = u32Max →
      x.stage = .returned (.error "Out of Fuel block numbers")) ∧
    (∀ err, x.stage = .returned (.error err) → x.gone = false →
      ∃ y, Run (step lib message) (fun _ _ => True) x y ∧ y.outlet.Over ∧
        y.outlet.received = x.downloader.tx.sent.map .ok ++ [.error err]) ∧
    x.stage ≠ .panicked ∧ x.inlet.task ≠ .unreachable ∧ x.outlet.task ≠ .unreachable := by
  have hs := run_sound run
  have ho := run_orderly hstart run
  refine ⟨received_inSequence hs ho, fun block hm => ho.bounded block (sent_of_received hs hm),
    fun err hm => ⟨(hs.outlet.over_of_error hm).1, fun y later => ?_⟩, fun hover here => ?_,
    fun block hm htop => ho.spent ⟨block, sent_of_received hs hm, htop⟩,
    fun err hstage here => ?_, fun hpanic => ?_, hs.inlet.reachable, hs.outlet.reachable⟩
  · have hseq := received_inSequence (run_sound (run.trans later))
      (run_orderly hstart (run.trans later))
    obtain ⟨rest, hrest⟩ := run_received_grows later
    rw [← hrest] at hseq ⊢
    rw [hseq.right_nil hm, List.append_nil]
  · have houtlet := hs.outlet
    rw [here] at houtlet
    obtain ⟨err, -, hreceived⟩ := houtlet.error_of_over hover
    exact ⟨err, hreceived ▸ List.mem_append_right _ (List.mem_singleton_self _)⟩
  · obtain ⟨y, later, hend⟩ := Stopped.delivers lib ⟨hs, hstage, here, rfl⟩
    exact ⟨y, later.mono (fun _ _ _ => trivial), hend⟩
  · obtain ⟨err, herr⟩ := hs.ends (by rw [hpanic]; rfl)
    rw [hpanic] at herr
    cases herr

/-- A Fuel block comes out of two L1 blocks before the node refuses to answer. -/
def oneBlock : List Event :=
  List.flatten [(Queue.advances 9).map .queue,
    [.queue (.answer 0 (.ok (some (plainBlock 0 [[1, 0]])))), .queue (.join 0)],
    [.queue .advance, .read], (Queue.advances 3).map .queue,
    [.queue (.answer 0 (.ok (some (plainBlock 1 [])))), .queue (.join 0)],
    [.queue .advance, .read, .answer (fun _ => .ok ⟨[⟨"0011", "0x70"⟩]⟩)],
    [.work, .work, .work, .work, .take], (Queue.advances 3).map .queue,
    [.queue (.answer 0 (.error (.transport "refused"))), .queue (.join 0)],
    [.relay, .relay, .read, .forward, .forward, .take]]

theorem stream_shape_one_block :
    ∃ x : Pipeline (HeaderV1 × UInt8),
      Run (step plainLibraries (fun _ => "refused")) (fun _ _ => True)
        (start ⟨"", "", [], 0, 1⟩) x ∧
      x.outlet.received.length = 2 ∧ InSequence 1 x.outlet.received ∧ x.stage ≠ .panicked := by
  obtain ⟨x, run, hlen⟩ : ∃ x, Run (step plainLibraries (fun _ => "refused")) (fun _ _ => True)
      (start ⟨"", "", [], 0, 1⟩) x ∧ x.outlet.received.length = 2 :=
    Run.exists_of_drive oneBlock (by decide)
  obtain ⟨hseq, -, -, -, -, -, hpanic, -, -⟩ :=
    stream_shape plainLibraries (fun _ => "refused") ⟨"", "", [], 0, 1⟩ (by decide) run
  exact ⟨x, run, hlen, hseq, hpanic⟩

end Pipeline
end Watchtower.Downloader
