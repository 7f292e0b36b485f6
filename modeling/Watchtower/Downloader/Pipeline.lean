import Watchtower.Downloader.Emission
import Watchtower.Downloader.QueueInvariants
import Watchtower.Lib.Outlet

namespace Watchtower.Downloader
open Lib

/-- Where `stream_inner` stands: at its first `next` or at the one in the loop,
or inside `process_block`, which is handed two blocks and awaits the sidecars,
then goes through the blobs, then sends what a complete bundle has made ready. -/
inductive Stage (Blob : Type) where
  | first
  | next (thisBlock : Block)
  | fetch (thisBlock nextBlock : Block)
  | insert (nextBlock : Block) (blobs : List Blob)
  | emit (nextBlock : Block) (blobs : List Blob)
  | returned (outcome : Except Error Unit)
  | panicked
  deriving DecidableEq

namespace Stage

variable {Blob : Type}

def outcome? : Stage Blob → Option (Except Error Unit)
  | .returned outcome => some outcome
  | _ => none

/-- The downloader is gone, and its end of the download stream with it. -/
def closed : Stage Blob → Bool
  | .returned _ | .panicked => true
  | _ => false

/-- The last blocks read that are still held. -/
def reads : Stage Blob → List Block
  | .next block | .insert block _ | .emit block _ => [block]
  | .fetch thisBlock nextBlock => [thisBlock, nextBlock]
  | .first | .returned _ | .panicked => []

end Stage

/-- What `DownloadQueue::stream_inner` returned, if it has. The text of its error
is that of an error of another crate. -/
def Queue.State.outcome? (message : Queue.Failure → Error) (s : Queue.State) :
    Option (Except Error Unit) :=
  match s.point with
  | .returned why => some (.error (message why))
  | _ => none

/-- Both producers, each behind the channel of its `stream`, and whether the
consumer has dropped the outer one. -/
structure Pipeline (Blob : Type) where
  queue : Queue.State
  inlet : Outlet 1 Error Block
  downloader : Downloader Blob
  stage : Stage Blob
  outlet : Outlet 1024 Error VersionedCompressedBlock
  gone : Bool

/-- Every block of the buffer lies under its own height. -/
def BlockBuffer.Keyed (buffer : BlockBuffer) : Prop :=
  ∀ k block, buffer.blocks.get? k = some block → block.height = k

theorem BlockBuffer.Keyed.push {buffer : BlockBuffer} (h : buffer.Keyed)
    (block : VersionedCompressedBlock) : (buffer.push block).Keyed := by
  intro k b hb
  simp only [BlockBuffer.push, SortedMap.get?_insert] at hb
  split at hb
  · rename_i hk
    cases hb
    exact hk.symm
  · exact h k b hb

theorem BlockBuffer.Keyed.pruneBelow {buffer : BlockBuffer} (h : buffer.Keyed) (height : Nat) :
    (buffer.pruneBelow height).Keyed := by
  intro k b hb
  simp only [BlockBuffer.pruneBelow, SortedMap.get?_splitOff] at hb
  split at hb
  · exact h k b hb
  · cases hb

theorem BlockBuffer.Keyed.popHeight {buffer rest : BlockBuffer} {height : Nat}
    {block : VersionedCompressedBlock} (h : buffer.Keyed)
    (hpop : buffer.popHeight height = some (block, rest)) : rest.Keyed := by
  obtain ⟨-, -, rfl, -⟩ := BlockBuffer.popHeight_eq_some hpop
  intro k b hb
  rw [SortedMap.get?_erase] at hb
  split at hb
  · cases hb
  · exact h k b hb

namespace Pipeline

variable {Blob : Type}

/-- `Downloader::new` and `stream`. -/
def start (config : Config) : Pipeline Blob where
  queue := Queue.startFrom config.daStartBlock
  inlet := .empty
  downloader := Downloader.new config none
  stage := .first
  outlet := .empty
  gone := false

/-- One step of the download queue. It sends on the inner channel. -/
def stepQueue (x : Pipeline Blob) (e : Queue.Event) : Option (Pipeline Blob) :=
  match e, x.queue.point, x.queue.head? with
  | .advance, .emit, some block =>
    if x.stage.closed then none
    else (x.inlet.send (.ok block)).map
      (fun inlet => { x with queue := x.queue.sendHead block, inlet })
  | .hangUp, _, _ =>
    if x.stage.closed then (Queue.step x.queue .hangUp).map (fun queue => { x with queue })
    else none
  | e, _, _ => (Queue.step x.queue e).map (fun queue => { x with queue })

/-- `next` on the download stream, the `expect` and the `?` on what it gives. -/
def read (x : Pipeline Blob) (go : Block → Stage Blob) : Option (Pipeline Blob) :=
  match x.inlet.next? with
  | some (.ok block, inlet) => some { x with inlet, stage := go block }
  | some (.error err, inlet) => some { x with inlet, stage := .returned (.error err) }
  | none => if x.inlet.Over then some { x with stage := .panicked } else none

/-- `process_block` up to its loop, with what the beacon node answers. -/
def scan (lib : Libraries Blob) (x : Pipeline Blob) (http : Downloader.Http)
    (thisBlock nextBlock : Block) : Pipeline Blob :=
  match x.downloader.getSidecarsFromNextBlock http nextBlock with
  | .error err => { x with stage := .returned (.error err) }
  | .ok none => { x with stage := .next nextBlock }
  | .ok (some sidecars) =>
    match getBlobsFromBeaconResponse lib
        (getBlockTxBlobs thisBlock x.downloader.targetContract) sidecars.data with
    | .error err => { x with stage := .returned (.error err) }
    | .ok blobs => { x with stage := .insert nextBlock blobs }

/-- One blob of the loop of `process_block`, up to the loop that sends. -/
def insertBlob (lib : Libraries Blob) (x : Pipeline Blob) (nextBlock : Block) (blob : Blob)
    (rest : List Blob) : Pipeline Blob :=
  match IncompleteBundleBuffers.insert lib.toCodec x.downloader.bundleBuffers blob with
  | .error err bundleBuffers =>
    { x with
      downloader := { x.downloader with bundleBuffers }
      stage := .returned (.error err) }
  | .ok .incomplete bundleBuffers =>
    { x with
      downloader := { x.downloader with bundleBuffers }
      stage := .insert nextBlock rest }
  | .ok (.complete bundle) bundleBuffers =>
    match ({ x.downloader with bundleBuffers } : Downloader Blob).pushBlocks lib bundle.blocks with
    | .error err d => { x with downloader := d, stage := .returned (.error err) }
    | .ok () d =>
      { x with
        downloader := { d with blockBuffer := d.blockBuffer.pruneBelow d.nextFuelBlock }
        stage := .emit nextBlock rest }

/-- One round of the loop that sends. The send waits while the channel is full. -/
def sendNext (x : Pipeline Blob) (nextBlock : Block) (blobs : List Blob) :
    Option (Pipeline Blob) :=
  let d := x.downloader
  match d.blockBuffer.popHeight d.nextFuelBlock with
  | none => some { x with stage := .insert nextBlock blobs }
  | some (block, blockBuffer) =>
    if x.gone then
      some { x with
        downloader := { d with blockBuffer }
        stage := .returned (.error "channel closed") }
    else
      (x.outlet.send (.ok block)).map (fun outlet =>
        let d := { d with blockBuffer, tx := { d.tx with sent := d.tx.sent ++ [block] } }
        match BlockHeight.succ d.nextFuelBlock with
        | none =>
          { x with
            downloader := d
            stage := .returned (.error "Out of Fuel block numbers")
            outlet }
        | some next => { x with downloader := { d with nextFuelBlock := next }, outlet })

/-- What moves the pipeline: the download queue, `stream_inner` with the answers
of the beacon node, the two forwarding tasks, and the consumer. -/
inductive Event where
  | queue (e : Queue.Event)
  | relay
  | read
  | answer (http : Downloader.Http)
  | work
  | forward
  | take
  | drop

def step (lib : Libraries Blob) (message : Queue.Failure → Error) (x : Pipeline Blob) :
    Event → Option (Pipeline Blob)
  | .queue e => x.stepQueue e
  | .relay =>
    match x.inlet.task, x.queue.outcome? message with
    | .running, some outcome => some { x with inlet := x.inlet.finish outcome }
    | _, _ => (x.inlet.forward x.stage.closed).map (fun inlet => { x with inlet })
  | .read =>
    match x.stage with
    | .first => x.read .next
    | .next thisBlock => x.read (.fetch thisBlock)
    | _ => none
  | .answer http =>
    match x.stage with
    | .fetch thisBlock nextBlock => some (x.scan lib http thisBlock nextBlock)
    | _ => none
  | .work =>
    match x.stage with
    | .insert nextBlock [] => some { x with stage := .next nextBlock }
    | .insert nextBlock (blob :: rest) => some (x.insertBlob lib nextBlock blob rest)
    | .emit nextBlock blobs => x.sendNext nextBlock blobs
    | _ => none
  | .forward =>
    match x.outlet.task, x.stage.outcome? with
    | .running, some outcome => some { x with outlet := x.outlet.finish outcome }
    | _, _ => (x.outlet.forward x.gone).map (fun outlet => { x with outlet })
  | .take =>
    if x.gone then none
    else x.outlet.next?.map (fun next => { x with outlet := next.2 })
  | .drop => some { x with gone := true }

/-- Nothing is sent, and the buffer keeps its blocks under their own heights. -/
structure Quiet (d d' : Downloader Blob) : Prop where
  tx : d'.tx = d.tx
  next : d'.nextFuelBlock = d.nextFuelBlock
  keyed : d.blockBuffer.Keyed → d'.blockBuffer.Keyed

/-- Everything one step can do, as far as the items that pass are concerned. -/
inductive Stepped (message : Queue.Failure → Error) (x : Pipeline Blob) :
    Event → Pipeline Blob → Prop where
  | queue {e : Queue.Event} {queue : Queue.State} (moves : Queue.step x.queue e = some queue)
      (same : queue.sent = x.queue.sent) : Stepped message x (.queue e) { x with queue }
  | block {block : Block} {inlet : Outlet 1 Error Block} (here : x.queue.point = .emit)
      (head : x.queue.head? = some block) (fits : x.inlet.send (.ok block) = some inlet) :
      Stepped message x (.queue .advance) { x with queue := x.queue.sendHead block, inlet }
  | queueReturned {outcome : Except Error Unit} (task : x.inlet.task = .running)
      (out : x.queue.outcome? message = some outcome) :
      Stepped message x .relay { x with inlet := x.inlet.finish outcome }
  | relay {inlet : Outlet 1 Error Block} (sent : x.inlet.forward x.stage.closed = some inlet) :
      Stepped message x .relay { x with inlet }
  | read {block : Block} {inlet : Outlet 1 Error Block} {stage : Stage Blob}
      (active : x.stage.closed = false) (found : x.inlet.next? = some (.ok block, inlet))
      (reads : stage.reads = x.stage.reads ++ [block]) (goes : stage.closed = false) :
      Stepped message x .read { x with inlet, stage }
  | readError {err : Error} {inlet : Outlet 1 Error Block} (active : x.stage.closed = false)
      (found : x.inlet.next? = some (.error err, inlet)) :
      Stepped message x .read { x with inlet, stage := .returned (.error err) }
  | readEnd (active : x.stage.closed = false) (none : x.inlet.next? = none) (ended : x.inlet.Over) :
      Stepped message x .read { x with stage := .panicked }
  | quiet {e : Event} {d : Downloader Blob} {stage : Stage Blob} (active : x.stage.closed = false)
      (quiet : Quiet x.downloader d) (reads : stage.reads <:+ x.stage.reads)
      (ends : stage.closed = true → ∃ err, stage = .returned (.error err)) :
      Stepped message x e { x with downloader := d, stage }
  | send {block : VersionedCompressedBlock} {outlet : Outlet 1024 Error VersionedCompressedBlock}
      {d : Downloader Blob} {stage : Stage Blob} (active : x.stage.closed = false)
      (head : x.downloader.blockBuffer.blocks.get? x.downloader.nextFuelBlock = some block)
      (fits : x.outlet.send (.ok block) = some outlet)
      (sent : d.tx.sent = x.downloader.tx.sent ++ [block])
      (keyed : x.downloader.blockBuffer.Keyed → d.blockBuffer.Keyed)
      (goes : x.downloader.nextFuelBlock < u32Max ∧
          d.nextFuelBlock = x.downloader.nextFuelBlock + 1 ∧ stage = x.stage ∨
        u32Max ≤ x.downloader.nextFuelBlock ∧ d.nextFuelBlock = x.downloader.nextFuelBlock ∧
          stage = .returned (.error "Out of Fuel block numbers")) :
      Stepped message x .work { x with downloader := d, stage, outlet }
  | returned {outcome : Except Error Unit} (task : x.outlet.task = .running)
      (out : x.stage.outcome? = some outcome) :
      Stepped message x .forward { x with outlet := x.outlet.finish outcome }
  | forward {outlet : Outlet 1024 Error VersionedCompressedBlock}
      (sent : x.outlet.forward x.gone = some outlet) :
      Stepped message x .forward { x with outlet }
  | take {item : Except Error VersionedCompressedBlock}
      {outlet : Outlet 1024 Error VersionedCompressedBlock} (here : x.gone = false)
      (found : x.outlet.next? = some (item, outlet)) : Stepped message x .take { x with outlet }
  | drop : Stepped message x .drop { x with gone := true }

theorem pushBlocks_quiet (lib : Libraries Blob) (d : Downloader Blob) (encoded : List Bytes) :
    Quiet d (finalState (d.pushBlocks lib encoded)) := by
  induction encoded generalizing d with
  | nil => exact ⟨rfl, rfl, id⟩
  | cons bytes rest ih =>
    simp only [Downloader.pushBlocks]
    cases lib.fromBytes bytes with
    | error err => exact ⟨rfl, rfl, id⟩
    | ok block =>
      obtain ⟨htx, hnext, hkeyed⟩ := ih { d with blockBuffer := d.blockBuffer.push block }
      exact ⟨htx, hnext, fun h => hkeyed (h.push block)⟩

variable {lib : Libraries Blob} {message : Queue.Failure → Error} {x y : Pipeline Blob}

theorem scan_stepped {http : Downloader.Http} {thisBlock nextBlock : Block} {e : Event}
    (here : x.stage = .fetch thisBlock nextBlock) :
    Stepped message x e (x.scan lib http thisBlock nextBlock) := by
  have active : x.stage.closed = false := by rw [here]; rfl
  have still : Quiet x.downloader x.downloader := ⟨rfl, rfl, id⟩
  have hlast : [nextBlock] <:+ x.stage.reads := by rw [here]; exact ⟨[thisBlock], rfl⟩
  unfold scan
  split
  · exact .quiet active still (List.nil_suffix) (fun _ => ⟨_, rfl⟩)
  · exact .quiet active still hlast nofun
  · split
    · exact .quiet active still (List.nil_suffix) (fun _ => ⟨_, rfl⟩)
    · exact .quiet active still hlast nofun

theorem insertBlob_stepped {nextBlock : Block} {blob : Blob} {rest : List Blob} {e : Event}
    (here : x.stage = .insert nextBlock (blob :: rest)) :
    Stepped message x e (x.insertBlob lib nextBlock blob rest) := by
  have active : x.stage.closed = false := by rw [here]; rfl
  have hlast : [nextBlock] <:+ x.stage.reads := by rw [here]; exact List.suffix_rfl
  unfold insertBlob
  split
  · exact .quiet active ⟨rfl, rfl, id⟩ (List.nil_suffix) (fun _ => ⟨_, rfl⟩)
  · exact .quiet active ⟨rfl, rfl, id⟩ hlast nofun
  · rename_i bundle bundleBuffers hins
    obtain ⟨htx, hnext, hkeyed⟩ :=
      pushBlocks_quiet lib { x.downloader with bundleBuffers } bundle.blocks
    split <;> rename_i hpush <;> rw [hpush] at htx hnext hkeyed
    · exact .quiet active ⟨htx, hnext, hkeyed⟩ (List.nil_suffix) (fun _ => ⟨_, rfl⟩)
    · exact .quiet active ⟨htx, hnext, fun h => (hkeyed h).pruneBelow _⟩ hlast nofun

theorem sendNext_stepped {nextBlock : Block} {blobs : List Blob}
    (here : x.stage = .emit nextBlock blobs) (h : x.sendNext nextBlock blobs = some y) :
    Stepped message x .work y := by
  have active : x.stage.closed = false := by rw [here]; rfl
  have hlast : [nextBlock] <:+ x.stage.reads := by rw [here]; exact List.suffix_rfl
  simp only [sendNext] at h
  split at h
  · cases h
    exact .quiet active ⟨rfl, rfl, id⟩ hlast nofun
  · rename_i block blockBuffer hpop
    split at h
    · cases h
      exact .quiet active ⟨rfl, rfl, fun h => h.popHeight hpop⟩ (List.nil_suffix)
        (fun _ => ⟨_, rfl⟩)
    · obtain ⟨outlet, hsend, rfl⟩ := Option.map_eq_some_iff.mp h
      have hget := (BlockBuffer.popHeight_eq_some hpop).1
      split
      · rename_i hsucc
        refine .send active hget hsend rfl (fun h => h.popHeight hpop) (Or.inr ⟨?_, rfl, rfl⟩)
        by_contra hlt
        rw [BlockHeight.succ_eq_some.mpr ⟨Nat.lt_of_not_le hlt, rfl⟩] at hsucc
        cases hsucc
      · rename_i next hsucc
        obtain ⟨hlt, rfl⟩ := BlockHeight.succ_eq_some.mp hsucc
        exact .send active hget hsend rfl (fun h => h.popHeight hpop) (Or.inl ⟨hlt, rfl, rfl⟩)

theorem read_stepped {go : Block → Stage Blob} (active : x.stage.closed = false)
    (goes : ∀ block, (go block).reads = x.stage.reads ++ [block] ∧ (go block).closed = false)
    (h : x.read go = some y) : Stepped message x .read y := by
  unfold read at h
  split at h
  · rename_i block inlet found
    cases h
    exact .read active found (goes block).1 (goes block).2
  · rename_i err inlet found
    cases h
    exact .readError active found
  · rename_i none
    split at h
    · rename_i ended
      cases h
      exact .readEnd active none ended
    · contradiction

/-- A queue that sends is at its emit loop with the block at the head. -/
theorem stepQueue_stepped {e : Queue.Event} (h : x.stepQueue e = some y) :
    Stepped message x (.queue e) y := by
  unfold stepQueue at h
  split at h
  · rename_i block here head
    split at h
    · contradiction
    · obtain ⟨inlet, fits, rfl⟩ := Option.map_eq_some_iff.mp h
      exact .block here head fits
  · split at h
    · obtain ⟨queue, moves, rfl⟩ := Option.map_eq_some_iff.mp h
      refine .queue moves ?_
      cases Queue.step_cases moves
      rfl
    · contradiction
  · rename_i hno
    obtain ⟨queue, moves, rfl⟩ := Option.map_eq_some_iff.mp h
    refine .queue moves ?_
    cases Queue.step_cases moves with
    | send block here head =>
      exact absurd (Queue.head?_eq_some.mpr head) (fun hh => hno block rfl here hh)
    | join => exact (Queue.joined_sent _ _).1
    | _ => rfl

theorem step_cases {e : Event} (h : step lib message x e = some y) : Stepped message x e y := by
  cases e with
  | queue e => exact stepQueue_stepped h
  | relay =>
    simp only [step] at h
    split at h
    · rename_i outcome task out
      cases h
      exact .queueReturned task out
    · obtain ⟨inlet, sent, rfl⟩ := Option.map_eq_some_iff.mp h
      exact .relay sent
  | read =>
    simp only [step] at h
    split at h
    · rename_i here
      exact read_stepped (by rw [here]; rfl) (by simp [here, Stage.reads, Stage.closed]) h
    · rename_i here
      exact read_stepped (by rw [here]; rfl) (by simp [here, Stage.reads, Stage.closed]) h
    · contradiction
  | answer http =>
    simp only [step] at h
    split at h
    · rename_i here
      cases h
      exact scan_stepped here
    · contradiction
  | work =>
    simp only [step] at h
    split at h
    · rename_i nextBlock here
      cases h
      refine .quiet (by rw [here]; rfl) ⟨rfl, rfl, id⟩ ?_ nofun
      rw [here]
      exact List.suffix_rfl
    · rename_i here
      cases h
      exact insertBlob_stepped here
    · rename_i here
      exact sendNext_stepped here h
    · contradiction
  | forward =>
    simp only [step] at h
    split at h
    · rename_i outcome task out
      cases h
      exact .returned task out
    · obtain ⟨outlet, sent, rfl⟩ := Option.map_eq_some_iff.mp h
      exact .forward sent
  | take =>
    simp only [step] at h
    split at h
    · contradiction
    · rename_i here
      obtain ⟨⟨item, outlet⟩, found, rfl⟩ := Option.map_eq_some_iff.mp h
      exact .take (Bool.eq_false_iff.mpr here) found
  | drop =>
    cases h
    exact .drop

/-- The download queue moves by its own steps only. -/
theorem Stepped.queue_cases {e : Event} (h : Stepped message x e y) :
    y.queue = x.queue ∨ ∃ q, e = .queue q ∧ Queue.step x.queue q = some y.queue := by
  cases h with
  | queue moves same => exact Or.inr ⟨_, rfl, moves⟩
  | block here head fits => exact Or.inr ⟨.advance, rfl, by simp [Queue.step, here, head]⟩
  | queueReturned | relay | read | readError | readEnd | quiet | send | returned | forward | take
  | drop => exact Or.inl rfl

end Pipeline
end Watchtower.Downloader
