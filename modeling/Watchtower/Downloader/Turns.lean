import Watchtower.Downloader.Stream

namespace Watchtower.Downloader
open Lib

variable {Blob : Type} {lib : Libraries Blob} {message : Queue.Failure → Error} {config : Config}

/-- The downloader before a consumer that stays for so many sends. -/
def facing (staysFor : Option Nat) (d : Downloader Blob) : Downloader Blob :=
  { d with tx := { d.tx with staysFor } }

theorem pushBlocks_facing (lib : Libraries Blob) (staysFor : Option Nat) (d : Downloader Blob)
    (encoded : List Bytes) :
    (d.facing staysFor).pushBlocks lib encoded = match d.pushBlocks lib encoded with
      | .ok () d' => .ok () (d'.facing staysFor)
      | .error err d' => .error err (d'.facing staysFor) := by
  induction encoded generalizing d with
  | nil => rfl
  | cons bytes rest ih =>
    simp only [pushBlocks]
    cases lib.fromBytes bytes with
    | error err => rfl
    | ok block => exact ih { d with blockBuffer := d.blockBuffer.push block }

/-- One more turn, after turns that ended with a block. -/
theorem follow_snoc {d d' : Downloader Blob} {firstBlock : Block} {turns : List Turn}
    (h : d.follow lib firstBlock turns = .ok () d') (turn : Turn) :
    ∃ thisBlock, (turns.map Turn.item).getLastD (.ok firstBlock) = .ok thisBlock ∧
      d.follow lib firstBlock (turns ++ [turn]) = d'.follow lib thisBlock [turn] := by
  induction turns generalizing d firstBlock with
  | nil =>
    cases h
    exact ⟨firstBlock, rfl, rfl⟩
  | cons head rest ih =>
    simp only [follow] at h
    split at h
    · contradiction
    · rename_i nextBlock hitem
      split at h
      · contradiction
      · rename_i mid hmid
        obtain ⟨thisBlock, hlast, hrun⟩ := ih h
        refine ⟨thisBlock, ?_, ?_⟩
        · rw [List.map_cons, List.getLastD_cons, hitem]
          exact hlast
        · simp only [List.cons_append, follow, hitem, hmid]
          exact hrun

theorem streamInner_snoc {d d' : Downloader Blob} {thisBlock : Block} {turns : List Turn}
    {http : Http} (h : d.streamInner lib (turns ++ [⟨.ok thisBlock, http⟩]) = .ok () d')
    (turn : Turn) :
    d.streamInner lib (turns ++ [⟨.ok thisBlock, http⟩] ++ [turn]) =
      d'.follow lib thisBlock [turn] := by
  cases turns with
  | nil =>
    cases h
    rfl
  | cons head rest =>
    simp only [List.cons_append, streamInner] at h ⊢
    split at h
    · contradiction
    · rename_i firstBlock hitem
      obtain ⟨lastBlock, hlast, hrun⟩ := follow_snoc h turn
      have : lastBlock = thisBlock := by simpa [eq_comm] using hlast
      rw [hrun, this]

/-- Nothing that was sent is taken back. -/
theorem sendReady_keeps_sent (rounds : Nat) (d : Downloader Blob) :
    d.tx.sent <+: (finalState (sendReady rounds d)).tx.sent := by
  induction rounds generalizing d with
  | zero => exact List.prefix_rfl
  | succ rounds ih =>
    simp only [sendReady]
    split
    · exact List.prefix_rfl
    · split
      · exact List.prefix_rfl
      · rename_i tx hsend
        have hsent : d.tx.sent <+: tx.sent := by
          rw [Sender.send_ok hsend]
          exact List.prefix_append _ _
        split
        · exact hsent
        · rename_i next hsucc
          exact hsent.trans (ih { d with blockBuffer := _, tx, nextFuelBlock := next })

theorem takeBundle_keeps_sent (lib : Libraries Blob) (d : Downloader Blob) (bundle : Bundle) :
    d.tx.sent <+: (finalState (d.takeBundle lib bundle)).tx.sent := by
  have htx := (Pipeline.pushBlocks_quiet lib d bundle.blocks).tx
  simp only [takeBundle]
  generalize d.pushBlocks lib bundle.blocks = outcome at htx ⊢
  rw [← htx]
  cases outcome with
  | error err d' => exact List.prefix_rfl
  | ok _ d' =>
    exact sendReady_keeps_sent _
      { d' with blockBuffer := d'.blockBuffer.pruneBelow d'.nextFuelBlock }

theorem insertBlobs_keeps_sent (lib : Libraries Blob) (blobs : List Blob) (d : Downloader Blob) :
    d.tx.sent <+: (finalState (d.insertBlobs lib blobs)).tx.sent := by
  induction blobs generalizing d with
  | nil => exact List.prefix_rfl
  | cons blob rest ih =>
    simp only [insertBlobs]
    split
    · exact List.prefix_rfl
    · rename_i bundleBuffers hins
      exact ih { d with bundleBuffers }
    · rename_i bundle bundleBuffers hins
      have htake := takeBundle_keeps_sent lib { d with bundleBuffers } bundle
      split <;> rename_i hrun <;> rw [hrun] at htake
      · exact htake
      · exact htake.trans (ih _)

/-- What is left of the turn, when it goes on as far as it can. -/
def Stage.rest (lib : Libraries Blob) (d : Downloader Blob) :
    Stage Blob → EStateM.Result Error (Downloader Blob) Unit
  | .insert _ blobs => d.insertBlobs lib blobs
  | .emit _ blobs =>
    match sendReady d.blockBuffer.blocks.size d with
    | .error err d => .error err d
    | .ok () d => d.insertBlobs lib blobs
  | .returned (.error err) => .error err d
  | _ => .ok () d

theorem Stage.rest_keeps_sent (lib : Libraries Blob) (d : Downloader Blob) (stage : Stage Blob) :
    d.tx.sent <+: (finalState (stage.rest lib d)).tx.sent := by
  cases stage with
  | insert nextBlock blobs => exact insertBlobs_keeps_sent lib blobs d
  | emit nextBlock blobs =>
    have hready := sendReady_keeps_sent d.blockBuffer.blocks.size d
    simp only [Stage.rest]
    split <;> rename_i hrun <;> rw [hrun] at hready
    · exact hready
    · exact hready.trans (insertBlobs_keeps_sent lib blobs _)
  | returned outcome => cases outcome <;> exact List.prefix_rfl
  | first | next | fetch | panicked => exact List.prefix_rfl

/-- The block that was read but is not part of a turn yet. -/
def Stage.waiting : Stage Blob → List (Except Error Block)
  | .fetch _ nextBlock => [.ok nextBlock]
  | _ => []

/-- The last of the turns is the one that brought the block now at hand. -/
def Stage.At (turns : List Turn) : Stage Blob → Prop
  | .first => turns = []
  | .next block | .fetch block _ | .insert block _ | .emit block _ =>
    ∃ before http, turns = before ++ [⟨.ok block, http⟩]
  | .returned _ | .panicked => True

/-- The turn of an item for which nothing is asked of the beacon node yet. -/
def Turn.plain (item : Except Error Block) : Turn := ⟨item, fun _ => .error ""⟩

namespace Pipeline

variable {x y : Pipeline Blob} {staysFor : Option Nat}

/-- A consumer that stays this long would have let the sends go as they went. -/
def Allows (x : Pipeline Blob) : Option Nat → Prop
  | none => x.stage ≠ .returned (.error "channel closed")
  | some n => x.downloader.tx.sent.length ≤ n ∧
      (x.stage = .returned (.error "channel closed") → n = x.downloader.tx.sent.length)

theorem Allows.back (h : y.Allows staysFor) (active : x.stage.closed = false)
    (hle : x.downloader.tx.sent.length ≤ y.downloader.tx.sent.length) : x.Allows staysFor := by
  have hstage : x.stage ≠ .returned (.error "channel closed") := by
    intro hclosed
    rw [hclosed] at active
    cases active
  cases staysFor with
  | none => exact hstage
  | some n => exact ⟨Nat.le_trans hle h.1, fun hclosed => absurd hclosed hstage⟩

theorem scan_rest (lib : Libraries Blob) (x : Pipeline Blob) (http : Downloader.Http)
    (thisBlock nextBlock : Block) (staysFor : Option Nat) :
    (x.scan lib http thisBlock nextBlock).stage.rest lib
        ((x.scan lib http thisBlock nextBlock).downloader.facing staysFor) =
      (x.downloader.facing staysFor).processBlock lib http thisBlock nextBlock := by
  have hsidecars : (x.downloader.facing staysFor).getSidecarsFromNextBlock http nextBlock =
      x.downloader.getSidecarsFromNextBlock http nextBlock := rfl
  have htarget : (x.downloader.facing staysFor).targetContract = x.downloader.targetContract := rfl
  simp only [Downloader.processBlock, hsidecars, htarget, scan]
  cases x.downloader.getSidecarsFromNextBlock http nextBlock with
  | error err => rfl
  | ok found =>
    cases found with
    | none => rfl
    | some sidecars =>
      simp only
      cases getBlobsFromBeaconResponse lib (getBlockTxBlobs thisBlock x.downloader.targetContract)
        sidecars.data <;> rfl

theorem insertBlob_rest (lib : Libraries Blob) (x : Pipeline Blob) (nextBlock : Block)
    (blob : Blob) (rest : List Blob) (staysFor : Option Nat) :
    (x.insertBlob lib nextBlock blob rest).stage.rest lib
        ((x.insertBlob lib nextBlock blob rest).downloader.facing staysFor) =
      (x.downloader.facing staysFor).insertBlobs lib (blob :: rest) := by
  have hbuffers : (x.downloader.facing staysFor).bundleBuffers = x.downloader.bundleBuffers := rfl
  simp only [Downloader.insertBlobs, hbuffers, insertBlob]
  cases IncompleteBundleBuffers.insert lib.toCodec x.downloader.bundleBuffers blob with
  | error err bundleBuffers => rfl
  | ok inserted bundleBuffers =>
    cases inserted with
    | incomplete => rfl
    | complete bundle =>
      have hpush := pushBlocks_facing lib staysFor { x.downloader with bundleBuffers }
        bundle.blocks
      have hfacing : { x.downloader.facing staysFor with bundleBuffers } =
          Downloader.facing staysFor { x.downloader with bundleBuffers } := rfl
      simp only [Downloader.takeBundle, hfacing, hpush]
      cases ({ x.downloader with bundleBuffers } : Downloader Blob).pushBlocks lib
        bundle.blocks <;> rfl

/-- The send of the turn goes as it went in the pipeline. -/
theorem send_of_allows (hallows : y.Allows staysFor) {tx : Sender}
    {block : VersionedCompressedBlock}
    (hsent : y.downloader.tx.sent = tx.sent ++ [block]) :
    ({ tx with staysFor } : Sender).send block = .ok ⟨tx.sent ++ [block], staysFor⟩ := by
  cases staysFor with
  | none => rfl
  | some n =>
    have hlt : tx.sent.length < n := by
      have hle := hallows.1
      rw [hsent, List.length_append, List.length_singleton] at hle
      exact hle
    simp only [Sender.send, hlt, if_true]

theorem sendReady_none {d : Downloader Blob}
    (hpop : d.blockBuffer.popHeight d.nextFuelBlock = none) (rounds : Nat) :
    Downloader.sendReady rounds d = .ok () d := by
  cases rounds with
  | zero => rfl
  | succ rounds => simp only [Downloader.sendReady, hpop]

theorem sendNext_rest (lib : Libraries Blob) {nextBlock : Block} {blobs : List Blob}
    (h : x.sendNext nextBlock blobs = some y) (here : x.stage = .emit nextBlock blobs)
    (hallows : y.Allows staysFor) :
    y.stage.rest lib (y.downloader.facing staysFor) =
      x.stage.rest lib (x.downloader.facing staysFor) := by
  simp only [sendNext] at h
  cases hpop : x.downloader.blockBuffer.popHeight x.downloader.nextFuelBlock with
  | none =>
    rw [hpop] at h
    cases h
    have hpop' : (x.downloader.facing staysFor).blockBuffer.popHeight
        (x.downloader.facing staysFor).nextFuelBlock = none := hpop
    simp only [here, Stage.rest, sendReady_none hpop']
  | some popped =>
    obtain ⟨block, buffer⟩ := popped
    have hsize : (x.downloader.facing staysFor).blockBuffer.blocks.size =
        buffer.blocks.size + 1 := (BlockBuffer.popHeight_eq_some hpop).2.2.2
    have hpop' : (x.downloader.facing staysFor).blockBuffer.popHeight
        (x.downloader.facing staysFor).nextFuelBlock = some (block, buffer) := hpop
    simp only [here, Stage.rest, hsize, Downloader.sendReady, hpop']
    simp only [hpop] at h
    split at h
    · cases h
      cases staysFor with
      | none => exact absurd rfl hallows
      | some n =>
        have hn : n = x.downloader.tx.sent.length := hallows.2 rfl
        simp only [Downloader.facing, Sender.send, hn, Nat.lt_irrefl, if_false]
    · obtain ⟨outlet, -, rfl⟩ := Option.map_eq_some_iff.mp h
      have hsend : (x.downloader.facing staysFor).tx.send block =
          .ok ⟨x.downloader.tx.sent ++ [block], staysFor⟩ := by
        refine send_of_allows hallows ?_
        split <;> rfl
      have hnext : (x.downloader.facing staysFor).nextFuelBlock =
        x.downloader.nextFuelBlock := rfl
      simp only [hsend, hnext]
      cases BlockHeight.succ x.downloader.nextFuelBlock with
      | none => rfl
      | some next =>
        simp only [here]
        rfl

/-- The turns account for what was read, and `stream_inner` on them comes to
where the pipeline is once what is left of the last turn is done. -/
structure Follows (lib : Libraries Blob) (config : Config) (turns : List Turn)
    (x : Pipeline Blob) : Prop where
  items : x.inlet.received = turns.map Turn.item ++ x.stage.waiting
  at_hand : x.stage.At turns
  outcome : ∀ staysFor, x.Allows staysFor →
    (Downloader.new config staysFor).streamInner lib turns =
      x.stage.rest lib (x.downloader.facing staysFor)

theorem start_follows (lib : Libraries Blob) (config : Config) :
    Follows lib config [] (start config) where
  items := rfl
  at_hand := rfl
  outcome _ _ := rfl

variable {turns : List Turn}

/-- Only what the downloader does and reads counts. -/
theorem Follows.still (h : Follows lib config turns x) (hd : y.downloader = x.downloader)
    (hs : y.stage = x.stage) (hr : y.inlet.received = x.inlet.received) :
    Follows lib config turns y := by
  refine ⟨?_, ?_, fun staysFor hallows => ?_⟩
  · rw [hr, hs, h.items]
  · rw [hs]
    exact h.at_hand
  · rw [hs, hd]
    apply h.outcome
    unfold Allows at hallows ⊢
    rwa [hs, hd] at hallows

/-- A stretch of work on a turn, after which less is left of it. -/
theorem Follows.work (h : Follows lib config turns x) (active : x.stage.closed = false)
    (hr : y.inlet.received = x.inlet.received)
    (hwaiting : y.stage.waiting = x.stage.waiting) (hat : x.stage.At turns → y.stage.At turns)
    (hle : x.downloader.tx.sent.length ≤ y.downloader.tx.sent.length)
    (hrest : ∀ staysFor, y.Allows staysFor → y.stage.rest lib (y.downloader.facing staysFor) =
      x.stage.rest lib (x.downloader.facing staysFor)) : Follows lib config turns y where
  items := by rw [hr, hwaiting, h.items]
  at_hand := hat h.at_hand
  outcome staysFor hallows := by
    rw [hrest staysFor hallows]
    exact h.outcome staysFor (hallows.back active hle)

/-- What was read becomes a turn of its own. -/
theorem Follows.turn (h : Follows lib config turns x) {thisBlock : Block}
    (active : x.stage.closed = false) (hat : x.stage.At turns →
      ∃ before http, turns = before ++ [⟨.ok thisBlock, http⟩])
    (hdone : ∀ d, x.stage.rest lib d = .ok () d) (turn : Turn)
    (hr : y.inlet.received = (turns ++ [turn]).map Turn.item ++ y.stage.waiting)
    (hat' : y.stage.At (turns ++ [turn]))
    (hle : x.downloader.tx.sent.length ≤ y.downloader.tx.sent.length)
    (hrest : ∀ staysFor, y.stage.rest lib (y.downloader.facing staysFor) =
      (x.downloader.facing staysFor).follow lib thisBlock [turn]) :
    Follows lib config (turns ++ [turn]) y where
  items := hr
  at_hand := hat'
  outcome staysFor hallows := by
    obtain ⟨before, http, rfl⟩ := hat h.at_hand
    have hrun := h.outcome staysFor (hallows.back active hle)
    rw [hdone] at hrun
    rw [streamInner_snoc hrun turn, hrest]

/-- The turns end with the one that brought the block. -/
def EndWith (block : Block) (turns : List Turn) : Prop :=
  ∃ before http, turns = before ++ [⟨.ok block, http⟩]

/-- `process_block` has gone on: it has read nothing, and still is about the
block read last. -/
structure Onward (nextBlock : Block) (x y : Pipeline Blob) : Prop where
  inlet : y.inlet = x.inlet
  waiting : y.stage.waiting = []
  at_hand : ∀ turns, EndWith nextBlock turns → y.stage.At turns
  sent : x.downloader.tx.sent.length ≤ y.downloader.tx.sent.length

theorem scan_onward (lib : Libraries Blob) (x : Pipeline Blob) (http : Downloader.Http)
    (thisBlock nextBlock : Block) :
    Onward nextBlock x (x.scan lib http thisBlock nextBlock) := by
  unfold scan
  split
  · exact ⟨rfl, rfl, fun _ _ => trivial, Nat.le_refl _⟩
  · exact ⟨rfl, rfl, fun _ h => h, Nat.le_refl _⟩
  · split
    · exact ⟨rfl, rfl, fun _ _ => trivial, Nat.le_refl _⟩
    · exact ⟨rfl, rfl, fun _ h => h, Nat.le_refl _⟩

theorem insertBlob_onward (lib : Libraries Blob) (x : Pipeline Blob) (nextBlock : Block)
    (blob : Blob) (rest : List Blob) :
    Onward nextBlock x (x.insertBlob lib nextBlock blob rest) := by
  unfold insertBlob
  split
  · exact ⟨rfl, rfl, fun _ _ => trivial, Nat.le_refl _⟩
  · exact ⟨rfl, rfl, fun _ h => h, Nat.le_refl _⟩
  · rename_i bundle bundleBuffers hins
    have htx := (pushBlocks_quiet lib { x.downloader with bundleBuffers } bundle.blocks).tx
    split <;> rename_i hpush <;> rw [hpush] at htx
    · exact ⟨rfl, rfl, fun _ _ => trivial, Nat.le_of_eq (congrArg (·.sent.length) htx).symm⟩
    · exact ⟨rfl, rfl, fun _ h => h, Nat.le_of_eq (congrArg (·.sent.length) htx).symm⟩

theorem sendNext_onward {nextBlock : Block} {blobs : List Blob}
    (h : x.sendNext nextBlock blobs = some y) (here : x.stage = .emit nextBlock blobs) :
    Onward nextBlock x y := by
  simp only [sendNext] at h
  split at h
  · cases h
    exact ⟨rfl, rfl, fun _ h => h, Nat.le_refl _⟩
  · split at h
    · cases h
      exact ⟨rfl, rfl, fun _ _ => trivial, Nat.le_refl _⟩
    · obtain ⟨outlet, -, rfl⟩ := Option.map_eq_some_iff.mp h
      split
      · exact ⟨rfl, rfl, fun _ _ => trivial, by simp⟩
      · refine ⟨rfl, ?_, ?_, by simp⟩
        · rw [here]
          rfl
        · rw [here]
          exact fun _ h => h

/-- `process_block` is in its loops, about this block. -/
def WorksOn (nextBlock : Block) (x : Pipeline Blob) : Prop :=
  ∃ blobs, x.stage = .insert nextBlock blobs ∨ x.stage = .emit nextBlock blobs

theorem WorksOn.active {nextBlock : Block} (h : x.WorksOn nextBlock) :
    x.stage.closed = false := by
  obtain ⟨blobs, here | here⟩ := h <;> rw [here] <;> rfl

theorem WorksOn.waiting {nextBlock : Block} (h : x.WorksOn nextBlock) :
    x.stage.waiting = [] := by
  obtain ⟨blobs, here | here⟩ := h <;> rw [here] <;> rfl

theorem WorksOn.at_hand {nextBlock : Block} (h : x.WorksOn nextBlock) (hat : x.stage.At turns) :
    EndWith nextBlock turns := by
  obtain ⟨blobs, here | here⟩ := h <;> rw [here] at hat <;> exact hat

theorem Follows.onward (h : Follows lib config turns x) {nextBlock : Block}
    (works : x.WorksOn nextBlock) (honward : Onward nextBlock x y)
    (hrest : ∀ staysFor, y.Allows staysFor → y.stage.rest lib (y.downloader.facing staysFor) =
      x.stage.rest lib (x.downloader.facing staysFor)) : Follows lib config turns y := by
  apply h.work works.active
  · rw [honward.inlet]
  · rw [honward.waiting, works.waiting]
  · exact fun hat => honward.at_hand turns (works.at_hand hat)
  · exact honward.sent
  · exact hrest

/-- A first read, and the one that ends the stream, change nothing about the turns so far. -/
theorem Follows.read_end (h : Follows lib config turns x) (active : x.stage.closed = false)
    (hwaiting : x.stage.waiting = []) (hdone : ∀ d, x.stage.rest lib d = .ok () d) :
    Follows lib config turns { x with stage := .panicked } :=
  h.work active rfl hwaiting.symm (fun _ => trivial) (Nat.le_refl _)
    (fun _ _ => (hdone _).symm)

/-- How the turns grow in a step after which the stream goes on: with the first
block read, and with each answer of the beacon node. -/
inductive Turned (x : Pipeline Blob) (turns : List Turn) :
    Event → Pipeline Blob → List Turn → Prop where
  | same {e : Event} {y : Pipeline Blob} : Turned x turns e y turns
  | first {y : Pipeline Blob} {block : Block} (none : turns = []) :
      Turned x turns .read y [.plain (.ok block)]
  | scanned {http : Downloader.Http} {y : Pipeline Blob} {thisBlock nextBlock : Block}
      (here : x.stage = .fetch thisBlock nextBlock) :
      Turned x turns (.answer http) y (turns ++ [⟨.ok nextBlock, http⟩])
  | ended {e : Event} {y : Pipeline Blob} {later : List Turn} (closed : y.stage.closed = true) :
      Turned x turns e y later

theorem first_read_follows (h : Follows lib config turns x) (here : x.stage = .first)
    (hst : x.read .next = some y) :
    ∃ later, Follows lib config later y ∧ Turned x turns .read y later := by
  have active : x.stage.closed = false := by rw [here]; rfl
  have hat := h.at_hand
  rw [here] at hat
  obtain rfl : turns = [] := hat
  have hnew : ∀ staysFor, y.Allows staysFor →
      x.downloader.tx.sent.length ≤ y.downloader.tx.sent.length →
      Downloader.new config staysFor = x.downloader.facing staysFor := by
    intro staysFor hallows hle
    have hout := h.outcome staysFor (hallows.back active hle)
    rw [here] at hout
    exact (EStateM.Result.ok.inj hout).2
  unfold read at hst
  split at hst
  · rename_i block inlet found
    cases hst
    refine ⟨[.plain (.ok block)], ⟨?_, ⟨[], _, rfl⟩, fun staysFor hallows => ?_⟩, .first rfl⟩
    · rw [(Outlet.next?_spec found).1, h.items, here]
      rfl
    · exact congrArg (EStateM.Result.ok ()) (hnew staysFor hallows (Nat.le_refl _))
  · rename_i err inlet found
    cases hst
    refine ⟨[.plain (.error err)], ⟨?_, trivial, fun staysFor hallows => ?_⟩, .ended rfl⟩
    · rw [(Outlet.next?_spec found).1, h.items, here]
      rfl
    · exact congrArg (EStateM.Result.error err) (hnew staysFor hallows (Nat.le_refl _))
  · split at hst
    · cases hst
      exact ⟨[], h.read_end active (by rw [here]; rfl) (fun d => by rw [here]; rfl), .same⟩
    · contradiction

theorem next_read_follows (h : Follows lib config turns x) {thisBlock : Block}
    (here : x.stage = .next thisBlock) (hst : x.read (.fetch thisBlock) = some y) :
    ∃ later, Follows lib config later y ∧ Turned x turns .read y later := by
  have active : x.stage.closed = false := by rw [here]; rfl
  have hwaiting : x.stage.waiting = [] := by rw [here]; rfl
  have hdone : ∀ d, x.stage.rest lib d = .ok () d := fun d => by rw [here]; rfl
  unfold read at hst
  split at hst
  · rename_i block inlet found
    cases hst
    have hat := h.at_hand
    rw [here] at hat
    refine ⟨turns, ⟨?_, hat, fun staysFor hallows => ?_⟩, .same⟩
    · rw [(Outlet.next?_spec found).1, h.items, hwaiting, List.append_nil]
      rfl
    · rw [h.outcome staysFor (hallows.back active (Nat.le_refl _)), hdone]
      rfl
  · rename_i err inlet found
    cases hst
    refine ⟨_, h.turn active (by rw [here]; exact id) hdone (.plain (.error err)) ?_ trivial
      (Nat.le_refl _) (fun _ => rfl), .ended rfl⟩
    rw [(Outlet.next?_spec found).1, h.items, hwaiting, List.map_append, List.append_nil,
      List.append_assoc]
    rfl
  · split at hst
    · cases hst
      exact ⟨turns, h.read_end active hwaiting hdone, .same⟩
    · contradiction

theorem scan_follows (h : Follows lib config turns x) {thisBlock nextBlock : Block}
    (here : x.stage = .fetch thisBlock nextBlock) (http : Downloader.Http) :
    Follows lib config (turns ++ [⟨.ok nextBlock, http⟩])
      (x.scan lib http thisBlock nextBlock) := by
  have honward := scan_onward lib x http thisBlock nextBlock
  refine h.turn (by rw [here]; rfl) (by rw [here]; exact id) (fun d => by rw [here]; rfl) _ ?_
    (honward.at_hand _ ⟨turns, http, rfl⟩) honward.sent (fun staysFor => ?_)
  · rw [honward.inlet, honward.waiting, h.items, here, List.map_append, List.append_nil]
    rfl
  · rw [scan_rest]
    simp only [Downloader.follow]
    cases (x.downloader.facing staysFor).processBlock lib http thisBlock nextBlock <;> rfl

theorem work_follows (h : Follows lib config turns x)
    (hst : Pipeline.step lib message x .work = some y) : Follows lib config turns y := by
  simp only [step] at hst
  split at hst
  · rename_i nextBlock here
    cases hst
    have honward : Onward nextBlock x { x with stage := .next nextBlock } :=
      ⟨rfl, rfl, fun _ hends => hends, Nat.le_refl _⟩
    apply h.onward ⟨[], Or.inl here⟩ honward
    intro staysFor _
    rw [here]
    rfl
  · rename_i nextBlock blob rest here
    cases hst
    apply h.onward ⟨_, Or.inl here⟩ (insertBlob_onward lib x nextBlock blob rest)
    intro staysFor _
    rw [insertBlob_rest, here]
    rfl
  · rename_i nextBlock blobs here
    apply h.onward ⟨_, Or.inr here⟩ (sendNext_onward hst here)
    exact fun staysFor hallows => sendNext_rest lib hst here hallows
  · contradiction

theorem stepQueue_still {e : Queue.Event} (h : x.stepQueue e = some y) :
    y.downloader = x.downloader ∧ y.stage = x.stage ∧ y.inlet.received = x.inlet.received := by
  unfold stepQueue at h
  split at h
  · split at h
    · contradiction
    · obtain ⟨inlet, fits, rfl⟩ := Option.map_eq_some_iff.mp h
      exact ⟨rfl, rfl, Outlet.received_send fits⟩
  · split at h
    · obtain ⟨queue, -, rfl⟩ := Option.map_eq_some_iff.mp h
      exact ⟨rfl, rfl, rfl⟩
    · contradiction
  · obtain ⟨queue, -, rfl⟩ := Option.map_eq_some_iff.mp h
    exact ⟨rfl, rfl, rfl⟩

theorem step_follows (h : Follows lib config turns x) {e : Event}
    (hst : Pipeline.step lib message x e = some y) :
    ∃ later, Follows lib config later y ∧ Turned x turns e y later := by
  cases e with
  | queue e =>
    obtain ⟨hd, hs, hr⟩ := stepQueue_still hst
    exact ⟨turns, h.still hd hs hr, .same⟩
  | relay =>
    simp only [step] at hst
    split at hst
    · rename_i outcome _ _
      cases hst
      exact ⟨turns, h.still rfl rfl (by cases outcome <;> rfl), .same⟩
    · obtain ⟨inlet, sent, rfl⟩ := Option.map_eq_some_iff.mp hst
      exact ⟨turns, h.still rfl rfl (Outlet.received_forward sent), .same⟩
  | read =>
    simp only [step] at hst
    split at hst
    · rename_i here
      exact first_read_follows h here hst
    · rename_i here
      exact next_read_follows h here hst
    · contradiction
  | answer http =>
    simp only [step] at hst
    split at hst
    · rename_i here
      cases hst
      exact ⟨_, scan_follows h here http, .scanned here⟩
    · contradiction
  | work => exact ⟨turns, work_follows h hst, .same⟩
  | forward =>
    simp only [step] at hst
    split at hst
    · cases hst
      exact ⟨turns, h.still rfl rfl rfl, .same⟩
    · obtain ⟨outlet, -, rfl⟩ := Option.map_eq_some_iff.mp hst
      exact ⟨turns, h.still rfl rfl rfl, .same⟩
  | take =>
    simp only [step] at hst
    split at hst
    · contradiction
    · obtain ⟨next, -, rfl⟩ := Option.map_eq_some_iff.mp hst
      exact ⟨turns, h.still rfl rfl rfl, .same⟩
  | drop =>
    cases hst
    exact ⟨turns, h.still rfl rfl rfl, .same⟩

/-- In every run the downloader is where `stream_inner` comes to on the turns so
far, whatever the order in which the tasks moved. -/
theorem run_follows (run : Run (step lib message) (fun _ _ => True) (start config) x) :
    ∃ turns, Follows lib config turns x := by
  apply run.invariant (motive := fun x => ∃ turns, Follows lib config turns x)
    ⟨[], start_follows lib config⟩
  intro x y e h _ hst
  obtain ⟨turns, h⟩ := h
  obtain ⟨later, hlater, -⟩ := step_follows h hst
  exact ⟨later, hlater⟩

/-- What was put on the outer channel is the beginning of what `streamed` says
of the turns so far. -/
theorem put_streamed (run : Run (step lib message) (fun _ _ => True) (start config) x) :
    ∃ staysFor turns, turns.map Turn.item <+: x.inlet.received ∧ x.outlet.put <+:
      Downloader.streamed ((Downloader.new config staysFor).streamInner lib turns) := by
  obtain ⟨turns, h⟩ := run_follows run
  have hallows : x.Allows (some x.downloader.tx.sent.length) := ⟨Nat.le_refl _, fun _ => rfl⟩
  refine ⟨some x.downloader.tx.sent.length, turns, ⟨_, h.items.symm⟩, ?_⟩
  rw [h.outcome _ hallows]
  rcases (run_sound run).outlet.shape with hput | ⟨err, -, hout, hput⟩ <;> rw [hput]
  · have hrest := List.IsPrefix.map (Except.ok (ε := Error)) (x.stage.rest_keeps_sent lib
      (x.downloader.facing (some x.downloader.tx.sent.length)))
    generalize x.stage.rest lib _ = outcome at hrest ⊢
    cases outcome with
    | ok _ d => exact hrest
    | error err d => exact hrest.trans (List.prefix_append _ _)
  · have hstage : x.stage = .returned (.error err) := by
      generalize x.stage = stage at hout
      cases stage <;> cases hout
      rfl
    rw [hstage]
    exact List.prefix_rfl

end Pipeline
end Watchtower.Downloader
