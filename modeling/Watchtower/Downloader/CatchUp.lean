import Watchtower.Downloader.Turns

namespace Watchtower.Downloader
open Lib

variable {Blob : Type} {lib : Libraries Blob} {message : Queue.Failure → Error} {config : Config}

/-- An L1 that is not reorganised any more: its blocks by height, and the blobs
there are of each of them under the hashes of the target contract. -/
structure L1 (Blob : Type) where
  block : Nat → Block
  posted : Nat → List (B256 × Blob)
  numbered : ∀ h, (block h).number = h

namespace L1

variable (l1 : L1 Blob)

/-- A provider that has a block gives the one of the height asked for. -/
def Gave (h : Nat) (out : Answer) : Prop :=
  ∀ block, out = .ok (some block) → block = l1.block h

theorem gave_faithful : Queue.Faithful l1.Gave := by
  intro h block hg
  rw [hg block rfl]
  exact l1.numbered h

/-- The blobs of so many L1 blocks from a height on. -/
def blobs (start count : Nat) : List Blob :=
  postedBlobs ((List.range' start count).map l1.posted)

theorem blobs_add (start first second : Nat) :
    l1.blobs start (first + second) = l1.blobs start first ++ l1.blobs (start + first) second := by
  simp only [blobs, postedBlobs, ← List.map_append, ← List.flatten_append]
  rw [← List.range'_append_1]

theorem blobs_subset (start : Nat) {first second : Nat} (h : first ≤ second) :
    l1.blobs start first ⊆ l1.blobs start second := by
  rw [← Nat.add_sub_cancel' h, l1.blobs_add]
  exact List.subset_append_left _ _

theorem blobs_succ (start count : Nat) :
    l1.blobs start (count + 1) =
      l1.blobs start count ++ (l1.posted (start + count)).map Prod.snd := by
  rw [l1.blobs_add]
  simp [blobs, postedBlobs]

end L1

variable {l1 : L1 Blob}

/-- The bundles behind the blobs of so many L1 blocks. Each blob was posted
once, and bundles with a Fuel block of one height have the same block there. -/
structure Posting (lib : Libraries Blob) (l1 : L1 Blob) (start count : Nat) where
  family : List (PostedBundle lib.toCodec)
  content : PostedBundle lib.toCodec → List VersionedCompressedBlock
  ids : (family.map PostedBundle.id).Nodup
  decoded : ∀ p ∈ family, Downloader.Decoded lib p.bundle.blocks (content p)
  agree : ∀ p ∈ family, ∀ q ∈ family, ∀ a ∈ content p, ∀ b ∈ content q,
    a.height = b.height → a = b
  once : (l1.blobs start count).Nodup
  covers : ∀ blob ∈ l1.blobs start count, ∃ p ∈ family, blob ∈ p.blobs

/-- A bundle with this Fuel block has been posted as a whole. -/
def Posting.Has {start count : Nat} (posting : Posting lib l1 start count)
    (block : VersionedCompressedBlock) : Prop :=
  ∃ p ∈ posting.family, (∀ blob ∈ p.blobs, blob ∈ l1.blobs start count) ∧
    block ∈ posting.content p

namespace Posting

variable {start count : Nat} {da : Nat → Nat}

/-- What was posted from a height on, out of all that ever was. -/
def since (posting : Posting lib l1 0 (start + count)) : Posting lib l1 start count where
  family := posting.family
  content := posting.content
  ids := posting.ids
  decoded := posting.decoded
  agree := posting.agree
  once := by
    have honce := posting.once
    rw [l1.blobs_add, Nat.zero_add] at honce
    exact (List.nodup_append.mp honce).2.1
  covers blob hm := by
    apply posting.covers
    rw [l1.blobs_add, Nat.zero_add]
    exact List.mem_append_right _ hm

/-- A Fuel block refers to an L1 height, not below that of the block before,
and no blob of its bundle was posted below. -/
structure Timely {n : Nat} (posting : Posting lib l1 0 n) (da : Nat → Nat) : Prop where
  monotone : Monotone da
  after : ∀ p ∈ posting.family, ∀ block ∈ posting.content p, ∀ blob ∈ p.blobs,
    blob ∉ l1.blobs 0 (da block.height)

variable {posting : Posting lib l1 0 (start + count)}

theorem Timely.has_since (h : posting.Timely da) {block : VersionedCompressedBlock}
    (hstart : start ≤ da block.height) : posting.since.Has block ↔ posting.Has block := by
  constructor <;> intro hhas <;> obtain ⟨p, hp, hall, hm⟩ := hhas <;>
    refine ⟨p, hp, fun blob hb => ?_, hm⟩
  · rw [l1.blobs_add, Nat.zero_add]
    exact List.mem_append_right _ (hall blob hb)
  · have hposted := hall blob hb
    rw [l1.blobs_add, Nat.zero_add] at hposted
    refine (List.mem_append.mp hposted).resolve_left (fun hbefore => ?_)
    exact h.after p hp block hm blob hb (l1.blobs_subset 0 hstart hbefore)

/-- A reader that begins at the L1 height of a Fuel block misses nothing of
those behind it. -/
theorem Timely.missing_since (h : posting.Timely da) {first : Nat} (hstart : start ≤ da first) :
    {h | first ≤ h ∧ ∀ block, posting.since.Has block → block.height ≠ h} =
      {h | first ≤ h ∧ ∀ block, posting.Has block → block.height ≠ h} := by
  ext n
  refine and_congr_right (fun hle => forall_congr' (fun block => ?_))
  constructor <;> intro hno hhas hheight
  · exact hno ((h.has_since (hstart.trans (h.monotone (hheight ▸ hle)))).mpr hhas) hheight
  · exact hno ((h.has_since (hstart.trans (h.monotone (hheight ▸ hle)))).mp hhas) hheight

end Posting

/-- With one block a height, the blocks sent are those pushed that the cursor
has passed. -/
theorem Ordered.mem_sent {start : Nat} {pushed : List VersionedCompressedBlock}
    {d : Downloader Blob} (h : Downloader.Ordered start pushed d)
    (agree : ∀ a ∈ pushed, ∀ b ∈ pushed, a.height = b.height → a = b)
    (block : VersionedCompressedBlock) :
    block ∈ d.tx.sent ↔
      (start ≤ block.height ∧ block.height < d.nextFuelBlock) ∧ block ∈ pushed := by
  have hstart : start ≤ d.nextFuelBlock := h.next.1.1
  have hrange : ∀ n, n ∈ d.tx.sent.map VersionedCompressedBlock.height ↔
      start ≤ n ∧ n < d.nextFuelBlock := by
    intro n
    rw [h.heights, List.mem_range'_1]
    omega
  constructor
  · intro hm
    exact ⟨(hrange _).mp (List.mem_map_of_mem hm), h.known block hm⟩
  · intro hb
    obtain ⟨hin, hpushed⟩ := hb
    obtain ⟨other, hm, hheight⟩ := List.mem_map.mp ((hrange _).mpr hin)
    rwa [← agree other (h.known other hm) block hpushed hheight]

theorem Visits.snoc {this : Block} {turns : List Downloader.Turn}
    {posted : List (List (B256 × Blob))} (h : Visits lib config this turns posted)
    {last next : Block} {http : Downloader.Http} {more : List (B256 × Blob)}
    (hlast : (turns.map Downloader.Turn.item).getLastD (.ok this) = .ok last)
    (offers : Offers lib config http last next more) :
    Visits lib config this (turns ++ [⟨.ok next, http⟩]) (posted ++ [more]) := by
  induction h with
  | nil this =>
    obtain rfl : this = last := by simpa using hlast
    exact .cons offers (.nil next)
  | @cons this mid http' rest posted later offers' tail ih =>
    refine .cons offers' (ih ?_)
    rwa [List.map_cons, List.getLastD_cons] at hlast

namespace Pipeline

variable {x y : Pipeline Blob} {turns : List Downloader.Turn}

/-- The turns are the blocks of the L1 from a height on, and the beacon node has
handed over what was posted in all of them but the last. -/
def Brought (lib : Libraries Blob) (config : Config) (l1 : L1 Blob)
    (turns : List Downloader.Turn) : Prop :=
  turns = [] ∨ ∃ http rest, turns = ⟨.ok (l1.block config.daStartBlock), http⟩ :: rest ∧
    Visits lib config (l1.block config.daStartBlock) rest
      ((List.range' config.daStartBlock rest.length).map l1.posted)

/-- The provider has the blocks of the chain, and the beacon node, if it answers
at all, has the blobs that were posted. Either may fail or have nothing yet. -/
def Serving (lib : Libraries Blob) (config : Config) (l1 : L1 Blob) (x : Pipeline Blob) :
    Event → Prop
  | .queue e => Queue.Admitted l1.Gave x.queue e
  | .answer http => ∀ thisBlock nextBlock, x.stage = .fetch thisBlock nextBlock →
      (∃ err, x.downloader.getSidecarsFromNextBlock http nextBlock = .error err) ∨
        Offers lib config http thisBlock nextBlock (l1.posted thisBlock.number)
  | .relay | .read | .work | .forward | .take | .drop => True

/-- The download queue has sent the blocks of the chain, one after the other. -/
structure Queued (l1 : L1 Blob) (daStartBlock : Nat) (queue : Queue.State) : Prop where
  sound : Queue.Sound l1.Gave queue
  inOrder : Queue.InOrder l1.Gave daStartBlock queue

theorem Queued.sent_eq {daStartBlock : Nat} {queue : Queue.State}
    (h : Queued l1 daStartBlock queue) :
    queue.sent = (List.range' daStartBlock queue.sent.length).map l1.block := by
  rw [← h.inOrder.numbers, List.map_map]
  conv_lhs => rw [← List.map_id queue.sent]
  exact List.map_congr_left (fun block hm => h.inOrder.given block hm block rfl)

theorem Queued.step {daStartBlock : Nat} (h : Queued l1 daStartBlock x.queue) {e : Event}
    (he : Serving lib config l1 x e) (hst : Stepped message x e y) :
    Queued l1 daStartBlock y.queue := by
  rcases hst.queue_cases with hsame | ⟨q, rfl, hq⟩
  · rwa [hsame]
  · have hcases := Queue.step_cases hq
    exact ⟨h.sound.step l1.gave_faithful he hcases, h.inOrder.step l1.gave_faithful h.sound hcases⟩

/-- What was read while the stream goes on are the blocks of the chain. -/
theorem received_eq (hs : Sound message x) {daStartBlock : Nat}
    (hq : Queued l1 daStartBlock x.queue) (active : x.stage.closed = false) :
    x.inlet.received =
      (List.range' daStartBlock x.inlet.received.length).map (fun h => .ok (l1.block h)) := by
  obtain ⟨earlier, hreceived⟩ := hs.reads active
  have hlead : earlier ++ x.stage.reads <+: x.queue.sent := by
    have hprefix := (List.take_prefix x.inlet.taken x.inlet.put).filterMap Except.toOption
    rw [hs.inlet.sent_eq] at hprefix
    change x.inlet.received.filterMap Except.toOption <+: _ at hprefix
    rw [hreceived] at hprefix
    simpa [List.filterMap_map, Function.comp_def, Except.toOption] using hprefix
  have hle := hlead.length_le
  rw [hq.sent_eq] at hlead
  rw [hreceived, List.length_map]
  conv_lhs => rw [List.prefix_iff_eq_take.mp hlead, ← List.map_take,
    List.take_range'_of_length_ge hle, List.map_map]
  rfl

/-- A step of a downloader that goes on is one of a downloader that went on. -/
theorem Stepped.active {e : Event} (h : Stepped message x e y) (active : y.stage.closed = false) :
    x.stage.closed = false := by
  cases h with
  | queue | block | queueReturned | relay | returned | forward | take | drop => exact active
  | read before | readError before | readEnd before | quiet before | send before => exact before

/-- The downloader is where the L1 blocks read so far, with their blobs, lead. -/
structure Tracks (lib : Libraries Blob) (message : Queue.Failure → Error) (config : Config)
    (l1 : L1 Blob) (x : Pipeline Blob) : Prop where
  sound : Sound message x
  queue : Queued l1 config.daStartBlock x.queue
  turns : ∃ turns, Follows lib config turns x ∧
    (x.stage.closed = false → Brought lib config l1 turns)

theorem start_tracks (lib : Libraries Blob) (message : Queue.Failure → Error) (config : Config)
    (l1 : L1 Blob) : Tracks lib message config l1 (start config) where
  sound := start_sound config
  queue := ⟨Queue.startFrom_sound _, Queue.startFrom_inOrder _⟩
  turns := ⟨[], start_follows lib config, fun _ => Or.inl rfl⟩

/-- The turns and the block that waits are the blocks of the chain. -/
theorem items_eq (hs : Sound message x) (hq : Queued l1 config.daStartBlock x.queue)
    (hf : Follows lib config turns x) (active : x.stage.closed = false) :
    turns.map Downloader.Turn.item ++ x.stage.waiting =
      (List.range' config.daStartBlock (turns.length + x.stage.waiting.length)).map
        (fun h => .ok (l1.block h)) := by
  have hall := received_eq hs hq active
  rw [hf.items] at hall
  rwa [List.length_append, List.length_map] at hall

/-- The block that the last turn brought. -/
theorem last_eq (hs : Sound message x) (hq : Queued l1 config.daStartBlock x.queue)
    (hf : Follows lib config turns x) (active : x.stage.closed = false)
    {before : List Downloader.Turn} {block : Block} {http : Downloader.Http}
    (hturns : turns = before ++ [⟨.ok block, http⟩]) :
    block = l1.block (config.daStartBlock + before.length) := by
  have hitem := congrArg (·[before.length]?) (items_eq hs hq hf active)
  subst hturns
  have hlt : before.length < before.length + 1 + x.stage.waiting.length := by omega
  simpa [List.getElem?_range' hlt, eq_comm] using hitem

/-- With the blobs of the block at hand there is one more turn. -/
theorem Brought.scanned (hs : Sound message x) (hq : Queued l1 config.daStartBlock x.queue)
    (hf : Follows lib config turns x) (h : Brought lib config l1 turns)
    {http : Downloader.Http} {thisBlock nextBlock : Block}
    (here : x.stage = .fetch thisBlock nextBlock)
    (offers : Offers lib config http thisBlock nextBlock (l1.posted thisBlock.number)) :
    Brought lib config l1 (turns ++ [⟨.ok nextBlock, http⟩]) := by
  have hat := hf.at_hand
  rw [here] at hat
  obtain ⟨before, last, hturns⟩ := hat
  have hthis := last_eq hs hq hf (by rw [here]; rfl) hturns
  rcases h with hnone | ⟨first, rest, hsplit, hdel⟩
  · rw [hnone] at hturns
    exact absurd hturns (by simp)
  · have hcount : before.length = rest.length := by
      have := congrArg List.length (hsplit.symm.trans hturns)
      simpa using this.symm
    have hlast : (rest.map Downloader.Turn.item).getLastD
        (.ok (l1.block config.daStartBlock)) = .ok thisBlock := by
      have hend : (turns.map Downloader.Turn.item).getLastD (.error "") = .ok thisBlock := by
        simp [hturns]
      rwa [hsplit, List.map_cons, List.getLastD_cons] at hend
    refine Or.inr ⟨first, rest ++ [⟨.ok nextBlock, http⟩], by rw [hsplit]; rfl, ?_⟩
    have hmore := hdel.snoc hlast offers
    rw [hthis, l1.numbered, hcount] at hmore
    rwa [List.length_append, List.length_singleton, List.range'_concat, List.map_append,
      Nat.one_mul]

theorem Tracks.step (h : Tracks lib message config l1 x) {e : Event}
    (he : Serving lib config l1 x e) (hst : Pipeline.step lib message x e = some y) :
    Tracks lib message config l1 y := by
  have hcases : Stepped message x e y := step_cases hst
  refine ⟨h.sound.step hcases, h.queue.step he hcases, ?_⟩
  obtain ⟨turns, hf, hbrought⟩ := h.turns
  obtain ⟨later, hlater, hturned⟩ := step_follows hf hst
  refine ⟨later, hlater, fun active => ?_⟩
  have before := hcases.active active
  cases hturned with
  | same => exact hbrought before
  | ended closed =>
    rw [active] at closed
    contradiction
  | @first _ block none =>
    have hlast := last_eq (h.sound.step hcases) (h.queue.step he hcases) hlater active
      (List.nil_append _).symm
    exact Or.inr ⟨_, [], by rw [hlast]; rfl, .nil _⟩
  | @scanned http _ thisBlock nextBlock here =>
    rcases he thisBlock nextBlock here with hfailed | offers
    · obtain ⟨err, herr⟩ := hfailed
      simp only [Pipeline.step, here, Option.some.injEq] at hst
      rw [← hst, scan, herr] at active
      contradiction
    · exact (hbrought before).scanned h.sound h.queue hf here offers

theorem run_tracks
    (run : Run (Pipeline.step lib message) (Serving lib config l1) (start config) x) :
    Tracks lib message config l1 x := by
  apply run.invariant (motive := Tracks lib message config l1)
    (start_tracks lib message config l1)
  intro t u e h he hst
  exact h.step he hst

/-- Between two turns, with this block at hand. -/
def Between (x : Pipeline Blob) (block : Block) : Prop :=
  x.stage = .next block ∨ ∃ nextBlock, x.stage = .fetch block nextBlock

/-- Between two turns the blobs of all the L1 blocks behind the block at hand
have been gone through, in order, and nothing has failed. -/
theorem Tracks.followed (h : Tracks lib message config l1 x) {block : Block}
    (here : x.Between block) :
    ∃ rest : List Downloader.Turn, block = l1.block (config.daStartBlock + rest.length) ∧
      Visits lib config (l1.block config.daStartBlock) rest
        ((List.range' config.daStartBlock rest.length).map l1.posted) ∧
      (Downloader.new config none).follow lib (l1.block config.daStartBlock) rest =
        .ok () (x.downloader.facing none) := by
  have active : x.stage.closed = false := by rcases here with here | ⟨_, here⟩ <;> rw [here] <;> rfl
  obtain ⟨turns, hf, hbrought⟩ := h.turns
  have hat : ∃ before http, turns = before ++ [⟨.ok block, http⟩] := by
    have hat := hf.at_hand
    rcases here with here | ⟨_, here⟩ <;> rwa [here] at hat
  obtain ⟨before, last, hturns⟩ := hat
  rcases hbrought active with hnone | ⟨first, rest, hsplit, hdel⟩
  · rw [hnone] at hturns
    exact absurd hturns (by simp)
  · have hcount : before.length = rest.length := by
      have := congrArg List.length (hsplit.symm.trans hturns)
      simpa using this.symm
    have hblock := last_eq h.sound h.queue hf active hturns
    rw [hcount] at hblock
    have hallows : x.Allows none := by
      intro hclosed
      rw [hclosed] at active
      cases active
    have hrun := hf.outcome none hallows
    rw [hsplit] at hrun
    refine ⟨rest, hblock, hdel, ?_⟩
    rcases here with here | ⟨_, here⟩ <;> rw [here] at hrun <;> exact hrun

variable [DecidableEq Blob]

/-- Before the next L1 block is read, the blobs of all the blocks behind the
block at hand have been consumed. -/
theorem Tracks.consumed (h : Tracks lib message config l1 x) {block : Block}
    (here : x.stage = .next block) :
    ∃ count, block = l1.block (config.daStartBlock + count) ∧
      ∀ posting : Posting lib l1 config.daStartBlock count,
        Consumed config posting.family posting.content (l1.blobs config.daStartBlock count)
          (x.downloader.facing none) := by
  obtain ⟨rest, hblock, hdel, hrun⟩ := h.followed (Or.inl here)
  refine ⟨rest.length, hblock, fun posting => ?_⟩
  have := visits_consumed posting.ids posting.decoded hdel
    (new_consumed config none) (by rw [List.nil_append]; exact posting.once) posting.covers hrun
  rwa [List.nil_append] at this

/-- The Fuel blocks put on the stream are those of all heights below `m`, the
first one that no bundle posted as a whole has. -/
structure PutUpTo {start count : Nat} (posting : Posting lib l1 start count) (first m : Nat)
    (x : Pipeline Blob) : Prop where
  least : IsLeast {h | first ≤ h ∧ ∀ block, posting.Has block → block.height ≠ h} m
  put : ∃ blocks : List VersionedCompressedBlock, x.outlet.put = blocks.map .ok ∧
    blocks.map VersionedCompressedBlock.height = List.range' first (m - first) ∧
    ∀ block, block ∈ blocks ↔ (first ≤ block.height ∧ block.height < m) ∧ posting.Has block

theorem Tracks.putUpTo (h : Tracks lib message config l1 x) {block : Block}
    (here : x.stage = .next block) :
    ∃ count, block = l1.block (config.daStartBlock + count) ∧
      ∀ posting : Posting lib l1 config.daStartBlock count,
        PutUpTo posting config.nextFuelBlock x.downloader.nextFuelBlock x := by
  obtain ⟨count, hblock, hconsumed⟩ := h.consumed here
  refine ⟨count, hblock, fun posting => ?_⟩
  obtain ⟨pushed, hord, hpushed⟩ := (hconsumed posting).ordered
  have hhas : ∀ block, block ∈ pushed ↔ posting.Has block := by
    simp only [PostedBundle.allIn_iff] at hpushed
    exact hpushed
  have hagree : ∀ a ∈ pushed, ∀ b ∈ pushed, a.height = b.height → a = b := by
    intro a ha b hb
    obtain ⟨p, hp, -, hap⟩ := (hhas a).mp ha
    obtain ⟨q, hq, -, hbq⟩ := (hhas b).mp hb
    exact posting.agree p hp q hq a hap b hbq
  have houtlet := h.sound.outlet
  rw [here] at houtlet
  refine ⟨?_, x.downloader.tx.sent, houtlet.running.2, hord.heights, fun block => ?_⟩
  · have hnext := hord.next
    simp only [hhas] at hnext
    exact hnext
  · rw [← hhas]
    exact hord.mem_sent hagree block

/-- Whatever the provider and the beacon node held back for a while, and
whatever the order in which the tasks moved: once the downloader waits for the L1
block after the one at hand, the Fuel blocks it has put on its stream are those of
all heights up to the first one that is in no bundle posted as a whole below that
block. -/
theorem catches_up (lib : Libraries Blob) (message : Queue.Failure → Error) (config : Config)
    (l1 : L1 Blob) {x : Pipeline Blob}
    (run : Run (Pipeline.step lib message) (Serving lib config l1) (start config) x)
    {block : Block} (here : x.stage = .next block) :
    ∃ count, block = l1.block (config.daStartBlock + count) ∧
      ∀ posting : Posting lib l1 config.daStartBlock count,
        ∃ m, PutUpTo posting config.nextFuelBlock m x := by
  obtain ⟨count, hblock, hput⟩ := (run_tracks run).putUpTo here
  exact ⟨count, hblock, fun posting => ⟨_, hput posting⟩⟩

/-- One blob in the first block and nothing in the others. -/
def shortL1 : L1 (HeaderV1 × UInt8) where
  block h := plainBlock h (if h = 0 then [[1, 0]] else [])
  posted h := if h = 0 then [([1, 0], (⟨0, 0, true⟩, 1))] else []
  numbered _ := rfl

def shortPosting : Posting plainLibraries shortL1 0 1 where
  family := [plainBundle 0 [1] (by decide)]
  content := plainContent
  ids := by decide
  decoded p hp := by
    obtain rfl := List.mem_singleton.mp hp
    exact .cons rfl .nil
  agree := by decide
  once := by decide
  covers := by decide

/-- The tasks behind the stream move, with the blocks of the L1 as the answers and
these sidecars for one of them. -/
def scripted (l1 : L1 (HeaderV1 × UInt8)) (height : Nat) (data : List BlobData)
    (x : Pipeline (HeaderV1 × UInt8)) : Event → Prop
  | .queue (.answer i response) =>
    ∀ task ∈ x.queue.pending[i]?, response = .ok (some (l1.block task.height))
  | .answer http => x.stage = .fetch (l1.block height) (l1.block (height + 1)) ∧
      http (Downloader.sidecarsUrl "" []) = .ok ⟨data⟩
  | .queue (.join _) | .queue .advance | .queue .hangUp | .relay | .read | .work | .forward => True
  | .take | .drop => False

instance (l1 : L1 (HeaderV1 × UInt8)) (height : Nat) (data : List BlobData)
    (x : Pipeline (HeaderV1 × UInt8)) : DecidablePred (scripted l1 height data x)
  | .queue (.answer i response) => inferInstanceAs (Decidable
      (∀ task ∈ x.queue.pending[i]?, response = .ok (some (l1.block task.height))))
  | .answer _ => inferInstanceAs (Decidable (_ ∧ _))
  | .queue (.join _) | .queue .advance | .queue .hangUp | .relay | .read | .work | .forward =>
    isTrue trivial
  | .take | .drop => isFalse id

theorem scripted_serves (l1 : L1 (HeaderV1 × UInt8)) (height start first : Nat)
    (data : List BlobData) (hown : ∀ p ∈ l1.posted height, (l1.block height).Posts [] p.1)
    (hroot : (l1.block (height + 1)).header.parentBeaconBlockRoot = some [])
    (hdata : List.Forall₂ (SidecarOf plainLibraries) data (l1.posted height))
    (x : Pipeline (HeaderV1 × UInt8)) (e : Event) (h : scripted l1 height data x e) :
    Serving plainLibraries ⟨"", "", [], start, first⟩ l1 x e := by
  cases e with
  | queue e =>
    cases e with
    | answer i response =>
      intro task ht block hblock
      rw [h task ht] at hblock
      exact (Option.some.inj (Except.ok.inj hblock)).symm
    | join | advance | hangUp => trivial
  | answer http =>
    intro thisBlock nextBlock here
    obtain ⟨rfl, rfl⟩ := Stage.fetch.inj (h.1.symm.trans here)
    rw [show (l1.block height).number = height from l1.numbered height]
    exact Or.inr ⟨hown, [], _, data, [], hroot, h.2, by rw [List.append_nil], hdata, by simp⟩
  | relay | read | work | forward | take | drop => trivial

abbrev shortServing : Pipeline (HeaderV1 × UInt8) → Event → Prop :=
  scripted shortL1 0 [⟨"0011", "0x70"⟩]

theorem shortServing_serves (x : Pipeline (HeaderV1 × UInt8)) (e : Event)
    (h : shortServing x e) : Serving plainLibraries ⟨"", "", [], 0, 1⟩ shortL1 x e :=
  scripted_serves shortL1 0 0 1 [⟨"0011", "0x70"⟩] (by decide) rfl
    (.cons ⟨⟨_, rfl, rfl⟩, ⟨_, rfl, rfl⟩⟩ .nil) x e h

theorem catches_up_one_block :
    ∃ (x : Pipeline (HeaderV1 × UInt8)) (m : Nat),
      Run (step plainLibraries (fun _ => "refused"))
        (Serving plainLibraries ⟨"", "", [], 0, 1⟩ shortL1) (start ⟨"", "", [], 0, 1⟩) x ∧
      x.stage = .next (shortL1.block 1) ∧ x.outlet.put = [.ok ⟨1, 0, [], []⟩] ∧
      PutUpTo shortPosting 1 m x := by
  obtain ⟨x, run, here, hput⟩ : ∃ x, Run (step plainLibraries (fun _ => "refused")) shortServing
      (start ⟨"", "", [], 0, 1⟩) x ∧ x.stage = .next (shortL1.block 1) ∧
      x.outlet.put = [.ok ⟨1, 0, [], []⟩] :=
    Run.exists_of_drive (oneBlock.take 25) (by decide)
  have served := run.mono shortServing_serves
  obtain ⟨count, hblock, hall⟩ := catches_up plainLibraries (fun _ => "refused")
    ⟨"", "", [], 0, 1⟩ shortL1 served here
  have hcount : 1 = 0 + count := congrArg Block.number hblock
  obtain rfl : count = 1 := by omega
  obtain ⟨m, hm⟩ := hall shortPosting
  exact ⟨x, m, served, here, hput, hm⟩

end Pipeline
end Watchtower.Downloader
