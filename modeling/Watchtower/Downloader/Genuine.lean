import Watchtower.Downloader.Filing
import Watchtower.Downloader.Turns

namespace Watchtower.Downloader
open Lib

variable {Blob : Type} {lib : Libraries Blob} {posted : Blob → Prop}
  {feed : Nat → VersionedCompressedBlock}

open IncompleteBundleBuffers

/-- Every Fuel block in the bundle is the one of its height. -/
def OfFeed (lib : Libraries Blob) (feed : Nat → VersionedCompressedBlock) (bundle : Bundle) :
    Prop :=
  ∀ bytes ∈ bundle.blocks, ∀ block, lib.fromBytes bytes = .ok block → block = feed block.height

/-- The poster is honest: blobs it has posted that make up one bundle decode, if
at all, to Fuel blocks as they are. -/
def Honest (lib : Libraries Blob) (posted : Blob → Prop)
    (feed : Nat → VersionedCompressedBlock) : Prop :=
  ∀ id entries, Complete entries →
    (∀ e ∈ entries, lib.readHeader e.2 = .ok e.1 ∧ e.1.bundleId = id ∧ posted e.2) →
    ∀ bytes bundle, lib.decode (entries.map Prod.snd) = .ok bytes →
      lib.decodeBundle bytes = .ok bundle → OfFeed lib feed bundle

theorem plainLibraries_honest :
    Honest plainLibraries (fun _ => True) (fun h => ⟨h, 0, [], []⟩) := by
  intro id entries _ _ bytes bundle _ _ raw _ block hblock
  simp only [plainLibraries] at hblock
  split at hblock
  · exact Except.ok.inj hblock ▸ rfl
  · contradiction

/-- The incomplete bundles are in order, and of posted blobs. -/
structure Held (codec : Codec Blob) (posted : Blob → Prop)
    (buffers : IncompleteBundleBuffers Blob) : Prop where
  stored : ∀ id blobs, buffers.bundleBufferById.get? id = some blobs → Stored codec id blobs
  posted : ∀ id, ∀ e ∈ buffers.blobsOf id, posted e.2

theorem empty_held (codec : Codec Blob) (posted : Blob → Prop) :
    Held codec posted IncompleteBundleBuffers.empty where
  stored id blobs h := by cases h
  posted id e he := by cases he

variable {codec : Codec Blob} {buffers after : IncompleteBundleBuffers Blob} {blob : Blob}

/-- The buffers with nothing else filed than what they hold. -/
theorem Held.tracked (h : Held codec posted buffers) :
    Filing.Tracked codec ⟨buffers, fun id => (buffers.blobsOf id).map Prod.snd⟩ :=
  ⟨h.stored, fun _ => List.Perm.refl _⟩

theorem mem_blobsOf {id : Nat} {e : BlobHeader × Blob} (he : e ∈ buffers.blobsOf id) :
    ∃ blobs, buffers.bundleBufferById.get? id = some blobs ∧ e ∈ blobs := by
  unfold blobsOf at he
  cases hget : buffers.bundleBufferById.get? id with
  | none => simp [hget] at he
  | some blobs =>
    rw [hget] at he
    exact ⟨blobs, rfl, he⟩

/-- An entry is replaced by one of posted blobs. -/
theorem Held.insert_entry (h : Held codec posted buffers) {id : Nat}
    {blobs : List (BlobHeader × Blob)} (hstored : Stored codec id blobs)
    (hposted : ∀ e ∈ blobs, posted e.2) :
    Held codec posted ⟨buffers.bundleBufferById.insert id blobs⟩ := by
  have hentry : ∀ other found,
      (buffers.bundleBufferById.insert id blobs).get? other = some found →
      Stored codec other found ∧ ∀ e ∈ found, posted e.2 := by
    intro other found hget
    by_cases he : other = id
    · subst he
      rw [SortedMap.get?_insert_self] at hget
      exact Option.some.inj hget ▸ ⟨hstored, hposted⟩
    · rw [SortedMap.get?_insert_of_ne _ _ he] at hget
      refine ⟨h.stored other found hget, fun e hm => h.posted other e ?_⟩
      rw [blobsOf, hget]
      exact hm
  refine ⟨fun other found hget => (hentry other found hget).1, fun other e he => ?_⟩
  obtain ⟨found, hget, hm⟩ := mem_blobsOf he
  exact (hentry other found hget).2 e hm

theorem Held.erase_entry (h : Held codec posted buffers) (id : Nat) :
    Held codec posted ⟨buffers.bundleBufferById.erase id⟩ := by
  have hentry : ∀ other found, (buffers.bundleBufferById.erase id).get? other = some found →
      buffers.bundleBufferById.get? other = some found := by
    intro other found hget
    by_cases he : other = id
    · subst he
      rw [SortedMap.get?_erase_self] at hget
      contradiction
    · rwa [SortedMap.get?_erase_of_ne _ he] at hget
  refine ⟨fun other found hget => h.stored other found (hentry other found hget),
    fun other e he => ?_⟩
  obtain ⟨found, hget, hm⟩ := mem_blobsOf he
  apply h.posted other e
  rw [blobsOf, hentry other found hget]
  exact hm

theorem handOut_complete {blobs : List Blob} {bundle : Bundle}
    (h : handOut codec blobs buffers = .ok (.complete bundle) after) :
    ∃ bytes, codec.decode blobs = .ok bytes ∧ codec.decodeBundle bytes = .ok bundle := by
  unfold handOut at h
  split at h
  · contradiction
  · rename_i bytes hbytes
    split at h
    · contradiction
    · rename_i found hfound
      obtain ⟨hsame, -⟩ := EStateM.Result.ok.inj h
      obtain rfl := Inserted.complete.inj hsame
      exact ⟨bytes, hbytes, hfound⟩

/-- A posted blob keeps the buffers as they should be, and a bundle that it
completes was posted. -/
theorem Held.insert (honest : Honest lib posted feed) (h : Held lib.toCodec posted buffers)
    (hblob : posted blob) :
    Held lib.toCodec posted (finalState (insert lib.toCodec buffers blob)) ∧
      ∀ bundle after, insert lib.toCodec buffers blob = .ok (.complete bundle) after →
        OfFeed lib feed bundle := by
  cases h.tracked.effect blob with
  | unreadable err read result | duplicate header read there result =>
    rw [result]
    exact ⟨h, fun _ _ he => by cases he⟩
  | incomplete header front back after placed waits result own others =>
    have hinsert := insert_incomplete placed waits
    rw [hinsert]
    refine ⟨h.insert_entry (h.tracked.stored_placed placed waits) (fun e he => ?_),
      fun _ _ he => by cases he⟩
    rcases List.mem_cons.mp (List.perm_middle.mem_iff.mp he) with rfl | he
    · exact hblob
    · exact h.posted header.bundleId e (placed.split ▸ he)
  | complete header front back blobs after placed all given numbered result own others =>
    rw [insert_complete placed all]
    refine ⟨?_, fun bundle later hout => ?_⟩
    · rw [Filing.finalState_handOut]
      exact h.erase_entry header.bundleId
    · obtain ⟨bytes, hbytes, hbundle⟩ := handOut_complete hout
      refine honest header.bundleId _ all (fun e he => ?_) bytes bundle hbytes hbundle
      obtain ⟨hid, hread⟩ := h.tracked.headers placed he
      refine ⟨hread, hid, ?_⟩
      rcases List.mem_cons.mp (List.perm_middle.mem_iff.mp he) with rfl | he
      · exact hblob
      · exact h.posted header.bundleId e (placed.split ▸ he)

/-- Every Fuel block that is buffered or sent is the one of its height. -/
structure Genuine (lib : Libraries Blob) (posted : Blob → Prop)
    (feed : Nat → VersionedCompressedBlock) (d : Downloader Blob) : Prop where
  held : Held lib.toCodec posted d.bundleBuffers
  buffered : ∀ k block, d.blockBuffer.blocks.get? k = some block → block = feed block.height
  sent : ∀ block ∈ d.tx.sent, block = feed block.height

variable {d : Downloader Blob}

theorem new_genuine (lib : Libraries Blob) (posted : Blob → Prop)
    (feed : Nat → VersionedCompressedBlock) (config : Config) (staysFor : Option Nat) :
    Genuine lib posted feed (Downloader.new config staysFor) where
  held := empty_held lib.toCodec posted
  buffered k block h := by cases h
  sent block hm := absurd hm List.not_mem_nil

theorem Genuine.push (h : Genuine lib posted feed d) {block : VersionedCompressedBlock}
    (hblock : block = feed block.height) :
    Genuine lib posted feed { d with blockBuffer := d.blockBuffer.push block } := by
  refine ⟨h.held, fun k found hget => ?_, h.sent⟩
  simp only [BlockBuffer.push, SortedMap.get?_insert] at hget
  split at hget
  · exact Option.some.inj hget ▸ hblock
  · exact h.buffered k found hget

theorem Genuine.pushBlocks (h : Genuine lib posted feed d) {encoded : List Bytes}
    (hencoded : ∀ bytes ∈ encoded, ∀ block, lib.fromBytes bytes = .ok block →
      block = feed block.height) :
    Genuine lib posted feed (finalState (d.pushBlocks lib encoded)) := by
  induction encoded generalizing d with
  | nil => exact h
  | cons bytes rest ih =>
    simp only [Downloader.pushBlocks]
    cases hbytes : lib.fromBytes bytes with
    | error err => exact h
    | ok block =>
      exact ih (h.push (hencoded bytes List.mem_cons_self block hbytes))
        (fun other hm => hencoded other (List.mem_cons_of_mem _ hm))

theorem Genuine.pruneBelow (h : Genuine lib posted feed d) (height : Nat) :
    Genuine lib posted feed { d with blockBuffer := d.blockBuffer.pruneBelow height } := by
  refine ⟨h.held, fun k block hget => ?_, h.sent⟩
  simp only [BlockBuffer.pruneBelow, SortedMap.get?_splitOff] at hget
  split at hget
  · exact h.buffered k block hget
  · cases hget

theorem Genuine.popHeight (h : Genuine lib posted feed d) {height : Nat}
    {block : VersionedCompressedBlock} {rest : BlockBuffer}
    (hpop : d.blockBuffer.popHeight height = some (block, rest)) :
    Genuine lib posted feed { d with blockBuffer := rest } ∧ block = feed block.height := by
  obtain ⟨hget, -, rfl, -⟩ := BlockBuffer.popHeight_eq_some hpop
  refine ⟨⟨h.held, fun k found hfound => ?_, h.sent⟩, h.buffered height block hget⟩
  rw [SortedMap.get?_erase] at hfound
  split at hfound
  · cases hfound
  · exact h.buffered k found hfound

/-- The blobs of the turn that are still to be filed. -/
def Stage.blobs : Stage Blob → List Blob
  | .insert _ blobs | .emit _ blobs => blobs
  | .first | .next _ | .fetch _ _ | .returned _ | .panicked => []

namespace Pipeline

variable {x y : Pipeline Blob} {message : Queue.Failure → Error}

/-- However the beacon node answers, a blob that passes for one that was asked
for is one that was posted. -/
def FromPosted (lib : Libraries Blob) (posted : Blob → Prop) (x : Pipeline Blob) : Event → Prop
  | .answer http => ∀ thisBlock nextBlock sidecars blobs, x.stage = .fetch thisBlock nextBlock →
      x.downloader.getSidecarsFromNextBlock http nextBlock = .ok (some sidecars) →
      getBlobsFromBeaconResponse lib (getBlockTxBlobs thisBlock x.downloader.targetContract)
        sidecars.data = .ok blobs →
      ∀ blob ∈ blobs, posted blob
  | .queue _ | .relay | .read | .work | .forward | .take | .drop => True

/-- Nothing but blocks and blobs that are as they should be is in the pipeline. -/
structure Untainted (lib : Libraries Blob) (posted : Blob → Prop)
    (feed : Nat → VersionedCompressedBlock) (x : Pipeline Blob) : Prop where
  downloader : Genuine lib posted feed x.downloader
  blobs : ∀ blob ∈ x.stage.blobs, posted blob

theorem start_untainted (lib : Libraries Blob) (posted : Blob → Prop)
    (feed : Nat → VersionedCompressedBlock) (config : Config) :
    Untainted lib posted feed (start config) :=
  ⟨new_genuine lib posted feed config none, fun _ hm => absurd hm List.not_mem_nil⟩

/-- A step of another task. -/
theorem Untainted.still (h : Untainted lib posted feed x) (hd : y.downloader = x.downloader)
    (hs : y.stage = x.stage) : Untainted lib posted feed y :=
  ⟨hd ▸ h.downloader, hs ▸ h.blobs⟩

theorem Untainted.read (h : Untainted lib posted feed x) {go : Block → Stage Blob}
    (hgo : ∀ block, (go block).blobs = []) (hst : x.read go = some y) :
    Untainted lib posted feed y := by
  unfold Pipeline.read at hst
  split at hst
  · rename_i block inlet found
    cases hst
    exact ⟨h.downloader, fun blob hm => absurd hm (hgo block ▸ List.not_mem_nil)⟩
  · cases hst
    exact ⟨h.downloader, fun _ hm => absurd hm List.not_mem_nil⟩
  · split at hst
    · cases hst
      exact ⟨h.downloader, fun _ hm => absurd hm List.not_mem_nil⟩
    · contradiction

theorem Untainted.scan (h : Untainted lib posted feed x) {http : Downloader.Http}
    {thisBlock nextBlock : Block} (here : x.stage = .fetch thisBlock nextBlock)
    (hposted : FromPosted lib posted x (.answer http)) :
    Untainted lib posted feed (x.scan lib http thisBlock nextBlock) := by
  unfold Pipeline.scan
  split
  · exact ⟨h.downloader, fun _ hm => absurd hm List.not_mem_nil⟩
  · exact ⟨h.downloader, fun _ hm => absurd hm List.not_mem_nil⟩
  · rename_i sidecars hsidecars
    split
    · exact ⟨h.downloader, fun _ hm => absurd hm List.not_mem_nil⟩
    · rename_i blobs hblobs
      exact ⟨h.downloader, hposted thisBlock nextBlock sidecars blobs here hsidecars hblobs⟩

theorem Untainted.insertBlob (honest : Honest lib posted feed) (h : Untainted lib posted feed x)
    {nextBlock : Block} {blob : Blob} {rest : List Blob}
    (here : x.stage = .insert nextBlock (blob :: rest)) :
    Untainted lib posted feed (x.insertBlob lib nextBlock blob rest) := by
  have hblobs : ∀ b ∈ blob :: rest, posted b := by
    have := h.blobs
    rwa [here] at this
  have hrest : ∀ b ∈ rest, posted b := fun b hm => hblobs b (List.mem_cons_of_mem _ hm)
  obtain ⟨hheld, hbundle⟩ := h.downloader.held.insert honest (hblobs blob List.mem_cons_self)
  unfold Pipeline.insertBlob
  split <;> rename_i hins <;> rw [hins] at hheld
  · exact ⟨⟨hheld, h.downloader.buffered, h.downloader.sent⟩,
      fun _ hm => absurd hm List.not_mem_nil⟩
  · exact ⟨⟨hheld, h.downloader.buffered, h.downloader.sent⟩, hrest⟩
  · rename_i bundle bundleBuffers
    have hpushed := Genuine.pushBlocks (d := { x.downloader with bundleBuffers })
      ⟨hheld, h.downloader.buffered, h.downloader.sent⟩ (hbundle bundle bundleBuffers hins)
    split <;> rename_i hpush <;> rw [hpush] at hpushed
    · exact ⟨hpushed, fun _ hm => absurd hm List.not_mem_nil⟩
    · exact ⟨hpushed.pruneBelow _, hrest⟩

theorem Untainted.sendNext (h : Untainted lib posted feed x) {nextBlock : Block}
    {blobs : List Blob} (here : x.stage = .emit nextBlock blobs)
    (hst : x.sendNext nextBlock blobs = some y) : Untainted lib posted feed y := by
  have hblobs : ∀ b ∈ blobs, posted b := by
    have := h.blobs
    rwa [here] at this
  simp only [Pipeline.sendNext] at hst
  split at hst
  · cases hst
    exact ⟨h.downloader, hblobs⟩
  · rename_i block blockBuffer hpop
    obtain ⟨hpopped, hblock⟩ := h.downloader.popHeight hpop
    split at hst
    · cases hst
      exact ⟨hpopped, fun _ hm => absurd hm List.not_mem_nil⟩
    · obtain ⟨outlet, -, rfl⟩ := Option.map_eq_some_iff.mp hst
      have hsent : ∀ b ∈ x.downloader.tx.sent ++ [block], b = feed b.height := by
        intro b hm
        rcases List.mem_append.mp hm with hm | hm
        · exact hpopped.sent b hm
        · exact List.mem_singleton.mp hm ▸ hblock
      split
      · exact ⟨⟨hpopped.held, hpopped.buffered, hsent⟩, fun _ hm => absurd hm List.not_mem_nil⟩
      · exact ⟨⟨hpopped.held, hpopped.buffered, hsent⟩, h.blobs⟩

theorem Untainted.step (honest : Honest lib posted feed) (h : Untainted lib posted feed x)
    {e : Event} (he : FromPosted lib posted x e) (hst : Pipeline.step lib message x e = some y) :
    Untainted lib posted feed y := by
  cases e with
  | queue e =>
    obtain ⟨hd, hs, -⟩ := stepQueue_still hst
    exact h.still hd hs
  | relay =>
    simp only [Pipeline.step] at hst
    split at hst
    · cases hst
      exact h.still rfl rfl
    · obtain ⟨inlet, -, rfl⟩ := Option.map_eq_some_iff.mp hst
      exact h.still rfl rfl
  | read =>
    simp only [Pipeline.step] at hst
    split at hst
    · exact h.read (fun _ => rfl) hst
    · exact h.read (fun _ => rfl) hst
    · contradiction
  | answer http =>
    simp only [Pipeline.step] at hst
    split at hst
    · rename_i thisBlock nextBlock here
      exact Option.some.inj hst ▸ h.scan here he
    · contradiction
  | work =>
    simp only [Pipeline.step] at hst
    split at hst
    · cases hst
      exact ⟨h.downloader, fun _ hm => absurd hm List.not_mem_nil⟩
    · rename_i nextBlock blob rest here
      exact Option.some.inj hst ▸ h.insertBlob honest here
    · rename_i nextBlock blobs here
      exact h.sendNext here hst
    · contradiction
  | forward =>
    simp only [Pipeline.step] at hst
    split at hst
    · cases hst
      exact h.still rfl rfl
    · obtain ⟨outlet, -, rfl⟩ := Option.map_eq_some_iff.mp hst
      exact h.still rfl rfl
  | take =>
    simp only [Pipeline.step] at hst
    split at hst
    · contradiction
    · obtain ⟨next, -, rfl⟩ := Option.map_eq_some_iff.mp hst
      exact h.still rfl rfl
  | drop =>
    cases hst
    exact h.still rfl rfl

/-- The runs in which the beacon node passes off no other blobs. -/
abbrev PostedRun (lib : Libraries Blob) (message : Queue.Failure → Error) (posted : Blob → Prop)
    (x y : Pipeline Blob) : Prop :=
  Run (Pipeline.step lib message) (FromPosted lib posted) x y

theorem run_untainted (honest : Honest lib posted feed) {config : Config}
    (run : PostedRun lib message posted (start config) x) : Untainted lib posted feed x := by
  apply run.invariant (motive := Untainted lib posted feed)
    (start_untainted lib posted feed config)
  intro t u e h he hst
  exact h.step honest he hst

/-- What was sent, height by height. -/
theorem sent_eq (ho : Orderly n x) (h : Untainted lib posted feed x) :
    x.downloader.tx.sent = (List.range' n x.downloader.tx.sent.length).map feed := by
  rw [← ho.heights, List.map_map]
  conv_lhs => rw [← List.map_id x.downloader.tx.sent]
  exact List.map_congr_left (fun block hm => h.downloader.sent block hm)

/-- With an honest poster and a beacon node that passes off no other blobs, the
consumer receives the Fuel blocks themselves, from the first one on, and then
maybe an error: whatever the L1 and the beacon node leave out, repeat, reorder
or fail at, and whatever the order in which the tasks move. -/
theorem received_genuine (lib : Libraries Blob) (message : Queue.Failure → Error)
    (posted : Blob → Prop) (feed : Nat → VersionedCompressedBlock)
    (honest : Honest lib posted feed) (config : Config)
    (hstart : config.nextFuelBlock ≤ u32Max) {x : Pipeline Blob}
    (run : PostedRun lib message posted (start config) x) :
    ∃ n, x.outlet.received = (List.range' config.nextFuelBlock n).map (fun h => .ok (feed h)) ∨
      ∃ err, x.outlet.received =
        (List.range' config.nextFuelBlock n).map (fun h => .ok (feed h)) ++ [.error err] := by
  have free : Run (Pipeline.step lib message) (fun _ _ => True) (start config) x :=
    run.mono (fun _ _ _ => trivial)
  have hsent := sent_eq (run_orderly hstart free) (run_untainted honest run)
  have hmap : x.downloader.tx.sent.map (Except.ok (ε := Error)) =
      (List.range' config.nextFuelBlock x.downloader.tx.sent.length).map
        (fun h => .ok (feed h)) := by
    conv_lhs => rw [hsent]
    rw [List.map_map]
    rfl
  have hlead : ∀ items : List (Except Error VersionedCompressedBlock),
      items <+: x.downloader.tx.sent.map .ok →
      items = (List.range' config.nextFuelBlock items.length).map (fun h => .ok (feed h)) := by
    intro items hitems
    have hlen : items.length ≤ x.downloader.tx.sent.length := by
      simpa using hitems.length_le
    rw [hmap] at hitems
    conv_lhs => rw [List.prefix_iff_eq_take.mp hitems, ← List.map_take,
      List.take_range'_of_length_ge hlen]
  have hprefix : x.outlet.received <+: x.outlet.put := List.take_prefix _ _
  rcases (run_sound free).outlet.shape with hput | ⟨err, -, -, hput⟩ <;> rw [hput] at hprefix
  · exact ⟨_, Or.inl (hlead _ hprefix)⟩
  · rcases List.prefix_concat_iff.mp hprefix with hall | hsome
    · exact ⟨_, Or.inr ⟨err, by rw [hall, hmap]⟩⟩
    · exact ⟨_, Or.inl (hlead _ hsome)⟩

/-- Where any blob at all may have been posted, any answer will do. -/
theorem fromPosted_anything (lib : Libraries Blob) (x : Pipeline Blob) (e : Event) :
    FromPosted lib (fun _ => True) x e := by
  cases e with
  | answer http => exact fun _ _ _ _ _ _ _ _ _ => trivial
  | queue | relay | read | work | forward | take | drop => trivial

theorem received_genuine_one_block :
    ∃ x : Pipeline (HeaderV1 × UInt8),
      PostedRun plainLibraries (fun _ => "refused") (fun _ => True) (start ⟨"", "", [], 0, 1⟩) x ∧
      x.outlet.received.length = 2 ∧
      ∃ n, x.outlet.received = (List.range' 1 n).map (fun h => .ok ⟨h, 0, [], []⟩) ∨
        ∃ err, x.outlet.received =
          (List.range' 1 n).map (fun h => .ok ⟨h, 0, [], []⟩) ++ [.error err] := by
  obtain ⟨x, run, hlen⟩ : ∃ x, Run (step plainLibraries (fun _ => "refused")) (fun _ _ => True)
      (start ⟨"", "", [], 0, 1⟩) x ∧ x.outlet.received.length = 2 :=
    Run.exists_of_drive oneBlock (by decide)
  have posted : PostedRun plainLibraries (fun _ => "refused") (fun _ => True)
      (start ⟨"", "", [], 0, 1⟩) x :=
    run.mono (fun y e _ => fromPosted_anything plainLibraries y e)
  exact ⟨x, posted, hlen, received_genuine plainLibraries (fun _ => "refused") (fun _ => True) _
    plainLibraries_honest ⟨"", "", [], 0, 1⟩ (by decide) posted⟩

end Pipeline
end Watchtower.Downloader
