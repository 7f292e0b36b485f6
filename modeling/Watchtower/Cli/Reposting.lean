import Watchtower.Cli.Agreement
import Watchtower.Cli.CaughtUp
import Watchtower.Downloader.Reposting

namespace Watchtower.Cli
open Lib Syncer Downloader

namespace Host

variable {core : FuelCore} {FullBlock Blob : Type} [DecidableEq Blob] {lib : Libraries Blob}
  {message : Queue.Failure → Error} {config : Config} {l1 : L1 Blob} {count m c : Nat}
  {host after : Host core Blob}

/-- A Fuel block that is in no bundle but the one that is never whole does not
come next. -/
theorem Reads.next_ne (h : Reads lib message config l1 host)
    (reposted : Reposted lib l1 config.daStartBlock count)
    (honly : ∀ p ∈ reposted.posting.family, ∀ block ∈ reposted.posting.content p,
      block.height = m → p = reposted.bundle)
    {x : Pipeline Blob} {block : VersionedCompressedBlock}
    {outlet : Outlet 1024 Error VersionedCompressedBlock} (on : host.streamFromDa = some x)
    (next : x.outlet.next? = some (.ok block, outlet)) : block.height ≠ m := by
  obtain ⟨feed, hnothing, hfeed⟩ := reposted.exists_feed honly
  obtain ⟨-, huntainted⟩ := Pipeline.run_untainted_by reposted hfeed (h.run x on)
  have hblock := next_of_feed huntainted (h.living x on) next
  rintro rfl
  exact hnothing (congrArg VersionedCompressedBlock.height hblock).symm

/-- The compression data stays below it. -/
theorem Reads.stays_below (hontop : core.CommitsOnTop) (habove : core.CommitsAbove)
    (h : Reads lib message config l1 host)
    (reposted : Reposted lib l1 config.daStartBlock count)
    (honly : ∀ p ∈ reposted.posting.family, ∀ block ∈ reposted.posting.content p,
      block.height = m → p = reposted.bundle)
    (hc : host.blockSyncer.compressionLatestHeight = some c) (hlt : c < m) {e : Event FullBlock}
    (he : e.OnL1 lib config l1 host) (hst : Stepped lib message host e after) :
    ∃ c, after.blockSyncer.compressionLatestHeight = some c ∧ c < m := by
  cases hst with
  | refused | booted => exact he.elim
  | stream | stopped | crash => exact ⟨c, hc, hlt⟩
  | failed on next run =>
    refine ⟨c, ?_, hlt⟩
    rw [BlockSyncer.compressionLatestHeight, BlockSyncer.import_error_database run]
    exact hc
  | imported on next run =>
    obtain ⟨k, hk, hheight⟩ := (h.living _ on).next_height next
    obtain rfl := Option.some.inj (hc.symm.trans hk)
    have hne := h.next_ne reposted honly on next
    obtain ⟨hnow, -⟩ := h.behind.import_next hontop habove hc hheight run
    exact ⟨c + 1, hnow, by omega⟩

/-- A blob that is there again before its bundle is whole, be it the copy of
somebody else, stops the watchtower for good. No life that begins below the Fuel
block of the bundle gets past the L1 block that has the blob again, and none ever
imports the Fuel block: whatever the life, what it leaves ends below that block
once more. -/
theorem reposted_blob_stops (core : FuelCore) (hontop : core.CommitsOnTop)
    (habove : core.CommitsAbove) (hkeeps : core.KeepsHeight) (FullBlock Blob : Type)
    [DecidableEq Blob] (lib : Libraries Blob) (message : Queue.Failure → Error)
    (uninit : UninitializedTask core) (hs : uninit.blockSyncer.Behind)
    (aroundBlocks aroundCompression : BlockSyncer.Surroundings FullBlock)
    (hhonest : ∀ k, (aroundCompression.sentryAt k).AnswersHeight) (config : Config)
    (s : BlockSyncer core) (hready : uninit.prepare aroundBlocks aroundCompression = .ok config s)
    (da : Nat → Nat)
    (hda : ∀ h block, core.block s.onChainDatabase h = .ok block → block.daHeight = da h)
    (l1 : L1 Blob) (count : Nat) (reposted : Reposted lib l1 0 count)
    (timely : reposted.posting.Timely da) (block : VersionedCompressedBlock)
    (hblock : block ∈ reposted.posting.content reposted.bundle)
    (honly : ∀ p ∈ reposted.posting.family, ∀ other ∈ reposted.posting.content p,
      other.height = block.height → p = reposted.bundle)
    (hbelow : ∀ c, s.compressionLatestHeight = some c → c < block.height) (host : Host core Blob)
    (run : LivedOnL1 FullBlock lib message config l1 ⟨s, some (Pipeline.start config)⟩ host) :
    (∃ c, host.blockSyncer.compressionLatestHeight = some c ∧ c < block.height) ∧
      ∀ x thisBlock, host.streamFromDa = some x → x.Between thisBlock →
        thisBlock.number ≤ count := by
  obtain ⟨k, hk, -, hstart⟩ := prepare_start hready hda
  have hearly : config.daStartBlock ≤ da block.height :=
    hstart ▸ timely.monotone (hbelow k hk).le
  have hbefore : ∀ blob ∈ reposted.bundle.blobs, blob ∉ l1.blobs 0 config.daStartBlock :=
    fun blob hb hin => timely.after _ reposted.known block hblock blob hb
      (l1.blobs_subset 0 hearly hin)
  have hle : config.daStartBlock ≤ count := by
    by_contra hgt
    exact hbefore _ reposted.own
      (l1.blobs_subset 0 (Nat.lt_of_not_le hgt) (List.mem_of_mem_erase reposted.again))
  obtain ⟨n, rfl⟩ := Nat.exists_eq_add_of_le hle
  have hreads : ∀ {t : Host core Blob},
      LivedOnL1 FullBlock lib message config l1 ⟨s, some (Pipeline.start config)⟩ t →
      Reads lib message config l1 t :=
    fun h => life_reads hontop habove hkeeps hs hhonest hready h
  constructor
  · suffices h : Reads lib message config l1 host ∧
        ∃ c, host.blockSyncer.compressionLatestHeight = some c ∧ c < block.height from h.2
    apply run.invariant (motive := fun t : Host core Blob => Reads lib message config l1 t ∧
      ∃ c, t.blockSyncer.compressionLatestHeight = some c ∧ c < block.height)
    · exact ⟨hreads .start, k, hk, hbelow k hk⟩
    · intro t u e h he hst
      obtain ⟨ht, c, hc, hlt⟩ := h
      exact ⟨ht.step hontop habove hkeeps he (step_cases hst),
        ht.stays_below hontop habove (reposted.since hbefore) honly hc hlt he (step_cases hst)⟩
  · intro x thisBlock on here
    obtain ⟨done, hdone, rfl, -⟩ :=
      (Pipeline.run_tracks ((hreads run).run x on)).stops (reposted.since hbefore) here
    rw [l1.numbered]
    omega

/-- The first of two blobs, and its copy by somebody else in the same block. -/
def twiceL1 : L1 (HeaderV1 × UInt8) where
  block h :=
    ⟨⟨h, [], [], some []⟩,
      .full (if h = 0 then [⟨[], 3, some [[1, 0]]⟩, ⟨[9], 3, some [[1, 0]]⟩] else [])⟩
  posted h :=
    if h = 0 then [([1, 0], (⟨0, 0, false⟩, 1)), ([1, 0], (⟨0, 0, false⟩, 1))] else []
  numbered _ := rfl

def twice : Reposted plainLibraries twiceL1 0 0 where
  posting := {
    family := [plainBundle 0 [1, 2] (by decide)]
    content := plainContent
    ids := by decide
    decoded := fun p hp => by
      obtain rfl := List.mem_singleton.mp hp
      exact .cons rfl (.cons rfl .nil)
    agree := by decide
    once := by decide
    covers := by decide }
  bundle := plainBundle 0 [1, 2] (by decide)
  blob := (⟨0, 0, false⟩, 1)
  known := List.mem_singleton_self _
  own := by decide
  covers := by decide
  again := by decide
  once := by decide
  waits := ⟨(⟨0, 1, true⟩, 2), by decide, by decide⟩

/-- The life that reads this block ends on an error. -/
theorem reposted_blob_stops_twice :
    ∃ (host : Host plainCore (HeaderV1 × UInt8)) (x : Pipeline (HeaderV1 × UInt8)) (c : Nat),
      LivedOnL1 Unit plainLibraries (fun _ => "refused") ⟨"", "", [], 0, 1⟩ twiceL1
        ⟨plainSyncer 1 [0], some (Pipeline.start ⟨"", "", [], 0, 1⟩)⟩ host ∧
      host.streamFromDa = some x ∧
      x.stage = .returned (.error "Duplicate blob with index 0") ∧
      host.blockSyncer.compressionLatestHeight = some c ∧ c < 1 := by
  obtain ⟨x, moves, here⟩ : ∃ x, Run (Pipeline.step plainLibraries (fun _ => "refused"))
      (Pipeline.scripted twiceL1 0 [⟨"0001", "0x70"⟩, ⟨"0001", "0x70"⟩])
      (Pipeline.start ⟨"", "", [], 0, 1⟩) x ∧
      x.stage = .returned (.error "Duplicate blob with index 0") :=
    Run.exists_of_drive (List.flatten [(Queue.advances 9).map .queue,
      [.queue (.answer 0 (.ok (some (twiceL1.block 0)))), .queue (.join 0)],
      [.queue .advance, .read], (Queue.advances 3).map .queue,
      [.queue (.answer 0 (.ok (some (twiceL1.block 1)))), .queue (.join 0)],
      [.queue .advance, .read,
        .answer (fun _ => .ok ⟨[⟨"0001", "0x70"⟩, ⟨"0001", "0x70"⟩]⟩), .work, .work]]) (by decide)
  have hserves := Pipeline.scripted_serves twiceL1 0 0 1
    [⟨"0001", "0x70"⟩, ⟨"0001", "0x70"⟩] (by decide) rfl
    (.cons ⟨⟨_, rfl, rfl⟩, ⟨_, rfl, rfl⟩⟩ (.cons ⟨⟨_, rfl, rfl⟩, ⟨_, rfl, rfl⟩⟩ .nil))
  have run : LivedOnL1 Unit plainLibraries (fun _ => "refused") ⟨"", "", [], 0, 1⟩ twiceL1
      ⟨plainSyncer 1 [0], some (Pipeline.start ⟨"", "", [], 0, 1⟩)⟩
      ⟨plainSyncer 1 [0], some x⟩ := by
    refine run_stream (plainSyncer 1 [0]) (fun y e he => ⟨?_, fun z hz => ?_⟩) moves
    · cases e <;> first | rfl | exact he.elim
    · exact Option.some.inj hz ▸ hserves y e he
  have hda : ∀ h block, plainCore.block (plainSyncer 1 [0]).onChainDatabase h = .ok block →
      block.daHeight = 0 := by
    intro h block hblock
    cases h with
    | zero => exact Except.ok.inj hblock ▸ rfl
    | succ h => cases hblock
  have hcontent : twice.posting.content twice.bundle = [⟨1, 0, [], []⟩, ⟨2, 0, [], []⟩] := rfl
  obtain ⟨⟨c, hc, hlt⟩, -⟩ := reposted_blob_stops plainCore plainCore_commitsOnTop
    plainCore_commitsAbove plainCore_keepsHeight Unit (HeaderV1 × UInt8) plainLibraries
    (fun _ => "refused") ⟨plainSyncer 1 [0], ⟨"", "", [], 0, 0⟩⟩ atGenesis_behind quiet quiet
    (fun k height bytes block h => by cases h) ⟨"", "", [], 0, 1⟩ (plainSyncer 1 [0]) rfl
    (fun _ => 0) hda twiceL1 0 twice
    ⟨fun _ _ _ => Nat.le_refl _, fun _ _ _ _ _ _ hm => by cases hm⟩ ⟨1, 0, [], []⟩
    (hcontent ▸ List.mem_cons_self) (fun p hp _ _ _ => List.mem_singleton.mp hp)
    (fun c hc => Option.some.inj hc ▸ Nat.zero_lt_one) _ run
  exact ⟨_, x, c, run, rfl, here, hc, hlt⟩

end Host
end Watchtower.Cli
