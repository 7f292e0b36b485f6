import Watchtower.Cli.Lives
import Watchtower.Downloader.CatchUp

namespace Watchtower.Cli
open Lib Syncer Downloader

namespace Host

variable {core : FuelCore} {FullBlock Blob : Type} {lib : Libraries Blob}
  {message : Queue.Failure → Error} {config : Config} {l1 : L1 Blob}
  {host after : Host core Blob} {s : BlockSyncer core} {x : Pipeline Blob}

/-- What happens in a life once `into_task` has returned, on this L1. -/
def Event.OnL1 (lib : Libraries Blob) (config : Config) (l1 : L1 Blob) (host : Host core Blob) :
    Event FullBlock → Prop
  | .boot _ _ _ _ => False
  | .stream e => ∀ x, host.streamFromDa = some x → Pipeline.Serving lib config l1 x e
  | .wake _ | .crash => True

theorem Event.OnL1.honest {e : Event FullBlock} (h : e.OnL1 lib config l1 host) : e.Honest := by
  cases e with
  | boot => exact h.elim
  | stream | wake | crash => trivial

/-- A life in step whose downloader reads this L1. -/
structure Reads (lib : Libraries Blob) (message : Queue.Failure → Error) (config : Config)
    (l1 : L1 Blob) (host : Host core Blob) : Prop where
  behind : host.blockSyncer.Behind
  living : ∀ x, host.streamFromDa = some x → Living lib message config host.blockSyncer x
  run : ∀ x, host.streamFromDa = some x →
    Run (Pipeline.step lib message) (Pipeline.Serving lib config l1) (Pipeline.start config) x

theorem Reads.step (hontop : core.CommitsOnTop) (habove : core.CommitsAbove)
    (hkeeps : core.KeepsHeight) (h : Reads lib message config l1 host) {e : Event FullBlock}
    (he : e.OnL1 lib config l1 host) (hst : Stepped lib message host e after) :
    Reads lib message config l1 after := by
  have hbehind := BlockSyncer.CommitsTo.behind hontop habove (hst.commits hontop hkeeps he.honest)
    h.behind
  cases hst with
  | refused | booted => exact he.elim
  | stopped | failed | crash =>
    exact ⟨hbehind, fun x hx => (by cases hx), fun x hx => (by cases hx)⟩
  | @stream e x y on own moves =>
    refine ⟨hbehind, fun z hz => ?_, fun z hz => ?_⟩ <;> obtain rfl := Option.some.inj hz
    · exact (h.living x on).moves own moves
    · exact (h.run x on).next (he x on) moves
  | @imported fails x block outlet s on next run =>
    refine ⟨hbehind, fun z hz => ?_, fun z hz => ?_⟩ <;> obtain rfl := Option.some.inj hz
    · exact (h.living x on).imports hontop habove h.behind next run
    · exact (h.run x on).next (e := .take) trivial
        (by simp [Pipeline.step, (h.living x on).here, next])

/-- The runs of a life on this L1. -/
abbrev LivedOnL1 (FullBlock : Type) (lib : Libraries Blob) (message : Queue.Failure → Error)
    (config : Config) (l1 : L1 Blob) (host after : Host core Blob) : Prop :=
  Run (Host.step lib message) (fun host (e : Event FullBlock) => e.OnL1 lib config l1 host)
    host after

theorem life_reads (hontop : core.CommitsOnTop) (habove : core.CommitsAbove)
    (hkeeps : core.KeepsHeight) {uninit : UninitializedTask core}
    (hs : uninit.blockSyncer.Behind)
    {aroundBlocks aroundCompression : BlockSyncer.Surroundings FullBlock}
    (hhonest : ∀ k, (aroundCompression.sentryAt k).AnswersHeight) {s : BlockSyncer core}
    (hready : uninit.prepare aroundBlocks aroundCompression = .ok config s)
    (run : LivedOnL1 FullBlock lib message config l1 ⟨s, some (Pipeline.start config)⟩ host) :
    Reads lib message config l1 host := by
  have hprepared := prepare_commits uninit aroundBlocks aroundCompression hhonest
  rw [hready] at hprepared
  obtain ⟨mid, hmid⟩ := prepare_ok hready
  obtain ⟨k, hk, hlt, hnext⟩ := hmid.next
  apply run.invariant (motive := Reads lib message config l1)
  · refine ⟨BlockSyncer.CommitsTo.behind hontop habove hprepared hs, fun y hy => ?_,
      fun y hy => ?_⟩ <;> obtain rfl := Option.some.inj hy
    · exact start_living hk hlt hnext
    · exact .start
  · intro t u e ht he hst
    exact ht.step hontop habove hkeeps he (step_cases hst)

/-- With nothing left to take, the compression data ends where the stream does. -/
theorem Living.ends_at (h : Living lib message config s x) (waits : x.outlet.next? = none)
    {start count m : Nat} {posting : Posting lib l1 start count}
    (hput : Pipeline.PutUpTo posting config.nextFuelBlock m x) :
    ∃ c, s.compressionLatestHeight = some c ∧ c + 1 = m := by
  obtain ⟨blocks, c, hreceived, hc, hcount⟩ := h.imported
  obtain ⟨hleast, sent, hsent, hheights, -⟩ := hput
  rw [Outlet.received_of_taken (Outlet.next?_eq_none waits), hsent] at hreceived
  have hlength : sent.length = blocks.length := by
    have := congrArg List.length hreceived
    rwa [List.length_map, List.length_map] at this
  have hrange : sent.length = m - config.nextFuelBlock := by
    have := congrArg List.length hheights
    rwa [List.length_map, List.length_range'] at this
  have hle : config.nextFuelBlock ≤ m := hleast.1.1
  exact ⟨c, hc, by omega⟩

/-- Where the downloader waits for the L1 block after the one at hand, and the
task for a Fuel block. -/
theorem Reads.caught_up [DecidableEq Blob] (h : Reads lib message config l1 host)
    (on : host.streamFromDa = some x) {block : Block} (here : x.stage = .next block)
    (waits : x.outlet.next? = none) :
    ∃ count, block = l1.block (config.daStartBlock + count) ∧
      ∀ posting : Posting lib l1 config.daStartBlock count, ∃ c o,
        host.blockSyncer.compressionLatestHeight = some c ∧
        core.onChainHeight host.blockSyncer.onChainDatabase = some o ∧ c ≤ o ∧
        IsLeast {h | config.nextFuelBlock ≤ h ∧
          ∀ block, posting.Has block → block.height ≠ h} (c + 1) := by
  obtain ⟨count, hblock, hput⟩ := (Pipeline.run_tracks (h.run x on)).putUpTo here
  refine ⟨count, hblock, fun posting => ?_⟩
  obtain ⟨c, hc, hm⟩ := (h.living x on).ends_at waits (hput posting)
  obtain ⟨o, ho, hle⟩ := h.behind c hc
  exact ⟨c, o, hc, ho, hle, hm ▸ (hput posting).least⟩

/-- A life on an L1 that is not reorganised, begun on databases as any lives
before may have left them: once the downloader waits for the L1 block after the
one at hand, and the task for a Fuel block, everything that was posted as a
whole below that L1 block has been imported without a gap, and nothing else. -/
theorem life_catches_up (core : FuelCore) (hontop : core.CommitsOnTop) (habove : core.CommitsAbove)
    (hkeeps : core.KeepsHeight) (FullBlock Blob : Type) [DecidableEq Blob] (lib : Libraries Blob)
    (message : Queue.Failure → Error) (uninit : UninitializedTask core)
    (hs : uninit.blockSyncer.Behind)
    (aroundBlocks aroundCompression : BlockSyncer.Surroundings FullBlock)
    (hhonest : ∀ k, (aroundCompression.sentryAt k).AnswersHeight) (config : Config)
    (s : BlockSyncer core) (hready : uninit.prepare aroundBlocks aroundCompression = .ok config s)
    (l1 : L1 Blob) (host : Host core Blob)
    (run : LivedOnL1 FullBlock lib message config l1 ⟨s, some (Pipeline.start config)⟩ host)
    (x : Pipeline Blob) (on : host.streamFromDa = some x) (block : Block)
    (here : x.stage = .next block) (waits : x.outlet.next? = none) :
    ∃ count, block = l1.block (config.daStartBlock + count) ∧
      ∀ posting : Posting lib l1 config.daStartBlock count, ∃ c o,
        host.blockSyncer.compressionLatestHeight = some c ∧
        core.onChainHeight host.blockSyncer.onChainDatabase = some o ∧ c ≤ o ∧
        IsLeast {h | config.nextFuelBlock ≤ h ∧
          ∀ block, posting.Has block → block.height ≠ h} (c + 1) := by
  exact (life_reads hontop habove hkeeps hs hhonest hready run).caught_up on here waits

/-- The tasks behind the stream move by a script, and the one Fuel block they
bring is imported. -/
theorem scripted_life {l1 : L1 (HeaderV1 × UInt8)} {height daStart first : Nat}
    {data : List BlobData} {s t : BlockSyncer plainCore} {x : Pipeline (HeaderV1 × UInt8)}
    {block : VersionedCompressedBlock}
    (serves : ∀ y e, Pipeline.scripted l1 height data y e →
      Pipeline.Serving plainLibraries ⟨"", "", [], daStart, first⟩ l1 y e)
    (moves : Run (Pipeline.step plainLibraries (fun _ => "refused"))
      (Pipeline.scripted l1 height data) (Pipeline.start ⟨"", "", [], daStart, first⟩) x)
    (hnext : x.outlet.next?.map (fun next => (next.1, next.2.next?.isSome)) =
      some (.ok block, false))
    (himport : s.importBlockFromDa Faults.none block = .ok () t) :
    ∃ outlet : Outlet 1024 Error VersionedCompressedBlock, outlet.next? = none ∧
      LivedOnL1 Unit plainLibraries (fun _ => "refused") ⟨"", "", [], daStart, first⟩ l1
        ⟨s, some (Pipeline.start ⟨"", "", [], daStart, first⟩)⟩ ⟨t, some { x with outlet }⟩ := by
  obtain ⟨⟨item, outlet⟩, next, hitem⟩ := Option.map_eq_some_iff.mp hnext
  obtain ⟨rfl, hlast⟩ := Prod.mk.inj hitem
  refine ⟨outlet, Option.not_isSome_iff_eq_none.mp (by rw [hlast]; decide), ?_⟩
  refine Run.next (e := .wake (.item Faults.none))
    (run_stream s (fun y e he => ⟨?_, fun z hz => ?_⟩) moves) trivial ?_
  · cases e <;> first | rfl | exact he.elim
  · exact Option.some.inj hz ▸ serves y e he
  · simp only [Host.step, Host.run, next, himport]

/-- A life that has imported the Fuel block of the first L1 block. -/
theorem oneBlock_life :
    ∃ x : Pipeline (HeaderV1 × UInt8), x.stage = .next (Pipeline.shortL1.block 1) ∧
      x.outlet.next? = none ∧
      LivedOnL1 Unit plainLibraries (fun _ => "refused") ⟨"", "", [], 0, 1⟩ Pipeline.shortL1
        ⟨plainSyncer 1 [0], some (Pipeline.start ⟨"", "", [], 0, 1⟩)⟩
        ⟨plainSyncer 2 [0, 1], some x⟩ := by
  obtain ⟨x, moves, here, hnext⟩ : ∃ x,
      Run (Pipeline.step plainLibraries (fun _ => "refused")) Pipeline.shortServing
        (Pipeline.start ⟨"", "", [], 0, 1⟩) x ∧
      x.stage = .next (Pipeline.shortL1.block 1) ∧
      x.outlet.next?.map (fun next => (next.1, next.2.next?.isSome)) =
        some (.ok ⟨1, 0, [], []⟩, false) :=
    Run.exists_of_drive (Pipeline.oneBlock.take 25) (by decide)
  obtain ⟨outlet, waits, run⟩ := scripted_life (s := plainSyncer 1 [0])
    Pipeline.shortServing_serves moves hnext rfl
  exact ⟨{ x with outlet }, here, waits, run⟩

theorem atGenesis_behind : (plainSyncer 1 [0]).Behind :=
  fun _ h => ⟨0, rfl, Option.some.inj h ▸ Nat.le_refl _⟩

theorem life_catches_up_one_block :
    ∃ x : Pipeline (HeaderV1 × UInt8), x.stage = .next (Pipeline.shortL1.block 1) ∧
      x.outlet.next? = none ∧
      LivedOnL1 Unit plainLibraries (fun _ => "refused") ⟨"", "", [], 0, 1⟩ Pipeline.shortL1
        ⟨plainSyncer 1 [0], some (Pipeline.start ⟨"", "", [], 0, 1⟩)⟩
        ⟨plainSyncer 2 [0, 1], some x⟩ ∧
      IsLeast {h | 1 ≤ h ∧ ∀ block, Pipeline.shortPosting.Has block → block.height ≠ h} 2 := by
  obtain ⟨x, here, waits, run⟩ := oneBlock_life
  obtain ⟨count, hblock, hall⟩ := life_catches_up plainCore plainCore_commitsOnTop
    plainCore_commitsAbove plainCore_keepsHeight Unit (HeaderV1 × UInt8) plainLibraries
    (fun _ => "refused") ⟨plainSyncer 1 [0], ⟨"", "", [], 0, 0⟩⟩ atGenesis_behind quiet quiet
    (fun k height bytes block h => by cases h) ⟨"", "", [], 0, 1⟩ (plainSyncer 1 [0]) rfl
    Pipeline.shortL1 _ run x rfl _ here waits
  have hcount : 1 = 0 + count := congrArg Block.number hblock
  obtain rfl : count = 1 := by omega
  obtain ⟨c, -, hc, -, -, hleast⟩ := hall Pipeline.shortPosting
  obtain rfl : 1 = c := Option.some.inj hc
  exact ⟨x, here, waits, run, hleast⟩

/-- Where a life begins, when the blocks of the chain refer to these L1 heights. -/
theorem prepare_start {uninit : UninitializedTask core}
    {aroundBlocks aroundCompression : BlockSyncer.Surroundings FullBlock}
    (hready : uninit.prepare aroundBlocks aroundCompression = .ok config s) {da : Nat → Nat}
    (hda : ∀ h block, core.block s.onChainDatabase h = .ok block → block.daHeight = da h) :
    ∃ k, s.compressionLatestHeight = some k ∧ config.nextFuelBlock = k + 1 ∧
      config.daStartBlock = da k := by
  obtain ⟨mid, hmid⟩ := prepare_ok hready
  obtain ⟨k, hk, -, hnext⟩ := hmid.next
  refine ⟨k, hk, hnext, ?_⟩
  have hstart := hmid.daStart
  simp only [BlockSyncer.compressionLatestDaHeight, hk] at hstart
  cases hfound : core.block s.onChainDatabase k with
  | error err => simp [hfound, Except.map] at hstart
  | ok found =>
    simp only [hfound, Except.map, Except.ok.injEq] at hstart
    rw [← hstart, hda k found hfound]

/-- The downloader of a life starts at the L1 height that the block at the end of
the compression data refers to. With Fuel blocks that refer to heights in order
and are posted after, that leaves out nothing: in such a life the compression
data ends right below the first Fuel block that was never posted as a whole, of
all the L1 blocks there are up to the one at hand. -/
theorem restart_misses_nothing (core : FuelCore) (hontop : core.CommitsOnTop)
    (habove : core.CommitsAbove) (hkeeps : core.KeepsHeight) (FullBlock Blob : Type)
    [DecidableEq Blob] (lib : Libraries Blob) (message : Queue.Failure → Error)
    (uninit : UninitializedTask core) (hs : uninit.blockSyncer.Behind)
    (aroundBlocks aroundCompression : BlockSyncer.Surroundings FullBlock)
    (hhonest : ∀ k, (aroundCompression.sentryAt k).AnswersHeight) (config : Config)
    (s : BlockSyncer core) (hready : uninit.prepare aroundBlocks aroundCompression = .ok config s)
    (da : Nat → Nat)
    (hda : ∀ h block, core.block s.onChainDatabase h = .ok block → block.daHeight = da h)
    (l1 : L1 Blob) (host : Host core Blob)
    (run : LivedOnL1 FullBlock lib message config l1 ⟨s, some (Pipeline.start config)⟩ host)
    (x : Pipeline Blob) (on : host.streamFromDa = some x) (block : Block)
    (here : x.stage = .next block) (waits : x.outlet.next? = none) :
    ∃ count, block = l1.block (config.daStartBlock + count) ∧
      ∀ posting : Posting lib l1 0 (config.daStartBlock + count), posting.Timely da →
        ∃ c, host.blockSyncer.compressionLatestHeight = some c ∧
          IsLeast {h | config.nextFuelBlock ≤ h ∧
            ∀ block, posting.Has block → block.height ≠ h} (c + 1) := by
  have hreads := life_reads hontop habove hkeeps hs hhonest hready run
  obtain ⟨k, -, hnext, hstart⟩ := prepare_start hready hda
  obtain ⟨count, hblock, hcaught⟩ := hreads.caught_up on here waits
  refine ⟨count, hblock, fun posting timely => ?_⟩
  obtain ⟨c, o, hc, -, -, hleast⟩ := hcaught posting.since
  have hreaches : config.daStartBlock ≤ da config.nextFuelBlock := by
    rw [hstart, hnext]
    exact timely.monotone (Nat.le_succ k)
  rw [timely.missing_since hreaches] at hleast
  exact ⟨c, hc, hleast⟩

/-- Fuel block 1 is posted in the first L1 block, the blocks 2 and 3 in the next. -/
def twoL1 : L1 (HeaderV1 × UInt8) where
  block h := plainBlock h (if h = 0 then [[1, 0]] else if h = 1 then [[1, 1], [1, 2]] else [])
  posted h :=
    if h = 0 then [([1, 0], (⟨0, 0, true⟩, 1))]
    else if h = 1 then [([1, 1], (⟨1, 0, true⟩, 2)), ([1, 2], (⟨2, 0, true⟩, 3))]
    else []
  numbered _ := rfl

def twoPosting : Posting plainLibraries twoL1 0 2 where
  family := [plainBundle 0 [1] (List.cons_ne_nil 1 []), plainBundle 1 [2] (List.cons_ne_nil 2 []),
    plainBundle 2 [3] (List.cons_ne_nil 3 [])]
  content := plainContent
  ids := by decide
  decoded p hp := by
    rcases List.mem_cons.mp hp with rfl | hp
    · exact .cons rfl .nil
    · rcases List.mem_cons.mp hp with rfl | hp
      · exact .cons rfl .nil
      · obtain rfl := List.mem_singleton.mp hp
        exact .cons rfl .nil
  agree := by decide
  once := by decide
  covers := by decide

/-- The blocks 0 and 1 refer to the first L1 block, the others to the next. -/
def twoDa (h : Nat) : Nat := min (h - 1) 1

theorem twoPosting_timely : twoPosting.Timely twoDa where
  monotone a b h := by
    unfold twoDa
    omega
  after := by decide

/-- The databases behind Fuel block 2. -/
def behindTwo : BlockSyncer plainCore where
  compressionConfig := 86400
  onChainDatabase := [⟨0, 0, []⟩, ⟨1, 0, []⟩, ⟨2, 1, []⟩]
  database := [0, 1, 2]

theorem behindTwo_behind : behindTwo.Behind :=
  fun _ h => ⟨2, rfl, Option.some.inj h ▸ Nat.le_refl _⟩

theorem behindTwo_da {h : Nat} {block : FuelBlock}
    (hblock : plainCore.block behindTwo.onChainDatabase h = .ok block) :
    block.daHeight = twoDa h := by
  rcases h with _ | _ | _ | h
  · exact Except.ok.inj hblock ▸ rfl
  · exact Except.ok.inj hblock ▸ rfl
  · exact Except.ok.inj hblock ▸ rfl
  · cases hblock

/-- The life behind Fuel block 2 begins at the second L1 block. -/
def restarted : List Pipeline.Event :=
  List.flatten [(Queue.advances 9).map .queue,
    [.queue (.answer 0 (.ok (some (twoL1.block 1)))), .queue (.join 0)],
    [.queue .advance, .read], (Queue.advances 3).map .queue,
    [.queue (.answer 0 (.ok (some (twoL1.block 2)))), .queue (.join 0)],
    [.queue .advance, .read],
    [.answer (fun _ => .ok ⟨[⟨"1012", "0x71"⟩, ⟨"2013", "0x72"⟩]⟩)],
    List.replicate 6 .work]

theorem restart_misses_nothing_second_block :
    ∃ host : Host plainCore (HeaderV1 × UInt8),
      LivedOnL1 Unit plainLibraries (fun _ => "refused") ⟨"", "", [], 1, 3⟩ twoL1
        ⟨behindTwo, some (Pipeline.start ⟨"", "", [], 1, 3⟩)⟩ host ∧
      host.blockSyncer.compressionLatestHeight = some 3 ∧
      IsLeast {h | 3 ≤ h ∧ ∀ block, twoPosting.Has block → block.height ≠ h} 4 := by
  obtain ⟨x, moves, here, hnext⟩ : ∃ x, Run (Pipeline.step plainLibraries (fun _ => "refused"))
      (Pipeline.scripted twoL1 1 [⟨"1012", "0x71"⟩, ⟨"2013", "0x72"⟩])
      (Pipeline.start ⟨"", "", [], 1, 3⟩) x ∧
      x.stage = .next (twoL1.block 2) ∧
      x.outlet.next?.map (fun next => (next.1, next.2.next?.isSome)) =
        some (.ok ⟨3, 0, [], []⟩, false) :=
    Run.exists_of_drive restarted (by decide)
  obtain ⟨outlet, waits, run⟩ := scripted_life (s := behindTwo)
    (Pipeline.scripted_serves twoL1 1 1 3 [⟨"1012", "0x71"⟩, ⟨"2013", "0x72"⟩] (by decide) rfl
      (.cons ⟨⟨_, rfl, rfl⟩, ⟨_, rfl, rfl⟩⟩ (.cons ⟨⟨_, rfl, rfl⟩, ⟨_, rfl, rfl⟩⟩ .nil)))
    moves hnext rfl
  obtain ⟨count, hblock, hall⟩ := restart_misses_nothing plainCore plainCore_commitsOnTop
    plainCore_commitsAbove plainCore_keepsHeight Unit (HeaderV1 × UInt8) plainLibraries
    (fun _ => "refused") ⟨behindTwo, ⟨"", "", [], 0, 0⟩⟩ behindTwo_behind quiet quiet
    (fun k height bytes block h => by cases h) ⟨"", "", [], 1, 3⟩ behindTwo rfl
    twoDa (fun _ _ => behindTwo_da) twoL1 _ run { x with outlet } rfl _ here waits
  have hcount : 2 = 1 + count := congrArg Block.number hblock
  obtain rfl : count = 1 := by omega
  obtain ⟨c, hc, hleast⟩ := hall twoPosting twoPosting_timely
  obtain rfl : 3 = c := Option.some.inj hc
  exact ⟨_, run, rfl, hleast⟩

end Host
end Watchtower.Cli
