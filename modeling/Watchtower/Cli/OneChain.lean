import Watchtower.Cli.Archives
import Watchtower.Syncer.Provenance

namespace Watchtower.Cli
open Lib Syncer Downloader BlockSyncer

variable {core : FuelCore} {FullBlock Blob : Type} {lib : Libraries Blob}
  {message : Queue.Failure → Error} {posted : Blob → Prop}
  {feed : Nat → VersionedCompressedBlock} {blocks : Nat → FuelBlock} {s : BlockSyncer core}
  {c o : Nat}

/-- All that `into_task` does to the chain is the sync of blocks. -/
theorem prepare_chain (habove : core.CommitsAbove) (task : UninitializedTask core)
    (aroundBlocks aroundCompression : Surroundings FullBlock) :
    (finalState (task.prepare aroundBlocks aroundCompression)).onChainDatabase =
      (finalState
        (task.blockSyncer.syncAsMuchAsPossibleFromGraphql aroundBlocks)).onChainDatabase := by
  unfold UninitializedTask.prepare
  cases task.blockSyncer.syncAsMuchAsPossibleFromGraphql aroundBlocks with
  | error err mid => rfl
  | ok _ mid =>
    have hchain := syncCompression_chain habove aroundCompression mid
    simp only
    generalize mid.syncCompressionFromGraphql aroundCompression = outcome at hchain ⊢
    cases outcome with
    | error err after => exact hchain
    | ok _ after =>
      simp only
      split
      · exact hchain
      · split
        · exact hchain
        · split <;> exact hchain

theorem prepare_built (hontop : core.CommitsOnTop) (habove : core.CommitsAbove)
    (database : core.Compression) (feed : Nat → VersionedCompressedBlock) (c : Nat)
    (task : UninitializedTask core) (aroundBlocks aroundCompression : Surroundings FullBlock)
    (ho : core.onChainHeight task.blockSyncer.onChainDatabase = some o)
    (hanswers : AnswersChain aroundBlocks blocks) :
    core.Built database feed c blocks o task.blockSyncer.onChainDatabase
      (finalState (task.prepare aroundBlocks aroundCompression)).onChainDatabase := by
  rw [prepare_chain habove task]
  exact syncAsMuchAsPossible_chain hontop ho hanswers

namespace Host

variable {host after : Host core Blob}

/-- Every compressed block that comes from somewhere is one of the feed, and
every sealed one is on the chain of these blocks. -/
def Event.OfChain (lib : Libraries Blob) (posted : Blob → Prop)
    (feed : Nat → VersionedCompressedBlock) (blocks : Nat → FuelBlock) (host : Host core Blob)
    (e : Event FullBlock) : Prop :=
  e.OfFeed lib posted feed host ∧
    ∀ retention settings aroundBlocks aroundCompression,
      e = .boot retention settings aroundBlocks aroundCompression → AnswersChain aroundBlocks blocks

/-- The archive is that of the feed, and the chain is built of blocks from the
sentries and from DA. -/
structure Building (lib : Libraries Blob) (message : Queue.Failure → Error)
    (posted : Blob → Prop) (feed : Nat → VersionedCompressedBlock) (blocks : Nat → FuelBlock)
    (s : BlockSyncer core) (c o : Nat) (host : Host core Blob) : Prop where
  archiving : Archiving lib message posted feed s.database c host
  built : core.Built s.database feed c blocks o s.onChainDatabase host.blockSyncer.onChainDatabase

/-- An import in step puts at most the next block of the feed on the chain,
decompressed against the archive below it. -/
theorem Archiving.import_built {database : core.Compression} (hontop : core.CommitsOnTop)
    (habove : core.CommitsAbove) (hkeeps : core.KeepsHeight) (hfeed : ∀ h, (feed h).height = h)
    (hc : core.compressionHeight database = some c)
    (h : Archiving lib message posted feed database c host) (blocks : Nat → FuelBlock)
    (fails : Faults) {x : Pipeline Blob} {block : VersionedCompressedBlock}
    {outlet : Outlet 1024 Error VersionedCompressedBlock}
    (on : host.streamFromDa = some x) (next : x.outlet.next? = some (.ok block, outlet))
    (ho : core.onChainHeight host.blockSyncer.onChainDatabase = some o) :
    core.Built database feed c blocks o host.blockSyncer.onChainDatabase
      (finalState (host.blockSyncer.importBlockFromDa fails block)).onChainDatabase := by
  rcases importBlockFromDa_chain ho fails block with hsame | ⟨hlt, hexec⟩
  · rw [hsame]
    exact .rest
  · generalize (finalState (host.blockSyncer.importBlockFromDa fails block)).onChainDatabase =
      chain' at hexec ⊢
    obtain ⟨n, hn⟩ := h.archive
    obtain ⟨config, hliving⟩ := h.steady.living x on
    obtain ⟨k, hk, hheight⟩ := hliving.next_height next
    obtain rfl := Option.some.inj (hk.symm.trans (core.archiveFrom_height habove hfeed hc hn))
    obtain ⟨result, changes, hcommit, hkept⟩ := executeBlock_commits hexec
    obtain ⟨below, hbelow, htop, -⟩ := hontop.commitResult hcommit
    obtain rfl := Option.some.inj (ho.symm.trans hbelow)
    obtain rfl : o = c + n := by
      have := hkept hkeeps
      omega
    have hblock : block = feed (c + n + 1) := by
      rw [next_of_feed (h.untainted x on) hliving next, hheight]
    have hnext : core.chainNext database feed c (c + n) host.blockSyncer.onChainDatabase
        (.da host.blockSyncer.compressionConfig) = .ok chain' := by
      simp only [FuelCore.chainNext, Nat.add_sub_cancel_left, hn]
      rw [← hblock]
      exact hexec
    exact .one hnext trivial

theorem Building.step (hontop : core.CommitsOnTop) (habove : core.CommitsAbove)
    (hkeeps : core.KeepsHeight) (honest : Honest lib posted feed)
    (hfeed : ∀ h, (feed h).height = h) (hc : s.compressionLatestHeight = some c)
    (ho : core.onChainHeight s.onChainDatabase = some o)
    (h : Building lib message posted feed blocks s c o host) {e : Event FullBlock}
    (he : e.OfChain lib posted feed blocks host) (hst : Stepped lib message host e after) :
    Building lib message posted feed blocks s c o after := by
  refine ⟨h.archiving.step hontop habove hkeeps honest hfeed hc he.1 hst, ?_⟩
  cases hst with
  | stream | stopped | crash => exact h.built
  | @refused retention settings aroundBlocks aroundCompression err u off ended =>
    refine h.built.append hontop ho (fun o' ho' _ => ?_)
    have hbuilt := prepare_built hontop habove s.database feed c
      ⟨host.blockSyncer.reopen retention, settings⟩ aroundBlocks aroundCompression ho'
      (he.2 _ _ _ _ rfl)
    rwa [ended] at hbuilt
  | @booted retention settings config aroundBlocks aroundCompression u off ready =>
    refine h.built.append hontop ho (fun o' ho' _ => ?_)
    have hbuilt := prepare_built hontop habove s.database feed c
      ⟨host.blockSyncer.reopen retention, settings⟩ aroundBlocks aroundCompression ho'
      (he.2 _ _ _ _ rfl)
    rwa [ready] at hbuilt
  | @failed fails x block outlet err u on next run =>
    refine h.built.append hontop ho (fun o' ho' _ => ?_)
    have hbuilt := h.archiving.import_built hontop habove hkeeps hfeed hc blocks fails on next ho'
    rwa [run] at hbuilt
  | @imported fails x block outlet u on next run =>
    refine h.built.append hontop ho (fun o' ho' _ => ?_)
    have hbuilt := h.archiving.import_built hontop habove hkeeps hfeed hc blocks fails on next ho'
    rwa [run] at hbuilt

/-- The runs in which every compressed block is one of the feed, and every sealed
block of a sentry on the chain of these blocks. -/
abbrev OnChain (FullBlock : Type) (lib : Libraries Blob) (message : Queue.Failure → Error)
    (posted : Blob → Prop) (feed : Nat → VersionedCompressedBlock) (blocks : Nat → FuelBlock)
    (host after : Host core Blob) : Prop :=
  Run (Host.step lib message)
    (fun host (e : Event FullBlock) => e.OfChain lib posted feed blocks host) host after

/-- Over any number of lives, whatever the sentry and DA add to it in each and
wherever each of them ends, the chain is the one that one block for each height
makes, sealed from a sentry or decompressed from DA against the archive below
it. When both make the same blocks, so that execution reproduces from DA what
the sentries seal, it is the chain of these blocks alone, and what the next life
starts from is the height on L1 that the right one of them refers to. -/
theorem lives_build_one_chain (core : FuelCore) (hontop : core.CommitsOnTop)
    (habove : core.CommitsAbove) (hkeeps : core.KeepsHeight) (FullBlock Blob : Type)
    (lib : Libraries Blob) (message : Queue.Failure → Error) (posted : Blob → Prop)
    (feed : Nat → VersionedCompressedBlock) (honest : Honest lib posted feed)
    (hfeed : ∀ h, (feed h).height = h) (blocks : Nat → FuelBlock) (s : BlockSyncer core)
    (c o : Nat) (hs : s.Behind) (hc : s.compressionLatestHeight = some c)
    (ho : core.onChainHeight s.onChainDatabase = some o) (host : Host core Blob)
    (run : OnChain FullBlock lib message posted feed blocks ⟨s, none⟩ host) :
    ∃ sources,
      core.onChainHeight host.blockSyncer.onChainDatabase = some (o + sources.length) ∧
      core.chainFrom s.database feed c o s.onChainDatabase sources =
        .ok host.blockSyncer.onChainDatabase ∧
      (∀ k (source : Source), sources[k]? = some source → source.Of (blocks (o + 1 + k))) ∧
      (core.KeepsBlocks → core.Reproduces s.database feed c blocks →
        (∀ h ≤ o, core.block s.onChainDatabase h = .ok (blocks h)) →
        (∀ h ≤ o + sources.length,
          core.block host.blockSyncer.onChainDatabase h = .ok (blocks h)) ∧
        ∃ latest, host.blockSyncer.compressionLatestHeight = some latest ∧
          host.blockSyncer.compressionLatestDaHeight = .ok (blocks latest).daHeight) := by
  have hbuilding : Building lib message posted feed blocks s c o host := by
    apply run.invariant (motive := Building lib message posted feed blocks s c o)
    · exact ⟨⟨⟨hs, fun x hx => (by cases hx)⟩, fun x hx => (by cases hx), 0, rfl⟩, .rest⟩
    · intro host after e h he hst
      exact h.step hontop habove hkeeps honest hfeed hc ho he (step_cases hst)
  obtain ⟨sources, hsources, hof⟩ := hbuilding.built
  have hheight := FuelCore.chainFrom_height hontop ho hsources
  refine ⟨sources, hheight, hsources, hof, fun hkept hsame hblocks => ?_⟩
  obtain ⟨_, ho', hle⟩ := hs c hc
  obtain rfl := Option.some.inj (ho.symm.trans ho')
  have hall := FuelCore.chainFrom_blocks hontop hkept hsame hle ho hblocks hof hsources
  refine ⟨hall, ?_⟩
  obtain ⟨n, hn⟩ := hbuilding.archiving.archive
  have hlatest := core.archiveFrom_height habove hfeed hc hn
  obtain ⟨o', ho', hwithin⟩ := hbuilding.archiving.steady.behind _ hlatest
  obtain rfl := Option.some.inj (hheight.symm.trans ho')
  refine ⟨c + n, hlatest, ?_⟩
  have hlatest' : host.blockSyncer.compressionLatestHeight = some (c + n) := hlatest
  simp only [compressionLatestDaHeight, hlatest', hall _ hwithin, Except.map]

/-- Empty blocks, as they are sealed and as they are made of bare ones. -/
def emptyBlock (height : Nat) : FuelBlock := ⟨height, 0, []⟩

theorem plainNode_answersFeed (tip : Nat) :
    AnswersFeed (untroubled (FuelClient.plainNode tip)) Delivery.bareBlock := by
  intro k height found h
  by_cases hle : height ≤ tip
  · exact Option.some.inj (FuelClient.plainNode_answers hle h)
  · obtain ⟨answer, hask, hdecode⟩ := h
    have hnone : answer = none := by
      have := Except.ok.inj hask
      rwa [if_neg hle, eq_comm] at this
    rw [hnone] at hdecode
    cases Except.ok.inj hdecode

theorem plainNode_answersChain (tip : Nat) :
    AnswersChain (untroubled (FuelClient.plainNode tip)) emptyBlock := by
  intro k range found h block hm
  obtain ⟨chainId, request, results, height, -, -, hread⟩ := FuelClient.blocksFor_read h hm
  obtain rfl := Except.ok.inj hread
  rfl

theorem plainCore_reproduces (database : List Nat) (c : Nat) :
    plainCore.Reproduces database Delivery.bareBlock c emptyBlock := by
  intro o compressionConfig archive chain decompressed mint result changes _ _ _ _ hd _ hp
  obtain rfl := Except.ok.inj hd
  obtain ⟨rfl, -⟩ := Prod.mk.inj (Except.ok.inj hp)
  rfl

/-- DA adds block 2, and after a crash the sentry block 3. -/
theorem lives_build_one_chain_of_both :
    ∃ (host : Host plainCore (HeaderV1 × UInt8)) (sources : List Source),
      OnChain Nat plainLibraries (fun _ => "refused") (fun _ => True) Delivery.bareBlock emptyBlock
        ⟨plainSyncer 2 [1], none⟩ host ∧
      sources.length = 2 ∧ host.blockSyncer.compressionLatestHeight = some 2 ∧
      plainCore.chainFrom [1] Delivery.bareBlock 1 1 (plainSyncer 2 [1]).onChainDatabase sources =
        .ok host.blockSyncer.onChainDatabase ∧
      (∀ h ≤ 3, plainCore.block host.blockSyncer.onChainDatabase h = .ok (emptyBlock h)) := by
  obtain ⟨x, hmoves, hnext⟩ : ∃ x, Run (Pipeline.step plainLibraries (fun _ => "refused"))
      (fun _ e => inner e = true) (Pipeline.start ⟨"", "", [], 0, 2⟩) x ∧
      x.outlet.next?.map Prod.fst = some (.ok ⟨2, 0, [], []⟩) :=
    Run.exists_of_drive (oneBlock "0012") (by decide)
  obtain ⟨⟨_, outlet⟩, next, rfl⟩ := Option.map_eq_some_iff.mp hnext
  have hlife : OnChain Nat plainLibraries (fun _ => "refused") (fun _ => True) Delivery.bareBlock
      emptyBlock ⟨plainSyncer 2 [1], some (Pipeline.start ⟨"", "", [], 0, 2⟩)⟩
      ⟨plainSyncer 2 [1], some x⟩ :=
    run_stream _ (fun _ e own => ⟨own, fun z _ => Pipeline.fromPosted_anything plainLibraries z e,
      fun _ _ _ _ he => by cases he⟩) hmoves
  have hquiet : ∀ host : Host plainCore (HeaderV1 × UInt8), ∀ tip,
      WindowReaches (host.blockSyncer.reopen 86400) (untroubled (FuelClient.plainNode tip)) →
      (Event.boot 86400 ⟨"", "", [], 0, 0⟩ (untroubled (FuelClient.plainNode tip))
        (untroubled (FuelClient.plainNode tip))).OfChain plainLibraries (fun _ => True)
          Delivery.bareBlock emptyBlock host := by
    intro host tip hwindow
    refine ⟨⟨plainNode_answersFeed tip, hwindow⟩, ?_⟩
    intro retention settings aroundBlocks aroundCompression he
    cases he
    exact plainNode_answersChain tip
  have hfirst : WindowReaches ((plainSyncer 2 [1]).reopen 86400)
      (untroubled (FuelClient.plainNode 1)) := by
    intro mid target c hblocks htarget hheight
    obtain ⟨-, rfl⟩ := EStateM.Result.ok.inj hblocks
    obtain rfl := Except.ok.inj htarget
    exact ⟨by decide, (show 1 - 86400 ≤ 0 by decide).trans (Nat.zero_le _)⟩
  have hsecond : WindowReaches ((plainSyncer 3 [1, 2]).reopen 86400)
      (untroubled (FuelClient.plainNode 4)) := by
    intro mid target c hblocks htarget hheight
    obtain ⟨-, rfl⟩ := EStateM.Result.ok.inj hblocks
    obtain rfl := Except.ok.inj htarget
    exact ⟨by decide, (show 3 - 86400 ≤ 0 by decide).trans (Nat.zero_le _)⟩
  have himports : OnChain Nat plainLibraries (fun _ => "refused") (fun _ => True)
      Delivery.bareBlock emptyBlock ⟨plainSyncer 2 [1], none⟩
      ⟨plainSyncer 3 [1, 2], some { x with outlet }⟩ := by
    refine Run.next (e := .wake (.item Faults.none))
      (.trans (.next (e := .boot 86400 ⟨"", "", [], 0, 0⟩ (untroubled (FuelClient.plainNode 1))
        (untroubled (FuelClient.plainNode 1))) .start (hquiet _ 1 hfirst) rfl) hlife)
        ⟨trivial, fun _ _ _ _ he => by cases he⟩ ?_
    simp only [Host.step, Host.run, next]
    rfl
  have hdies : OnChain Nat plainLibraries (fun _ => "refused") (fun _ => True) Delivery.bareBlock
      emptyBlock ⟨plainSyncer 2 [1], none⟩ ⟨plainSyncer 3 [1, 2], none⟩ :=
    himports.next (e := .crash) ⟨trivial, fun _ _ _ _ he => by cases he⟩ rfl
  have run : OnChain Nat plainLibraries (fun _ => "refused") (fun _ => True) Delivery.bareBlock
      emptyBlock ⟨plainSyncer 2 [1], none⟩
      ⟨plainSyncer 4 [1, 2], some (Pipeline.start ⟨"", "", [], 0, 3⟩)⟩ :=
    hdies.next (e := .boot 86400 ⟨"", "", [], 0, 0⟩ (untroubled (FuelClient.plainNode 4))
      (untroubled (FuelClient.plainNode 4))) (hquiet _ 4 hsecond) rfl
  obtain ⟨sources, hheight, hsources, -, hsame⟩ := lives_build_one_chain plainCore
    plainCore_commitsOnTop plainCore_commitsAbove plainCore_keepsHeight Nat (HeaderV1 × UInt8)
    plainLibraries (fun _ => "refused") (fun _ => True) Delivery.bareBlock plainLibraries_honest
    (fun _ => rfl) emptyBlock (plainSyncer 2 [1]) 1 1 oneAhead_behind rfl rfl _ run
  have hlength : sources.length = 2 := by
    have hthree : 3 = 1 + sources.length := Option.some.inj hheight
    omega
  obtain ⟨hall, -⟩ := hsame plainCore_keepsBlocks (plainCore_reproduces [1] 1) (by
    intro h hle
    rcases Nat.le_one_iff_eq_zero_or_eq_one.mp hle with rfl | rfl <;> rfl)
  rw [hlength] at hall
  exact ⟨_, sources, run, hlength, rfl, hsources, hall⟩

end Host
end Watchtower.Cli
