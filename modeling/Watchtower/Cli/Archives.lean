import Watchtower.Cli.Agreement
import Watchtower.Syncer.Archive

namespace Watchtower.Cli
open Lib Syncer Downloader BlockSyncer

variable {core : FuelCore} {FullBlock Blob : Type} {lib : Libraries Blob}
  {message : Queue.Failure → Error} {posted : Blob → Prop}
  {feed : Nat → VersionedCompressedBlock} {s : BlockSyncer core} {c : Nat}

/-- The sentry answers heights with nothing or with the blocks of the feed. -/
def AnswersFeed (around : Surroundings FullBlock) (feed : Nat → VersionedCompressedBlock) : Prop :=
  ∀ k height found, (around.sentryAt k).Answers height (some found) → found = feed height

/-- Once the blocks are synced, the retention window reaches back from the end
of the chain to the end of the compression data. -/
def WindowReaches (s : BlockSyncer core) (aroundBlocks : Surroundings FullBlock) : Prop :=
  ∀ mid target c, s.syncAsMuchAsPossibleFromGraphql aroundBlocks = .ok () mid →
    mid.onChainLatestHeight = .ok target → mid.compressionLatestHeight = some c →
    target ≤ u32Max ∧ target - mid.compressionConfig ≤ c + 1

/-- Whatever comes of the two syncs, they put blocks of the feed in the archive,
from the first one that is not there yet. -/
theorem prepare_archives (task : UninitializedTask core)
    (aroundBlocks aroundCompression : Surroundings FullBlock)
    (hc : task.blockSyncer.compressionLatestHeight = some c)
    (hfeed : AnswersFeed aroundCompression feed)
    (hwindow : WindowReaches task.blockSyncer aroundBlocks) :
    ∃ n, core.archiveFrom task.blockSyncer.database feed (c + 1) n =
      .ok (finalState (task.prepare aroundBlocks aroundCompression)).database := by
  obtain ⟨hdatabase, -⟩ := syncAsMuchAsPossible_database aroundBlocks task.blockSyncer
  unfold UninitializedTask.prepare
  cases hblocks : task.blockSyncer.syncAsMuchAsPossibleFromGraphql aroundBlocks with
  | error err mid =>
    rw [hblocks] at hdatabase
    exact ⟨0, congrArg Except.ok hdatabase.symm⟩
  | ok _ mid =>
    rw [hblocks] at hdatabase
    have hmid : mid.compressionLatestHeight = some c := by
      rw [compressionLatestHeight, show mid.database = task.blockSyncer.database from hdatabase]
      exact hc
    have harchives : ∃ n, core.archiveFrom task.blockSyncer.database feed (c + 1) n =
        .ok (finalState (mid.syncCompressionFromGraphql aroundCompression)).database := by
      rw [← show mid.database = task.blockSyncer.database from hdatabase]
      cases htarget : mid.onChainLatestHeight with
      | error err => exact ⟨0, by simp only [syncCompressionFromGraphql, htarget]; rfl⟩
      | ok target =>
        obtain ⟨hmax, hreaches⟩ := hwindow mid target c hblocks htarget hmid
        exact syncCompression_archives htarget hmax hmid hreaches hfeed
    simp only
    generalize mid.syncCompressionFromGraphql aroundCompression = outcome at harchives ⊢
    cases outcome with
    | error err after => exact harchives
    | ok _ after =>
      simp only
      split
      · exact harchives
      · split
        · exact harchives
        · split <;> exact harchives

namespace Host

variable {host after : Host core Blob}

/-- Every block that comes from somewhere is one of the feed. -/
def Event.OfFeed (lib : Libraries Blob) (posted : Blob → Prop)
    (feed : Nat → VersionedCompressedBlock) (host : Host core Blob) : Event FullBlock → Prop
  | .boot compressionConfig _ aroundBlocks aroundCompression =>
    AnswersFeed aroundCompression feed ∧
      WindowReaches (host.blockSyncer.reopen compressionConfig) aroundBlocks
  | .stream e => ∀ x, host.streamFromDa = some x → Pipeline.FromPosted lib posted x e
  | .wake _ | .crash => True

theorem Event.OfFeed.honest (hfeed : ∀ h, (feed h).height = h) {e : Event FullBlock}
    (he : e.OfFeed lib posted feed host) : e.Honest := by
  cases e with
  | boot compressionConfig downloaderConfig aroundBlocks aroundCompression =>
    intro k height bytes block hask hread
    have hanswer : (aroundCompression.sentryAt k).Answers height (some block) :=
      ⟨some bytes, hask, by simp only [FuelClient.decodeCompressed, hread, Except.map]⟩
    rw [he.1 k height block hanswer, hfeed]
  | stream | wake | crash => trivial

/-- The archive holds the blocks of the feed from above `c` on, and the task
that runs has none but these. -/
structure Archiving (lib : Libraries Blob) (message : Queue.Failure → Error)
    (posted : Blob → Prop) (feed : Nat → VersionedCompressedBlock) (database : core.Compression)
    (c : Nat) (host : Host core Blob) : Prop where
  steady : Steady lib message host
  untainted : ∀ x, host.streamFromDa = some x → Pipeline.Untainted lib posted feed x
  archive : ∃ n, core.archiveFrom database feed (c + 1) n = .ok host.blockSyncer.database

variable {database : core.Compression}

/-- More of the feed, from where the archive ends. -/
theorem Archiving.extend (habove : core.CommitsAbove) (hfeed : ∀ h, (feed h).height = h)
    (hc : core.compressionHeight database = some c)
    (h : Archiving lib message posted feed database c host) {database' : core.Compression}
    (hmore : ∀ k, host.blockSyncer.compressionLatestHeight = some k →
      ∃ n, core.archiveFrom host.blockSyncer.database feed (k + 1) n = .ok database') :
    ∃ n, core.archiveFrom database feed (c + 1) n = .ok database' := by
  obtain ⟨n, hn⟩ := h.archive
  obtain ⟨m, hm⟩ := hmore _ (core.archiveFrom_height habove hfeed hc hn)
  refine ⟨n + m, core.archiveFrom_append hn ?_⟩
  rwa [Nat.add_right_comm]

theorem Archiving.step (hontop : core.CommitsOnTop) (habove : core.CommitsAbove)
    (hkeeps : core.KeepsHeight) (honest : Honest lib posted feed)
    (hfeed : ∀ h, (feed h).height = h) (hc : core.compressionHeight database = some c)
    (h : Archiving lib message posted feed database c host) {e : Event FullBlock}
    (he : e.OfFeed lib posted feed host) (hst : Stepped lib message host e after) :
    Archiving lib message posted feed database c after := by
  refine ⟨h.steady.step hontop habove hkeeps (he.honest hfeed) hst, ?_, ?_⟩
  · cases hst with
    | refused | stopped | failed | crash => exact fun x hx => by cases hx
    | booted off ready =>
      intro x hx
      exact Option.some.inj hx ▸ Pipeline.start_untainted lib posted feed _
    | stream on own moves =>
      intro x hx
      exact Option.some.inj hx ▸ (h.untainted _ on).step honest (he _ on) moves
    | imported on next run =>
      intro x hx
      exact Option.some.inj hx ▸ (h.untainted _ on).still rfl rfl
  · cases hst with
    | stream | stopped | crash => exact h.archive
    | @refused retention settings aroundBlocks aroundCompression err u off ended =>
      refine h.extend habove hfeed hc (fun k hk => ?_)
      have hprepare := prepare_archives ⟨host.blockSyncer.reopen retention, settings⟩ aroundBlocks
        aroundCompression hk he.1 he.2
      rwa [ended] at hprepare
    | @booted retention settings config aroundBlocks aroundCompression u off ready =>
      refine h.extend habove hfeed hc (fun k hk => ?_)
      have hprepare := prepare_archives ⟨host.blockSyncer.reopen retention, settings⟩ aroundBlocks
        aroundCompression hk he.1 he.2
      rwa [ready] at hprepare
    | failed on next run =>
      obtain ⟨n, hn⟩ := h.archive
      exact ⟨n, by rw [hn, import_error_database run]⟩
    | imported on next run =>
      refine h.extend habove hfeed hc (fun k hk => ⟨1, ?_⟩)
      obtain ⟨config, hliving⟩ := h.steady.living _ on
      obtain ⟨k', hk', hheight⟩ := hliving.next_height next
      obtain rfl := Option.some.inj (hk.symm.trans hk')
      apply core.archiveFrom_one
      rw [← hheight, ← next_of_feed (h.untainted _ on) hliving next]
      exact import_archives hk hheight run

/-- The runs in which every block that comes from somewhere is one of the feed. -/
abbrev OnFeed (FullBlock : Type) (lib : Libraries Blob) (message : Queue.Failure → Error)
    (posted : Blob → Prop) (feed : Nat → VersionedCompressedBlock) (host after : Host core Blob) :
    Prop :=
  Run (Host.step lib message) (fun host (e : Event FullBlock) => e.OfFeed lib posted feed host)
    host after

/-- Over any number of lives, whatever the sentry and DA add to it in each and
wherever each of them ends, the compression database is the one that the blocks
of the feed make, one after the other and none left out, up to its height. -/
theorem lives_archive (core : FuelCore) (hontop : core.CommitsOnTop)
    (habove : core.CommitsAbove) (hkeeps : core.KeepsHeight) (FullBlock Blob : Type)
    (lib : Libraries Blob) (message : Queue.Failure → Error) (posted : Blob → Prop)
    (feed : Nat → VersionedCompressedBlock) (honest : Honest lib posted feed)
    (hfeed : ∀ h, (feed h).height = h) (s : BlockSyncer core) (c : Nat) (hs : s.Behind)
    (hc : s.compressionLatestHeight = some c) (host : Host core Blob)
    (run : OnFeed FullBlock lib message posted feed ⟨s, none⟩ host) :
    ∃ n, host.blockSyncer.compressionLatestHeight = some (c + n) ∧
      core.archiveFrom s.database feed (c + 1) n = .ok host.blockSyncer.database := by
  have harchiving : Archiving lib message posted feed s.database c host := by
    apply run.invariant (motive := Archiving lib message posted feed s.database c)
    · exact ⟨⟨hs, fun x hx => (by cases hx)⟩, fun x hx => (by cases hx), 0, rfl⟩
    · intro host after e h he hst
      exact h.step hontop habove hkeeps honest hfeed hc he (step_cases hst)
  obtain ⟨n, hn⟩ := harchiving.archive
  exact ⟨n, core.archiveFrom_height habove hfeed hc hn, hn⟩

/-- A sentry that has the compressed block of every height, but no others. -/
def plainAround : Surroundings Unit := untroubled (plainSentry some)

theorem plainAround_answersFeed : AnswersFeed plainAround Delivery.bareBlock := by
  intro k height found h
  obtain ⟨answer, hask, hdecode⟩ := h
  obtain rfl := Except.ok.inj hask
  obtain rfl := Option.some.inj (Except.ok.inj hdecode)
  simp only [Delivery.bareBlock, List.length_replicate]

/-- The sentry adds height 2, and DA height 3. -/
theorem lives_archive_both :
    ∃ (host : Host plainCore (HeaderV1 × UInt8)) (n : Nat),
      OnFeed Unit plainLibraries (fun _ => "refused") (fun _ => True) Delivery.bareBlock
        ⟨plainSyncer 4 [1], none⟩ host ∧
      host.blockSyncer.database = [1, 2, 3] ∧
      host.blockSyncer.compressionLatestHeight = some (1 + n) ∧
      plainCore.archiveFrom [1] Delivery.bareBlock 2 n = .ok host.blockSyncer.database := by
  obtain ⟨x, hmoves, hnext⟩ : ∃ x, Run (Pipeline.step plainLibraries (fun _ => "refused"))
      (fun _ e => inner e = true) (Pipeline.start ⟨"", "", [], 0, 3⟩) x ∧
      x.outlet.next?.map Prod.fst = some (.ok ⟨3, 0, [], []⟩) :=
    Run.exists_of_drive (oneBlock "0013") (by decide)
  obtain ⟨⟨_, outlet⟩, next, rfl⟩ := Option.map_eq_some_iff.mp hnext
  have hlife : OnFeed Unit plainLibraries (fun _ => "refused") (fun _ => True) Delivery.bareBlock
      ⟨plainSyncer 4 [1, 2], some (Pipeline.start ⟨"", "", [], 0, 3⟩)⟩
      ⟨plainSyncer 4 [1, 2], some x⟩ :=
    run_stream _
      (fun _ e own => ⟨own, fun z _ => Pipeline.fromPosted_anything plainLibraries z e⟩) hmoves
  have hwindow : WindowReaches ((plainSyncer 4 [1]).reopen 86400) plainAround := by
    intro mid target c hblocks htarget hheight
    obtain ⟨-, rfl⟩ := EStateM.Result.ok.inj hblocks
    obtain rfl := Except.ok.inj htarget
    exact ⟨by decide, (show 3 - 86400 ≤ 0 by decide).trans (Nat.zero_le _)⟩
  have run : OnFeed Unit plainLibraries (fun _ => "refused") (fun _ => True) Delivery.bareBlock
      ⟨plainSyncer 4 [1], none⟩ ⟨plainSyncer 4 [1, 2, 3], some { x with outlet }⟩ := by
    refine Run.next (e := .wake (.item Faults.none))
      (.trans (.next (e := .boot 86400 ⟨"", "", [], 0, 0⟩ plainAround plainAround) .start
        ⟨plainAround_answersFeed, hwindow⟩ rfl) hlife) trivial ?_
    simp only [Host.step, Host.run, next]
    rfl
  have hbehind : (plainSyncer 4 [1]).Behind := by
    intro height h
    obtain rfl : 1 = height := Option.some.inj h
    exact ⟨3, rfl, by decide⟩
  obtain ⟨n, hheight, harchive⟩ := lives_archive plainCore plainCore_commitsOnTop
    plainCore_commitsAbove plainCore_keepsHeight Unit (HeaderV1 × UInt8) plainLibraries
    (fun _ => "refused") (fun _ => True) Delivery.bareBlock plainLibraries_honest (fun _ => rfl)
    (plainSyncer 4 [1]) 1 hbehind rfl _ run
  exact ⟨_, n, run, rfl, hheight, harchive⟩

end Host
end Watchtower.Cli
