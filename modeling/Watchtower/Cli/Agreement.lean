import Watchtower.Cli.Lives
import Watchtower.Downloader.Genuine
import Watchtower.Syncer.Redelivery

namespace Watchtower.Syncer
open Lib

namespace BlockSyncer

variable {core : FuelCore} {s t : BlockSyncer core} {block : VersionedCompressedBlock}

/-- A failed import has not touched the compression data. -/
theorem import_error_database {fails : Faults} {err : Error}
    (h : s.importBlockFromDa fails block = .error err t) : t.database = s.database := by
  have hcases := importBlockFromDa_cases s fails block
  rw [h] at hcases
  cases hcases with
  | failed | halfway => rfl

end BlockSyncer

namespace Delivery
open BlockSyncer

/-- The blocks of the feed above `c`, `n` of them, import straight through. -/
structure Straight (core : FuelCore) (s t : BlockSyncer core)
    (feed : Nat → VersionedCompressedBlock) (c n : Nat) : Prop where
  onTop : core.CommitsOnTop
  above : core.CommitsAbove
  heights : ∀ h ≤ c + n, (feed h).height = h
  start : s.compressionLatestHeight = some c
  behind : s.Behind
  all : s.importFrom feed (c + 1) n = .ok () t

variable {core : FuelCore} {s t : BlockSyncer core} {feed : Nat → VersionedCompressedBlock}
  {c n : Nat} {d e : Delivery core} {a : Attempt}

theorem OnTrack.goes_on (straight : Straight core s t feed c n) (h : OnTrack s feed c n d)
    (hstep : Delivery.step feed (c + n) d a = some e) : OnTrack s feed c n e :=
  h.step straight.onTop straight.above straight.heights straight.start straight.behind
    straight.all hstep

/-- How far a delivery has come shows in the compression data. -/
theorem OnTrack.stands (straight : Straight core s t feed c n) (h : OnTrack s feed c n d) :
    d.syncer.Behind ∧ ∃ j u, j ≤ n ∧ d.syncer.compressionLatestHeight = some (c + j) ∧
      s.importFrom feed (c + 1) j = .ok () u ∧
      (d.syncer = u ∨ ∃ v, s.importFrom feed (c + 1) (j + 1) = .ok () v ∧ j < n ∧
        d.syncer = u.halfway v) := by
  obtain ⟨j, u, hj, -, hu, hcase⟩ := h
  have hreach : ∀ {k w}, k ≤ n → s.importFrom feed (c + 1) k = .ok () w →
      w.compressionLatestHeight = some (c + k) ∧ w.Behind :=
    fun hk hw => importFrom_next straight.onTop straight.above
      (fun h hle => straight.heights h (by omega)) straight.start straight.behind hw
  obtain ⟨huc, hub⟩ := hreach hj hu
  rcases hcase with rfl | ⟨v, hv, hjn, hd⟩
  · exact ⟨hub, j, _, hj, huc, hu, Or.inl rfl⟩
  · obtain ⟨hvc, hvb⟩ := hreach hjn hv
    refine ⟨?_, j, u, hj, ?_, hu, Or.inr ⟨v, hv, hjn, hd⟩⟩
    · rw [hd]
      exact hvb.halfway huc hvc
    · rw [hd]
      exact huc

end Delivery
end Watchtower.Syncer

namespace Watchtower.Cli
open Lib Syncer Downloader BlockSyncer

namespace Host

variable {core : FuelCore} {FullBlock Blob : Type} {lib : Libraries Blob}
  {message : Queue.Failure → Error} {posted : Blob → Prop}
  {feed : Nat → VersionedCompressedBlock} {s t : BlockSyncer core} {c n : Nat}
  {host after : Host core Blob}

/-- Nothing but DA moves the databases: the sentry has nothing new when a
process is started, the beacon node passes off no blobs that were not posted,
and blocks above `last` are not there yet. -/
def Event.FromDa (lib : Libraries Blob) (posted : Blob → Prop) (last : Nat)
    (host : Host core Blob) : Event FullBlock → Prop
  | .boot compressionConfig downloaderConfig aroundBlocks aroundCompression =>
    finalState (UninitializedTask.prepare
      ⟨host.blockSyncer.reopen compressionConfig, downloaderConfig⟩ aroundBlocks
      aroundCompression) = host.blockSyncer
  | .stream e => ∀ x, host.streamFromDa = some x → Pipeline.FromPosted lib posted x e
  | .wake woken => ∀ block, host.handed woken = some block → block.height ≤ last
  | .crash => True

/-- The databases are on the way of the blocks of the feed, and the task that
runs has the next of them coming. -/
structure Agrees (lib : Libraries Blob) (message : Queue.Failure → Error) (posted : Blob → Prop)
    (s : BlockSyncer core) (feed : Nat → VersionedCompressedBlock) (c n : Nat)
    (host : Host core Blob) : Prop where
  track : ∃ k, host.blockSyncer.compressionLatestHeight = some k ∧
    Delivery.OnTrack s feed c n ⟨host.blockSyncer, k + 1⟩
  living : ∀ x, host.streamFromDa = some x → Pipeline.Untainted lib posted feed x ∧
    ∃ config, Living lib message config host.blockSyncer x

/-- The block up next is the one of the feed. -/
theorem next_of_feed {config : Config} {x : Pipeline Blob} {block : VersionedCompressedBlock}
    {outlet : Outlet 1024 Error VersionedCompressedBlock}
    (huntainted : Pipeline.Untainted lib posted feed x) (hliving : Living lib message config s x)
    (next : x.outlet.next? = some (.ok block, outlet)) : block = feed block.height := by
  apply huntainted.downloader.sent
  apply Pipeline.sent_of_received (Pipeline.run_sound (hliving.takes next))
  rw [(Outlet.next?_spec next).1]
  exact List.mem_append_right _ (List.mem_singleton_self _)

/-- A wake that imports is a step of the delivery. -/
theorem Agrees.delivers (straight : Delivery.Straight core s t feed c n)
    (h : Agrees lib message posted s feed c n host) (fails : Faults)
    {x : Pipeline Blob} {block : VersionedCompressedBlock}
    {outlet : Outlet 1024 Error VersionedCompressedBlock}
    (on : host.streamFromDa = some x) (next : x.outlet.next? = some (.ok block, outlet))
    (hlast : block.height ≤ c + n) :
    ∃ k, host.blockSyncer.compressionLatestHeight = some k ∧ block.height = k + 1 ∧
      (∀ u, host.blockSyncer.importBlockFromDa fails block = .ok () u →
        Delivery.OnTrack s feed c n ⟨u, k + 2⟩) ∧
      ∀ err u, host.blockSyncer.importBlockFromDa fails block = .error err u →
        Delivery.OnTrack s feed c n ⟨u, k + 1⟩ := by
  obtain ⟨k, hk, htrack⟩ := h.track
  obtain ⟨huntainted, config, hliving⟩ := h.living x on
  obtain ⟨k', hk', hheight⟩ := hliving.next_height next
  obtain rfl := Option.some.inj (hk.symm.trans hk')
  have hblock : feed (k + 1) = block := by
    rw [← hheight]
    exact (next_of_feed huntainted hliving next).symm
  have hnot : ¬ c + n < k + 1 := by omega
  refine ⟨k, hk, hheight, fun u hu => ?_, fun err u hu => ?_⟩
  · refine htrack.goes_on (a := ⟨fails, 0⟩) straight ?_
    simp only [Delivery.step, if_neg hnot, hblock, hu]
  · refine htrack.goes_on (a := ⟨fails, k + 1⟩) straight ?_
    simp only [Delivery.step, if_neg hnot, hblock, hu, Nat.le_refl, if_true]

theorem Agrees.step (straight : Delivery.Straight core s t feed c n)
    (honest : Honest lib posted feed) (h : Agrees lib message posted s feed c n host)
    {e : Event FullBlock} (he : e.FromDa lib posted (c + n) host)
    (hst : Stepped lib message host e after) : Agrees lib message posted s feed c n after := by
  cases hst with
  | @refused retention settings aroundBlocks aroundCompression err u off ended =>
    have hsame : u = host.blockSyncer := by
      have hrests : finalState _ = host.blockSyncer := he
      rwa [ended] at hrests
    exact ⟨hsame ▸ h.track, fun x hx => by cases hx⟩
  | @booted retention settings config aroundBlocks aroundCompression u off ready =>
    have hsame : u = host.blockSyncer := by
      have hrests : finalState _ = host.blockSyncer := he
      rwa [ready] at hrests
    obtain ⟨mid, hprepared⟩ := prepare_ok ready
    obtain ⟨k, hk, hlt, hnext⟩ := hprepared.next
    refine ⟨hsame ▸ h.track, fun x hx => ?_⟩
    obtain rfl := Option.some.inj hx
    exact ⟨Pipeline.start_untainted lib posted feed config, config, start_living hk hlt hnext⟩
  | stopped | crash => exact ⟨h.track, fun x hx => by cases hx⟩
  | @stream e x y on own moves =>
    obtain ⟨huntainted, config, hliving⟩ := h.living x on
    refine ⟨h.track, fun z hz => ?_⟩
    obtain rfl := Option.some.inj hz
    exact ⟨huntainted.step honest (he x on) moves, config, hliving.moves own moves⟩
  | @failed fails x block outlet err u on next run =>
    have hlast : block.height ≤ c + n := he block (by simp [handed, on, next])
    obtain ⟨k, hk, -, -, herror⟩ := h.delivers straight fails on next hlast
    refine ⟨⟨k, ?_, herror err u run⟩, fun z hz => by cases hz⟩
    rw [BlockSyncer.compressionLatestHeight, import_error_database run]
    exact hk
  | @imported fails x block outlet u on next run =>
    have hlast : block.height ≤ c + n := he block (by simp [handed, on, next])
    obtain ⟨k, hk, hheight, hok, -⟩ := h.delivers straight fails on next hlast
    obtain ⟨_, -, htrack⟩ := h.track
    have hbehind : host.blockSyncer.Behind := (htrack.stands straight).1
    obtain ⟨hnow, -⟩ := hbehind.import_next straight.onTop straight.above hk hheight run
    refine ⟨⟨k + 1, hnow, hok u run⟩, fun z hz => ?_⟩
    obtain rfl := Option.some.inj hz
    obtain ⟨huntainted, config, hliving⟩ := h.living x on
    exact ⟨huntainted.still rfl rfl, config,
      hliving.imports straight.onTop straight.above hbehind next run⟩

theorem start_agrees (straight : Delivery.Straight core s t feed c n) :
    Agrees lib message posted s feed c n (⟨s, none⟩ : Host core Blob) :=
  ⟨⟨c, straight.start, 0, s, Nat.zero_le n, Nat.le_refl _, rfl, Or.inl rfl⟩,
    fun x hx => by cases hx⟩

/-- The runs in which nothing but DA moves the databases. -/
abbrev OnDa (FullBlock : Type) (lib : Libraries Blob) (message : Queue.Failure → Error)
    (posted : Blob → Prop) (last : Nat) (host after : Host core Blob) : Prop :=
  Run (Host.step lib message) (fun host (e : Event FullBlock) => e.FromDa lib posted last host)
    host after

/-- Over any number of lives that live on DA alone, whatever fails and wherever
each of them ends, the databases are those that the blocks of the feed leave
when they are imported straight through, up to the height of the compression
data, or halfway into the next of them. -/
theorem lives_agree (core : FuelCore) (hontop : core.CommitsOnTop) (habove : core.CommitsAbove)
    (FullBlock Blob : Type) (lib : Libraries Blob) (message : Queue.Failure → Error)
    (posted : Blob → Prop) (feed : Nat → VersionedCompressedBlock)
    (honest : Honest lib posted feed) (s t : BlockSyncer core) (c n : Nat)
    (hfeed : ∀ h ≤ c + n, (feed h).height = h) (hc : s.compressionLatestHeight = some c)
    (hs : s.Behind) (hall : s.importFrom feed (c + 1) n = .ok () t) (host : Host core Blob)
    (run : OnDa FullBlock lib message posted (c + n) ⟨s, none⟩ host) :
    ∃ j u, j ≤ n ∧ host.blockSyncer.compressionLatestHeight = some (c + j) ∧
      s.importFrom feed (c + 1) j = .ok () u ∧
      (host.blockSyncer = u ∨ ∃ v, s.importFrom feed (c + 1) (j + 1) = .ok () v ∧ j < n ∧
        host.blockSyncer = { u with onChainDatabase := v.onChainDatabase }) ∧
      (j = n → host.blockSyncer = t) := by
  have straight : Delivery.Straight core s t feed c n := ⟨hontop, habove, hfeed, hc, hs, hall⟩
  have hagrees : Agrees lib message posted s feed c n host := by
    apply run.invariant (motive := Agrees lib message posted s feed c n)
      (start_agrees straight)
    intro host after e h he hst
    exact h.step straight honest he (step_cases hst)
  obtain ⟨k, -, htrack⟩ := hagrees.track
  obtain ⟨-, j, u, hj, hheight, hu, hcase⟩ := htrack.stands straight
  refine ⟨j, u, hj, hheight, hu, hcase, fun hdone => ?_⟩
  subst hdone
  rcases hcase with hd | ⟨v, -, hlt, -⟩
  · exact hd.trans (EStateM.Result.ok.inj (hu.symm.trans hall)).2
  · omega

/-- The first life dies between the two commits of the block of height 2, the
second starts on what it left. -/
theorem lives_agree_halfway :
    ∃ host : Host plainCore (HeaderV1 × UInt8),
      OnDa Unit plainLibraries (fun _ => "refused") (fun _ => True) (1 + 1)
        ⟨plainSyncer 2 [1], none⟩ host ∧
      host.blockSyncer.compressionLatestHeight = some 2 ∧
      host.blockSyncer = plainSyncer 3 [1, 2] := by
  obtain ⟨x, hmoves, hnext⟩ : ∃ x, Run (Pipeline.step plainLibraries (fun _ => "refused"))
      (fun _ e => inner e = true) (Pipeline.start ⟨"", "", [], 0, 2⟩) x ∧
      x.outlet.next?.map Prod.fst = some (.ok ⟨2, 0, [], []⟩) :=
    Run.exists_of_drive (oneBlock "0012") (by decide)
  obtain ⟨⟨_, outlet⟩, next, rfl⟩ := Option.map_eq_some_iff.mp hnext
  have hlife : ∀ s : BlockSyncer plainCore,
      OnDa Unit plainLibraries (fun _ => "refused") (fun _ => True) (1 + 1)
        ⟨s, some (Pipeline.start ⟨"", "", [], 0, 2⟩)⟩ ⟨s, some x⟩ :=
    fun s => run_stream s
      (fun _ e own => ⟨own, fun z _ => Pipeline.fromPosted_anything plainLibraries z e⟩) hmoves
  have hlast : ∀ (s : BlockSyncer plainCore) fails block,
      Host.handed ⟨s, some x⟩ (.item fails) = some block → block.height ≤ 1 + 1 := by
    intro s fails block hhanded
    simp only [handed, Option.bind_some, next] at hhanded
    exact Option.some.inj hhanded ▸ Nat.le_refl 2
  have hdies : OnDa Unit plainLibraries (fun _ => "refused") (fun _ => True) (1 + 1)
      ⟨plainSyncer 2 [1], none⟩ ⟨plainSyncer 3 [1], none⟩ := by
    refine Run.next (e := .wake (.item (Delivery.failsAt .commitCompression)))
      (.trans (.next (e := .boot 86400 ⟨"", "", [], 0, 0⟩ quiet quiet) .start rfl rfl)
        (hlife (plainSyncer 2 [1]))) (hlast _ _) ?_
    simp only [Host.step, Host.run, next]
    rfl
  have run : OnDa Unit plainLibraries (fun _ => "refused") (fun _ => True) (1 + 1)
      ⟨plainSyncer 2 [1], none⟩ ⟨plainSyncer 3 [1, 2], some { x with outlet }⟩ := by
    refine Run.next (e := .wake (.item Faults.none))
      (.trans (.next (e := .boot 86400 ⟨"", "", [], 0, 0⟩ quiet quiet) hdies rfl rfl)
        (hlife (plainSyncer 3 [1]))) (hlast _ _) ?_
    simp only [Host.step, Host.run, next]
    rfl
  obtain ⟨j, u, -, hheight, -, -, hdone⟩ := lives_agree plainCore plainCore_commitsOnTop
    plainCore_commitsAbove Unit (HeaderV1 × UInt8) plainLibraries (fun _ => "refused")
    (fun _ => True) _ plainLibraries_honest (plainSyncer 2 [1]) (plainSyncer 3 [1, 2]) 1 1
    (fun _ _ => rfl) rfl oneAhead_behind rfl _ run
  have hj : 2 = 1 + j := Option.some.inj hheight
  exact ⟨_, run, rfl, hdone (by omega)⟩

end Host
end Watchtower.Cli
