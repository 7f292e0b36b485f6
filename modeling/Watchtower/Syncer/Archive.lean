import Watchtower.Syncer.CommitLog
import Watchtower.Syncer.Redelivery

namespace Watchtower.Syncer
open Lib

namespace FuelCore

/-- The compression database with the data of one more block. -/
def archive (core : FuelCore) (database : core.Compression) (block : VersionedCompressedBlock) :
    Except Error core.Compression :=
  match core.writeToRegistry database block.registrations block.time with
  | .error err => .error err
  | .ok registry =>
    core.commitCompression database ⟨SortedMap.empty.insert block.height block, registry⟩

/-- With the data of `count` blocks of the feed, from height `next` on. -/
def archiveFrom (core : FuelCore) (database : core.Compression)
    (feed : Nat → VersionedCompressedBlock) (next : Nat) : Nat → Except Error core.Compression
  | 0 => .ok database
  | count + 1 =>
    match core.archive database (feed next) with
    | .error err => .error err
    | .ok database => archiveFrom core database feed (next + 1) count

variable {core : FuelCore} {database mid database' : core.Compression}
  {feed : Nat → VersionedCompressedBlock} {next : Nat}

theorem archiveFrom_append {a b : Nat}
    (h : core.archiveFrom database feed next a = .ok mid)
    (h' : core.archiveFrom mid feed (next + a) b = .ok database') :
    core.archiveFrom database feed next (a + b) = .ok database' := by
  induction a generalizing database next with
  | zero =>
    obtain rfl := Except.ok.inj h
    rwa [Nat.zero_add]
  | succ a ih =>
    rw [Nat.succ_add]
    unfold archiveFrom at h ⊢
    split at h
    · contradiction
    · rename_i first hfirst
      rw [← Nat.add_assoc, Nat.add_right_comm] at h'
      exact ih h h'

theorem archiveFrom_one (h : core.archive database (feed next) = .ok database') :
    core.archiveFrom database feed next 1 = .ok database' := by
  simp only [archiveFrom, h]

theorem archive_height (habove : core.CommitsAbove) {block : VersionedCompressedBlock}
    (h : core.archive database block = .ok database') :
    core.compressionHeight database' = some block.height := by
  unfold archive at h
  split at h
  · contradiction
  · exact (habove h).2

theorem archiveFrom_height (habove : core.CommitsAbove) (hfeed : ∀ h, (feed h).height = h)
    {c n : Nat} (hc : core.compressionHeight database = some c)
    (h : core.archiveFrom database feed (c + 1) n = .ok database') :
    core.compressionHeight database' = some (c + n) := by
  induction n generalizing database c with
  | zero =>
    obtain rfl := Except.ok.inj h
    exact hc
  | succ n ih =>
    unfold archiveFrom at h
    split at h
    · contradiction
    · rename_i first hfirst
      have hnow := archive_height habove hfirst
      rw [hfeed] at hnow
      rw [ih hnow h]
      congr 1
      omega

end FuelCore

namespace BlockSyncer

variable {core : FuelCore} {FullBlock : Type} {around : Surroundings FullBlock}
  {s t : BlockSyncer core} {block : VersionedCompressedBlock}
  {feed : Nat → VersionedCompressedBlock}

/-- The changes of a block, committed, are its data in the archive. -/
theorem archive_of_apply {changes : CompressionChanges core.RegistryChanges}
    {database' : core.Compression} (happly : s.applyCompression block = .ok changes)
    (hcommit : core.commitCompression s.database changes = .ok database') :
    core.archive s.database block = .ok database' := by
  unfold applyCompression at happly
  unfold FuelCore.archive
  split
  · rename_i err hwrite
    simp [hwrite, Except.map] at happly
  · rename_i registry hwrite
    simp only [hwrite, Except.map, Except.ok.injEq] at happly
    rw [happly]
    exact hcommit

theorem commitCompression_archives {fails : Faults} (h : s.commitCompression fails block = .ok t) :
    core.archive s.database block = .ok t.database := by
  unfold commitCompression at h
  split at h
  · contradiction
  · rename_i changes happly
    split at h
    · contradiction
    · rename_i database' hcommit
      obtain rfl := Except.ok.inj h
      exact archive_of_apply (Faults.attempt_ok happly) (Faults.attempt_ok hcommit)

theorem import_archives {fails : Faults} {c : Nat} (hc : s.compressionLatestHeight = some c)
    (hnext : block.height = c + 1) (h : s.importBlockFromDa fails block = .ok () t) :
    core.archive s.database block = .ok t.database := by
  obtain ⟨changes, chain', database', hprepared, hcommit, rfl⟩ := whole_of_ok hc hnext h
  exact archive_of_apply hprepared.apply hcommit

/-- A log of blocks of the feed, one after the other, is an archive of them. -/
theorem Replays.archives {log : List (Nat × VersionedCompressedBlock)} {next n : Nat}
    (h : Replays around s log t) (hlog : log.map Prod.snd = (List.range' next n).map feed) :
    core.archiveFrom s.database feed next n = .ok t.database := by
  induction h generalizing next n with
  | nothing s =>
    have hn : n = 0 := by simpa using congrArg List.length hlog.symm
    subst hn
    rfl
  | @commit s mid t i block log first _ ih =>
    cases n with
    | zero => simp at hlog
    | succ n =>
      rw [List.range'_succ, List.map_cons, List.map_cons] at hlog
      obtain ⟨hblock, hrest⟩ := List.cons.inj hlog
      simp only [FuelCore.archiveFrom, ← hblock, commitCompression_archives first]
      exact ih hrest

/-- The blocks committed are those of the feed from above the compression data
on, when the sentry answers with no others and the window reaches back that far. -/
theorem compressionCommitted_feed {target c : Nat} (hmax : target ≤ u32Max)
    (hc : s.compressionLatestHeight = some c) (hwindow : target - s.compressionConfig ≤ c + 1)
    (hfeed : ∀ k height found, (around.sentryAt k).Answers height (some found) →
      found = feed height) :
    ∃ n, (s.compressionCommitted around target).map Prod.snd =
      (List.range' (c + 1) n).map feed := by
  unfold compressionCommitted
  split
  · exact ⟨0, rfl⟩
  · have hlowest : s.lowestHeight target = c + 1 := by
      simp only [lowestHeight, hc, Option.getD_some]
      omega
    rw [hc]
    obtain ⟨n, hplaces⟩ := committed_places_of_some around s c 0
      (s.compressionReceived around target)
    refine ⟨n, ?_⟩
    have hentries : ∀ entry ∈ s.committed around (some c) 0
        (s.compressionReceived around target), entry.2 = feed (c + 1 + entry.1) := by
      intro entry hentry
      obtain ⟨k, hk, hr⟩ := mem_committed hentry
      obtain ⟨-, chunk, hanswer⟩ := received_lowest hmax hr
      rw [hlowest] at hanswer
      rw [hk, Nat.zero_add]
      exact hfeed chunk _ _ hanswer
    rw [List.map_congr_left hentries, ← Nat.add_zero (c + 1), ← List.map_add_range', ← hplaces,
      List.map_map, List.map_map]
    rfl

/-- So the whole call leaves an archive of the feed, however it ends. -/
theorem syncCompression_archives {target c : Nat} (htarget : s.onChainLatestHeight = .ok target)
    (hmax : target ≤ u32Max) (hc : s.compressionLatestHeight = some c)
    (hwindow : target - s.compressionConfig ≤ c + 1)
    (hfeed : ∀ k height found, (around.sentryAt k).Answers height (some found) →
      found = feed height) :
    ∃ n, core.archiveFrom s.database feed (c + 1) n =
      .ok (finalState (s.syncCompressionFromGraphql around)).database := by
  obtain ⟨n, hlog⟩ := compressionCommitted_feed hmax hc hwindow hfeed
  exact ⟨n, (syncCompression_replays htarget).archives hlog⟩

/-- The sync of blocks does not touch the compression data. -/
theorem executeReceived_database (around : Surroundings FullBlock) (s : BlockSyncer core) (i : Nat)
    (blocks : List SealedBlock) :
    (finalState (s.executeReceived around i blocks)).database = s.database ∧
      (finalState (s.executeReceived around i blocks)).compressionConfig =
        s.compressionConfig := by
  induction blocks generalizing s i with
  | nil =>
    unfold executeReceived
    split <;> exact ⟨rfl, rfl⟩
  | cons block rest ih =>
    unfold executeReceived
    split
    · exact ⟨rfl, rfl⟩
    · split
      · exact ⟨rfl, rfl⟩
      · split
        · exact ⟨rfl, rfl⟩
        · rename_i onChainDatabase _
          exact ih { s with onChainDatabase } (i + 1)

theorem syncAsMuchAsPossible_database (around : Surroundings FullBlock) (s : BlockSyncer core) :
    (finalState (s.syncAsMuchAsPossibleFromGraphql around)).database = s.database ∧
      (finalState (s.syncAsMuchAsPossibleFromGraphql around)).compressionConfig =
        s.compressionConfig := by
  unfold syncAsMuchAsPossibleFromGraphql
  split
  · exact ⟨rfl, rfl⟩
  · split
    · exact ⟨rfl, rfl⟩
    · exact executeReceived_database around s 0 _

end BlockSyncer
end Watchtower.Syncer
