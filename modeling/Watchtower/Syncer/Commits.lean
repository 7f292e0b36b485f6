import Mathlib.Logic.Relation
import Watchtower.Lib.Result
import Watchtower.Syncer.BlockSyncer

namespace Watchtower.Syncer
open Lib

theorem Faults.attempt_ok {α : Type} {fails : Faults} {step : SyncStep}
    {outcome : Except Error α} {a : α} (h : fails.attempt step outcome = .ok a) :
    outcome = .ok a := by
  unfold Faults.attempt at h
  split at h
  · contradiction
  · exact h

theorem Faults.attempt_none {α : Type} (step : SyncStep) (outcome : Except Error α) :
    Faults.none.attempt step outcome = outcome := rfl

namespace BlockSyncer

variable {core : FuelCore} {s t : BlockSyncer core} {fails : Faults}
  {block : VersionedCompressedBlock}

theorem onChainLatestHeight_ok {height : Nat} :
    s.onChainLatestHeight = .ok height ↔ core.onChainHeight s.onChainDatabase = some height := by
  unfold onChainLatestHeight
  split <;> simp_all

/-- The changes of a block are of its height and no other. -/
theorem commitCompression_eq {changes : CompressionChanges core.RegistryChanges}
    (h : s.applyCompression block = .ok changes) (database : core.Compression) :
    core.commitCompression database changes =
      core.commitChangesWithHeightUpdate database changes [block.height] := by
  unfold applyCompression at h
  cases hw : core.writeToRegistry s.database block.registrations block.time with
  | error err => simp [hw, Except.map] at h
  | ok registry =>
    simp only [hw, Except.map, Except.ok.injEq] at h
    subst h
    rfl

/-- A block that is executed under faults comes out as it would without. -/
theorem executeBlock_faultless {chain' : core.OnChain}
    (h : s.executeBlock fails block = .ok chain') :
    s.executeBlock Faults.none block = .ok chain' := by
  unfold executeBlock at h ⊢
  simp only [Faults.attempt_none]
  split at h
  · contradiction
  · rename_i decompressed hd
    rw [Faults.attempt_ok hd]
    simp only
    split at h
    · contradiction
    · rename_i mint hm
      rw [Faults.attempt_ok hm]
      simp only
      split at h
      · contradiction
      · rename_i result changes hp
        rw [Faults.attempt_ok hp]
        exact Faults.attempt_ok h

/-- An executed block is committed, with the height of the compressed one where
decompression and execution keep it. -/
theorem executeBlock_commits {chain' : core.OnChain}
    (h : s.executeBlock fails block = .ok chain') :
    ∃ result changes, core.commitResult s.onChainDatabase result changes = .ok chain' ∧
      (core.KeepsHeight → result.sealedBlock.entity.height = block.height) := by
  have hfree := executeBlock_faultless h
  unfold executeBlock at hfree
  simp only [Faults.attempt_none] at hfree
  split at hfree
  · contradiction
  · rename_i decompressed hd
    split at hfree
    · contradiction
    · rename_i mint hm
      split at hfree
      · contradiction
      · rename_i result changes hp
        refine ⟨importResult result, changes, hfree, fun hkeeps => ?_⟩
        exact (hkeeps.produce hp).trans (hkeeps.decompress hd)

/-- What an import has ready when it comes to the commit of the compression
changes: the changes, and the chain with the block on it, executed or there before. -/
structure Prepared (s : BlockSyncer core) (block : VersionedCompressedBlock)
    (changes : CompressionChanges core.RegistryChanges) (chain' : core.OnChain) : Prop where
  fresh : ∃ onChainHeight, core.onChainHeight s.onChainDatabase = some onChainHeight ∧
    s.alreadyKnown block.height onChainHeight = false ∧
    (block.height ≤ onChainHeight ∧ chain' = s.onChainDatabase ∨
      onChainHeight < block.height ∧ s.executeBlock Faults.none block = .ok chain')
  apply : s.applyCompression block = .ok changes

/-- Everything `import_block_from_da` can come to, whatever fails. -/
inductive Imports (s : BlockSyncer core) (block : VersionedCompressedBlock) :
    EStateM.Result Error (BlockSyncer core) Unit → Prop where
  | failed (err : Error) : Imports s block (.error err s)
  | known (onChainHeight : Nat) (chain : core.onChainHeight s.onChainDatabase = some onChainHeight)
      (skip : s.alreadyKnown block.height onChainHeight = true) : Imports s block (.ok () s)
  | halfway {changes : CompressionChanges core.RegistryChanges} {chain' : core.OnChain}
      (prepared : Prepared s block changes chain')
      (above : s.compressionLatestHeight.getD 0 < block.height) (err : Error) :
      Imports s block (.error err { s with onChainDatabase := chain' })
  | whole {changes : CompressionChanges core.RegistryChanges} {chain' : core.OnChain}
      {database' : core.Compression} (prepared : Prepared s block changes chain')
      (above : s.compressionLatestHeight.getD 0 < block.height)
      (commit : core.commitCompression s.database changes = .ok database') :
      Imports s block (.ok () { s with onChainDatabase := chain', database := database' })
  | chainOnly {changes : CompressionChanges core.RegistryChanges} {chain' : core.OnChain}
      (prepared : Prepared s block changes chain')
      (below : block.height ≤ s.compressionLatestHeight.getD 0) :
      Imports s block (.ok () { s with onChainDatabase := chain' })

theorem importBlockFromDa_cases (s : BlockSyncer core) (fails : Faults)
    (block : VersionedCompressedBlock) : Imports s block (s.importBlockFromDa fails block) := by
  unfold importBlockFromDa
  simp only
  split
  · exact .failed _
  · rename_i onChainHeight hchain
    have hchain := onChainLatestHeight_ok.mp hchain
    split
    · rename_i hskip
      exact .known onChainHeight hchain hskip
    · rename_i hfresh
      split
      · exact .failed _
      · rename_i changes happly
        split
        · exact .failed _
        · rename_i chain' honto
          have hprepared : Prepared s block changes chain' := by
            refine ⟨⟨onChainHeight, hchain, by simpa using hfresh, ?_⟩, Faults.attempt_ok happly⟩
            split at honto
            · rename_i hle
              exact Or.inl ⟨hle, (Except.ok.inj honto).symm⟩
            · rename_i hgt
              exact Or.inr ⟨Nat.lt_of_not_le hgt, executeBlock_faultless honto⟩
          split
          · rename_i habove
            split
            · exact .halfway hprepared habove _
            · rename_i database' hcommit
              exact .whole hprepared habove (Faults.attempt_ok hcommit)
          · rename_i hbelow
            exact .chainOnly hprepared (Nat.le_of_not_lt hbelow)

/-- The commits of the syncer: blocks by execution or by import, and
compression changes of a height that the chain has. A restart commits nothing. -/
inductive Commits (s : BlockSyncer core) : BlockSyncer core → Prop where
  | result {result : ImportResult} {changes : core.ExecutionChanges} {chain' : core.OnChain}
      (commit : core.commitResult s.onChainDatabase result changes = .ok chain') :
      Commits s { s with onChainDatabase := chain' }
  | execute {block : SealedBlock} {chain' : core.OnChain}
      (commit : core.executeAndCommit s.onChainDatabase block = .ok chain') :
      Commits s { s with onChainDatabase := chain' }
  | compression {changes : CompressionChanges core.RegistryChanges} {height latest : Nat}
      {database' : core.Compression}
      (commit : core.commitChangesWithHeightUpdate s.database changes [height] = .ok database')
      (chain : core.onChainHeight s.onChainDatabase = some latest) (within : height ≤ latest) :
      Commits s { s with database := database' }
  | reopened (compressionConfig : Nat) : Commits s (s.reopen compressionConfig)

/-- The states between the commits of a call are among these. -/
abbrev CommitsTo : BlockSyncer core → BlockSyncer core → Prop :=
  Relation.ReflTransGen Commits

theorem Prepared.commits (hontop : core.CommitsOnTop) (hkeeps : core.KeepsHeight)
    {changes : CompressionChanges core.RegistryChanges} {chain' : core.OnChain}
    (h : Prepared s block changes chain') :
    CommitsTo s { s with onChainDatabase := chain' } ∧
      ∃ latest, core.onChainHeight chain' = some latest ∧ block.height ≤ latest := by
  obtain ⟨onChainHeight, hchain, -, ⟨hle, rfl⟩ | ⟨-, hexec⟩⟩ := h.fresh
  · exact ⟨.refl, onChainHeight, hchain, hle⟩
  · obtain ⟨result, changes, hcommit, hkept⟩ := executeBlock_commits hexec
    obtain ⟨h, -, htop, hnow⟩ := hontop.commitResult hcommit
    have hheight := hkept hkeeps
    exact ⟨.single (.result hcommit), h + 1, hnow, by omega⟩

theorem importBlockFromDa_commits (hontop : core.CommitsOnTop) (hkeeps : core.KeepsHeight)
    (s : BlockSyncer core) (fails : Faults) (block : VersionedCompressedBlock) :
    CommitsTo s (finalState (s.importBlockFromDa fails block)) := by
  have hcases := importBlockFromDa_cases s fails block
  generalize s.importBlockFromDa fails block = outcome at hcases ⊢
  cases hcases with
  | failed err => exact .refl
  | known => exact .refl
  | halfway prepared => exact (prepared.commits hontop hkeeps).1
  | chainOnly prepared => exact (prepared.commits hontop hkeeps).1
  | whole prepared above commit =>
    obtain ⟨hto, latest, hchain, hle⟩ := prepared.commits hontop hkeeps
    rw [commitCompression_eq prepared.apply] at commit
    exact hto.tail (.compression commit hchain hle)

variable {FullBlock : Type} {around : Surroundings FullBlock}

theorem executeReceived_commits (around : Surroundings FullBlock) (s : BlockSyncer core) (i : Nat)
    (blocks : List SealedBlock) : CommitsTo s (finalState (s.executeReceived around i blocks)) := by
  induction blocks generalizing s i with
  | nil =>
    unfold executeReceived
    split <;> exact .refl
  | cons block rest ih =>
    unfold executeReceived
    split
    · exact .refl
    · split
      · exact .refl
      · split
        · exact .refl
        · rename_i chain' hcommit
          exact .head (.execute (Faults.attempt_ok hcommit)) (ih _ _)

theorem syncAsMuchAsPossible_commits (around : Surroundings FullBlock) (s : BlockSyncer core) :
    CommitsTo s (finalState (s.syncAsMuchAsPossibleFromGraphql around)) := by
  unfold syncAsMuchAsPossibleFromGraphql
  split
  · exact .refl
  · split
    · exact .refl
    · exact executeReceived_commits around s 0 _

theorem commitCompression_ok (h : s.commitCompression fails block = .ok t) :
    ∃ changes database', core.commitChangesWithHeightUpdate s.database changes [block.height] =
      .ok database' ∧ t = { s with database := database' } := by
  unfold commitCompression at h
  split at h
  · contradiction
  · rename_i changes happly
    split at h
    · contradiction
    · rename_i database' hcommit
      rw [commitCompression_eq (Faults.attempt_ok happly)] at hcommit
      exact ⟨changes, database', Faults.attempt_ok hcommit, (Except.ok.inj h).symm⟩

theorem commitReceived_commits {target : Nat} (around : Surroundings FullBlock)
    (s : BlockSyncer core) (latest : Option Nat) (i : Nat)
    (received : List (Option VersionedCompressedBlock))
    (hchain : core.onChainHeight s.onChainDatabase = some target)
    (hbelow : ∀ block, some block ∈ received → block.height ≤ target) :
    CommitsTo s (finalState (s.commitReceived around latest i received)) := by
  induction received generalizing s latest i with
  | nil =>
    unfold commitReceived
    split <;> exact .refl
  | cons item rest ih =>
    have hrest : ∀ block, some block ∈ rest → block.height ≤ target :=
      fun block hm => hbelow block (List.mem_cons_of_mem _ hm)
    unfold commitReceived
    split
    · exact .refl
    · cases item with
      | none =>
        simp only
        split
        · exact .refl
        · exact ih s latest (i + 1) hchain hrest
      | some block =>
        simp only
        split
        · exact .refl
        · rename_i t hcommit
          obtain ⟨changes, database', hc, rfl⟩ := commitCompression_ok hcommit
          have hstep := Commits.compression hc hchain (hbelow block List.mem_cons_self)
          exact .head hstep (ih _ _ _ hchain hrest)

theorem mem_delivered {α : Type} {results : List (Except Error (List α))} {a : α}
    (h : a ∈ delivered results) : ∃ items, .ok items ∈ results ∧ a ∈ items := by
  induction results with
  | nil => simp [delivered] at h
  | cons result rest ih =>
    cases result with
    | error err => simp [delivered] at h
    | ok items =>
      rcases List.mem_append.mp h with h | h
      · exact ⟨items, List.mem_cons_self, h⟩
      · obtain ⟨items, hm, ha⟩ := ih h
        exact ⟨items, List.mem_cons_of_mem _ hm, ha⟩

theorem fetchRanges_within {start stop h : Nat} {range : HeightRange}
    (hr : range ∈ fetchRanges start stop) (hh : h ∈ range.heights) : start ≤ h ∧ h < stop := by
  obtain ⟨chunk, hc, rfl⟩ := List.mem_map.mp hr
  obtain ⟨first, len, rfl, hlo, hhi⟩ := range'_of_within (chunk_within hc)
  cases len with
  | zero => simp [chunkRange, HeightRange.heights, HeightRange.len] at hh
  | succ len =>
    simp only [List.range'_succ, chunkRange, HeightRange.heights, HeightRange.len, saturatingAdd,
      List.length_range', List.mem_range'_1] at hh
    omega

/-- A sentry that answers heights with their own blocks hands over no others. -/
theorem compressedBlocksFor_height {client : FuelClient FullBlock} (hc : client.AnswersHeight)
    {range : HeightRange} {out : List (Option VersionedCompressedBlock)}
    {block : VersionedCompressedBlock} (h : client.compressedBlocksFor range = .ok out)
    (hm : some block ∈ out) : block.height ∈ range.heights := by
  obtain ⟨height, hheight, hanswer⟩ :=
    exists_mem_of_forall₂ (FuelClient.compressedBlocksFor_answers h) hm
  rwa [FuelClient.AnswersHeight.height_eq hc hanswer]

theorem syncCompression_commits (s : BlockSyncer core)
    (hclient : ∀ k, (around.sentryAt k).AnswersHeight) :
    CommitsTo s (finalState (s.syncCompressionFromGraphql around)) := by
  unfold syncCompressionFromGraphql
  split
  · exact .refl
  · rename_i target hchain
    split
    · exact .refl
    · refine commitReceived_commits around s _ 0 _ (onChainLatestHeight_ok.mp hchain) ?_
      intro block hm
      obtain ⟨items, hr, hi⟩ := mem_delivered hm
      obtain ⟨k, hk, hitems⟩ := List.mem_mapIdx.mp hr
      have hheight := compressedBlocksFor_height (hclient k) hitems hi
      exact Nat.le_of_lt (fetchRanges_within (List.getElem_mem hk) hheight).2

end BlockSyncer
end Watchtower.Syncer
