import Watchtower.Syncer.FullBlocks

namespace Watchtower.Syncer
open Lib

/-- Where the block of a height comes from: sealed, from a sentry, or from DA,
under this retention of the registry. -/
inductive Source where
  | sentry (block : SealedBlock)
  | da (compressionConfig : Nat)

/-- A sealed block is this one. One from DA is what execution makes of it. -/
def Source.Of (block : FuelBlock) : Source → Prop
  | .sentry sealedBlock => sealedBlock.entity = block
  | .da _ => True

namespace FuelCore

/-- The chain with one more block, on top of height `o`. One from DA is
decompressed against the archive of the feed below it, of which `database` has
the part up to `c`. -/
def chainNext (core : FuelCore) (database : core.Compression)
    (feed : Nat → VersionedCompressedBlock) (c o : Nat) (chain : core.OnChain) :
    Source → Except Error core.OnChain
  | .sentry block => core.executeAndCommit chain block
  | .da compressionConfig =>
    match core.archiveFrom database feed (c + 1) (o - c) with
    | .error err => .error err
    | .ok archive =>
      let syncer : BlockSyncer core := ⟨compressionConfig, chain, archive⟩
      syncer.executeBlock Faults.none (feed (o + 1))

/-- With a block from each of the sources. -/
def chainFrom (core : FuelCore) (database : core.Compression)
    (feed : Nat → VersionedCompressedBlock) (c o : Nat) (chain : core.OnChain) :
    List Source → Except Error core.OnChain
  | [] => .ok chain
  | source :: rest =>
    match core.chainNext database feed c o chain source with
    | .error err => .error err
    | .ok chain => core.chainFrom database feed c (o + 1) chain rest

/-- On top of the blocks of the chain, and with the archive of the feed,
decompression and execution make the next block of the chain, whatever the
retention of the registry. -/
def Reproduces (core : FuelCore) (database : core.Compression)
    (feed : Nat → VersionedCompressedBlock) (c : Nat) (blocks : Nat → FuelBlock) : Prop :=
  ∀ {o compressionConfig archive chain decompressed mint result changes}, c ≤ o →
    core.archiveFrom database feed (c + 1) (o - c) = .ok archive →
    core.onChainHeight chain = some o → (∀ h ≤ o, core.block chain h = .ok (blocks h)) →
    core.decompress compressionConfig archive chain (feed (o + 1)) = .ok decompressed →
    BlockSyncer.mintTx decompressed.transactions = .ok mint →
    core.produceWithoutCommit chain (BlockSyncer.component decompressed mint) =
      .ok (result, changes) →
    result.block = blocks (o + 1)

variable {core : FuelCore} {database : core.Compression}
  {feed : Nat → VersionedCompressedBlock} {c o : Nat} {chain mid chain' : core.OnChain}
  {blocks : Nat → FuelBlock} {source : Source} {sources : List Source}

theorem chainFrom_append {more : List Source}
    (h : core.chainFrom database feed c o chain sources = .ok mid)
    (h' : core.chainFrom database feed c (o + sources.length) mid more = .ok chain') :
    core.chainFrom database feed c o chain (sources ++ more) = .ok chain' := by
  induction sources generalizing chain o with
  | nil =>
    obtain rfl := Except.ok.inj h
    exact h'
  | cons source rest ih =>
    rw [List.cons_append]
    unfold chainFrom at h ⊢
    split at h
    · contradiction
    · apply ih h
      rwa [List.length_cons, ← Nat.add_assoc, Nat.add_right_comm] at h'

theorem chainFrom_one (h : core.chainNext database feed c o chain source = .ok chain') :
    core.chainFrom database feed c o chain [source] = .ok chain' := by
  simp only [chainFrom, h]

theorem chainFrom_sentry (database : core.Compression) (feed : Nat → VersionedCompressedBlock)
    (c o : Nat) (chain : core.OnChain) (executed : List SealedBlock) :
    core.chainFrom database feed c o chain (executed.map .sentry) =
      core.executeAll chain executed := by
  induction executed generalizing o chain with
  | nil => rfl
  | cons block rest ih =>
    simp only [List.map_cons, chainFrom, chainNext, executeAll]
    cases core.executeAndCommit chain block with
    | error err => rfl
    | ok next => exact ih (o + 1) next

/-- What a block from DA is executed of. -/
theorem chainNext_da {compressionConfig : Nat}
    (h : core.chainNext database feed c o chain (.da compressionConfig) = .ok chain') :
    ∃ archive decompressed mint result changes,
      core.archiveFrom database feed (c + 1) (o - c) = .ok archive ∧
      core.decompress compressionConfig archive chain (feed (o + 1)) = .ok decompressed ∧
      BlockSyncer.mintTx decompressed.transactions = .ok mint ∧
      core.produceWithoutCommit chain (BlockSyncer.component decompressed mint) =
        .ok (result, changes) ∧
      core.commitResult chain (BlockSyncer.importResult result) changes = .ok chain' := by
  unfold chainNext at h
  simp only at h
  split at h
  · contradiction
  · rename_i archive harchive
    simp only [BlockSyncer.executeBlock, Faults.attempt_none] at h
    split at h
    · contradiction
    · rename_i decompressed hd
      split at h
      · contradiction
      · rename_i mint hm
        split at h
        · contradiction
        · rename_i result changes hp
          exact ⟨archive, decompressed, mint, result, changes, harchive, hd, hm, hp, h⟩

theorem chainNext_height (hontop : core.CommitsOnTop) (ho : core.onChainHeight chain = some o)
    (h : core.chainNext database feed c o chain source = .ok chain') :
    core.onChainHeight chain' = some (o + 1) := by
  cases source with
  | sentry block =>
    obtain ⟨below, hbelow, -, hnow⟩ := hontop.executeAndCommit h
    obtain rfl := Option.some.inj (ho.symm.trans hbelow)
    exact hnow
  | da compressionConfig =>
    obtain ⟨_, _, _, _, _, -, -, -, -, hcommit⟩ := chainNext_da h
    obtain ⟨below, hbelow, -, hnow⟩ := hontop.commitResult hcommit
    obtain rfl := Option.some.inj (ho.symm.trans hbelow)
    exact hnow

theorem chainFrom_height (hontop : core.CommitsOnTop) (ho : core.onChainHeight chain = some o)
    (h : core.chainFrom database feed c o chain sources = .ok chain') :
    core.onChainHeight chain' = some (o + sources.length) := by
  induction sources generalizing chain o with
  | nil => exact Except.ok.inj h ▸ ho
  | cons source rest ih =>
    unfold chainFrom at h
    split at h
    · contradiction
    · rename_i next hnext
      rw [ih (chainNext_height hontop ho hnext) h, List.length_cons]
      congr 1
      omega

/-- The block on top is the next one of the chain, from whichever source. -/
theorem chainNext_blocks (hontop : core.CommitsOnTop) (hkeeps : core.KeepsBlocks)
    (hsame : core.Reproduces database feed c blocks) (hle : c ≤ o)
    (ho : core.onChainHeight chain = some o)
    (hblocks : ∀ h ≤ o, core.block chain h = .ok (blocks h)) (hof : source.Of (blocks (o + 1)))
    (h : core.chainNext database feed c o chain source = .ok chain') :
    ∀ h ≤ o + 1, core.block chain' h = .ok (blocks h) := by
  have hall : (∀ h block, core.block chain h = .ok block → core.block chain' h = .ok block) →
      core.block chain' (o + 1) = .ok (blocks (o + 1)) →
      ∀ h ≤ o + 1, core.block chain' h = .ok (blocks h) := by
    intro hkept hnew h hle
    rcases Nat.lt_or_eq_of_le hle with hlt | rfl
    · exact hkept h _ (hblocks h (Nat.le_of_lt_succ hlt))
    · exact hnew
  cases source with
  | sentry block =>
    obtain ⟨below, hbelow, hheight, -⟩ := hontop.executeAndCommit h
    obtain rfl := Option.some.inj (ho.symm.trans hbelow)
    obtain ⟨hkept, hnew⟩ := hkeeps.executeAndCommit h
    apply hall hkept
    rwa [hheight, show block.entity = blocks (o + 1) from hof] at hnew
  | da compressionConfig =>
    obtain ⟨archive, decompressed, mint, result, changes, harchive, hd, hm, hp, hcommit⟩ :=
      chainNext_da h
    obtain ⟨below, hbelow, hheight, -⟩ := hontop.commitResult hcommit
    obtain rfl := Option.some.inj (ho.symm.trans hbelow)
    obtain ⟨hkept, hnew⟩ := hkeeps.commitResult hcommit
    apply hall hkept
    have hblock : result.block = blocks (o + 1) := hsame hle harchive ho hblocks hd hm hp
    rwa [hheight, show (BlockSyncer.importResult result).sealedBlock.entity = blocks (o + 1) from
      hblock] at hnew

theorem chainFrom_blocks (hontop : core.CommitsOnTop) (hkeeps : core.KeepsBlocks)
    (hsame : core.Reproduces database feed c blocks) (hle : c ≤ o)
    (ho : core.onChainHeight chain = some o)
    (hblocks : ∀ h ≤ o, core.block chain h = .ok (blocks h))
    (hof : ∀ k (source : Source), sources[k]? = some source → source.Of (blocks (o + 1 + k)))
    (h : core.chainFrom database feed c o chain sources = .ok chain') :
    ∀ h ≤ o + sources.length, core.block chain' h = .ok (blocks h) := by
  induction sources generalizing chain o with
  | nil => exact Except.ok.inj h ▸ hblocks
  | cons source rest ih =>
    unfold chainFrom at h
    split at h
    · contradiction
    · rename_i next hnext
      have hnow := chainNext_blocks hontop hkeeps hsame hle ho hblocks (hof 0 source rfl) hnext
      rw [List.length_cons, Nat.add_comm rest.length, ← Nat.add_assoc]
      apply ih (by omega) (chainNext_height hontop ho hnext) hnow _ h
      intro k other hother
      have := hof (k + 1) other (by rwa [List.getElem?_cons_succ])
      rwa [Nat.add_comm k, ← Nat.add_assoc] at this

/-- One chain is the other with blocks from sources, those of sentries on the
chain of these blocks. -/
def Built (core : FuelCore) (database : core.Compression)
    (feed : Nat → VersionedCompressedBlock) (c : Nat) (blocks : Nat → FuelBlock) (o : Nat)
    (chain chain' : core.OnChain) : Prop :=
  ∃ sources, core.chainFrom database feed c o chain sources = .ok chain' ∧
    ∀ k (source : Source), sources[k]? = some source → source.Of (blocks (o + 1 + k))

theorem Built.rest : core.Built database feed c blocks o chain chain :=
  ⟨[], rfl, fun k source h => by cases h⟩

theorem Built.one (h : core.chainNext database feed c o chain source = .ok chain')
    (hof : source.Of (blocks (o + 1))) : core.Built database feed c blocks o chain chain' := by
  refine ⟨[source], chainFrom_one h, fun k other hk => ?_⟩
  cases k with
  | zero => exact Option.some.inj hk ▸ hof
  | succ k => cases hk

theorem Built.append (hontop : core.CommitsOnTop) (ho : core.onChainHeight chain = some o)
    (h : core.Built database feed c blocks o chain mid)
    (hmore : ∀ o', core.onChainHeight mid = some o' → o ≤ o' →
      core.Built database feed c blocks o' mid chain') :
    core.Built database feed c blocks o chain chain' := by
  obtain ⟨sources, hsources, hof⟩ := h
  obtain ⟨more, hchain, hof'⟩ := hmore _ (chainFrom_height hontop ho hsources)
    (Nat.le_add_right _ _)
  refine ⟨sources ++ more, chainFrom_append hsources hchain, fun k source hk => ?_⟩
  rcases Nat.lt_or_ge k sources.length with hlt | hge
  · exact hof k source (by rwa [List.getElem?_append_left hlt] at hk)
  · rw [List.getElem?_append_right hge] at hk
    have hplace := hof' _ source hk
    rwa [show o + sources.length + 1 + (k - sources.length) = o + 1 + k by omega] at hplace

end FuelCore

/-- The blocks that the sentries answer with are those of the chain. -/
def AnswersChain {FullBlock : Type} (around : BlockSyncer.Surroundings FullBlock)
    (blocks : Nat → FuelBlock) : Prop :=
  ∀ k range found, (around.sentryAt k).blocksFor range = .ok found →
    ∀ block ∈ found, block.entity = blocks block.entity.height

namespace BlockSyncer

variable {core : FuelCore} {FullBlock : Type} {around : Surroundings FullBlock}
  {s : BlockSyncer core} {database : core.Compression} {feed : Nat → VersionedCompressedBlock}
  {blocks : Nat → FuelBlock} {c o : Nat}

/-- The sync of blocks puts blocks of the sentries on the chain, however it ends. -/
theorem syncAsMuchAsPossible_chain (hontop : core.CommitsOnTop)
    (ho : core.onChainHeight s.onChainDatabase = some o) (hanswers : AnswersChain around blocks) :
    core.Built database feed c blocks o s.onChainDatabase
      (finalState (s.syncAsMuchAsPossibleFromGraphql around)).onChainDatabase := by
  unfold syncAsMuchAsPossibleFromGraphql
  simp only [onChainLatestHeight_ok.mpr ho]
  split
  · exact .rest
  · obtain ⟨executed, hfirst, hrun, -⟩ := executeReceived_executes around s 0 (delivered _)
    obtain ⟨hheights, -⟩ := FuelCore.executeAll_heights hontop ho hrun
    refine ⟨executed.map .sentry, (FuelCore.chainFrom_sentry ..).trans hrun,
      fun k source hsource => ?_⟩
    rw [List.getElem?_map] at hsource
    obtain ⟨sealedBlock, hk, rfl⟩ := Option.map_eq_some_iff.mp hsource
    have hheight : sealedBlock.entity.height = o + 1 + k := by
      have hget : (executed.map (fun block => block.entity.height))[k]? =
          some sealedBlock.entity.height := by rw [List.getElem?_map, hk]; rfl
      rw [hheights] at hget
      obtain ⟨hlt, hget⟩ := List.getElem?_eq_some_iff.mp hget
      rw [← hget, List.getElem_range', Nat.one_mul]
    obtain ⟨items, hitems, hm⟩ := mem_delivered (hfirst.subset (List.mem_of_getElem? hk))
    obtain ⟨i, hi, hfetched⟩ := List.mem_mapIdx.mp hitems
    have hblock := hanswers i _ items hfetched sealedBlock hm
    rwa [hheight] at hblock

/-- The sync of compression data leaves the chain alone. -/
theorem syncCompression_chain (habove : core.CommitsAbove) (around : Surroundings FullBlock)
    (s : BlockSyncer core) :
    (finalState (s.syncCompressionFromGraphql around)).onChainDatabase = s.onChainDatabase := by
  cases htarget : s.onChainLatestHeight with
  | error err => simp only [syncCompressionFromGraphql, htarget, finalState]
  | ok target => exact ((syncCompression_replays htarget).heights habove).1

/-- An import leaves the chain as it was or executes its block, however it ends. -/
theorem importBlockFromDa_chain (ho : core.onChainHeight s.onChainDatabase = some o)
    (fails : Faults) (block : VersionedCompressedBlock) :
    (finalState (s.importBlockFromDa fails block)).onChainDatabase = s.onChainDatabase ∨
      o < block.height ∧ s.executeBlock Faults.none block =
        .ok (finalState (s.importBlockFromDa fails block)).onChainDatabase := by
  have honto : ∀ {changes chain'}, Prepared s block changes chain' →
      chain' = s.onChainDatabase ∨
        o < block.height ∧ s.executeBlock Faults.none block = .ok chain' := by
    intro changes chain' hprepared
    obtain ⟨o', ho', -, ⟨-, hsame⟩ | ⟨hlt, hexec⟩⟩ := hprepared.fresh
    · exact Or.inl hsame
    · obtain rfl := Option.some.inj (ho.symm.trans ho')
      exact Or.inr ⟨hlt, hexec⟩
  have hcases := importBlockFromDa_cases s fails block
  generalize s.importBlockFromDa fails block = outcome at hcases ⊢
  cases hcases with
  | failed | known => exact Or.inl rfl
  | halfway prepared | whole prepared | chainOnly prepared => exact honto prepared

end BlockSyncer
end Watchtower.Syncer
