import Watchtower.Syncer.Redelivery

namespace Watchtower.Syncer
open Lib

namespace BlockSyncer

variable {core : FuelCore} {s t : BlockSyncer core} {fails : Faults}
  {block : VersionedCompressedBlock} {o : Nat}

/-- The chain that ended at height `o` has got this block on top, and nothing else. -/
structure AdvancedBy (s : BlockSyncer core) (o : Nat) (block : VersionedCompressedBlock)
    (chain' : core.OnChain) : Prop where
  onTop : block.height = o + 1
  executed : s.executeBlock Faults.none block = .ok chain'
  committed : ∃ result changes, core.commitResult s.onChainDatabase result changes = .ok chain' ∧
    result.sealedBlock.entity.height = block.height
  height : core.onChainHeight chain' = some block.height

/-- What a call of `import_block_from_da` is to come to on a chain that ends at
height `o`. A success raises both heights to that of the block, where they are
below it, and the same call once more does nothing. A failure leaves the
compression data as it was, and at most advances the chain. -/
def ImportsExactly (s : BlockSyncer core) (o : Nat) (block : VersionedCompressedBlock) :
    EStateM.Result Error (BlockSyncer core) Unit → Prop
  | .ok _ t =>
    core.onChainHeight t.onChainDatabase = some (max o block.height) ∧
      t.compressionLatestHeight = some (max (s.compressionLatestHeight.getD 0) block.height) ∧
      ∀ fails, t.importBlockFromDa fails block = .ok () t
  | .error _ t =>
    t.database = s.database ∧
      (t.onChainDatabase = s.onChainDatabase ∨ AdvancedBy s o block t.onChainDatabase)

theorem alreadyKnown_eq_true {height : Nat} :
    s.alreadyKnown height o = true ↔
      height ≤ o ∧ ∃ c, s.compressionLatestHeight = some c ∧ height ≤ c := by
  unfold alreadyKnown
  cases s.compressionLatestHeight <;> simp

/-- The chain prepared for the commit of the compression changes is the one
there was, or that one with the block on top. -/
theorem Prepared.advanced (hontop : core.CommitsOnTop) (hkeeps : core.KeepsHeight)
    {changes : CompressionChanges core.RegistryChanges} {chain' : core.OnChain}
    (h : Prepared s block changes chain')
    (ho : core.onChainHeight s.onChainDatabase = some o) :
    block.height ≤ o ∧ chain' = s.onChainDatabase ∨ AdvancedBy s o block chain' := by
  obtain ⟨o', ho', -, hcase⟩ := h.fresh
  obtain rfl := Option.some.inj (ho.symm.trans ho')
  rcases hcase with hbelow | ⟨-, hexec⟩
  · exact Or.inl hbelow
  · obtain ⟨result, changes, hcommit, hkept⟩ := executeBlock_commits hexec
    obtain ⟨below, hbelow, htop, hnow⟩ := hontop.commitResult hcommit
    obtain rfl := Option.some.inj (ho.symm.trans hbelow)
    have hheight := hkept hkeeps
    have honTop : block.height = o + 1 := hheight.symm.trans htop
    exact Or.inr ⟨honTop, hexec, ⟨result, changes, hcommit, hheight⟩, honTop ▸ hnow⟩

theorem Prepared.max_height (hontop : core.CommitsOnTop) (hkeeps : core.KeepsHeight)
    {changes : CompressionChanges core.RegistryChanges} {chain' : core.OnChain}
    (h : Prepared s block changes chain')
    (ho : core.onChainHeight s.onChainDatabase = some o) :
    core.onChainHeight chain' = some (max o block.height) := by
  rcases h.advanced hontop hkeeps ho with ⟨hle, rfl⟩ | hadvanced
  · rw [Nat.max_eq_left hle, ho]
  · have := hadvanced.onTop
    rw [Nat.max_eq_right (by omega), hadvanced.height]

/-- A call that has brought both heights up to the block is repeated to no effect. -/
theorem ImportsExactly.of_heights {c : Nat}
    (ho : core.onChainHeight t.onChainDatabase = some (max o block.height))
    (hc : t.compressionLatestHeight = some c)
    (hmax : c = max (s.compressionLatestHeight.getD 0) block.height) :
    ImportsExactly s o block (.ok () t) := by
  refine ⟨ho, hmax ▸ hc, ?_⟩
  intro fails
  exact importBlockFromDa_known fails ho hc (Nat.le_max_right _ _) (by omega)

/-- Without compression data the block of height 0 passes for one there is
compression data of: it is applied, and the changes are dropped. -/
theorem importBlockFromDa_genesis (hnone : s.compressionLatestHeight = none)
    (hzero : block.height = 0) (ho : core.onChainHeight s.onChainDatabase = some o) :
    s.importBlockFromDa fails block =
      match fails.attempt .applyCompression (s.applyCompression block) with
      | .error err => .error err s
      | .ok _ => .ok () s := by
  have hfresh : s.alreadyKnown 0 o = false := by
    rw [Bool.eq_false_iff, ne_eq, alreadyKnown_eq_true, hnone]
    simp
  cases happly : fails.attempt .applyCompression (s.applyCompression block) <;>
    simp only [importBlockFromDa, onChainLatestHeight_ok.mpr ho, hzero, hfresh, hnone, happly,
      Option.getD_none, Nat.zero_le, Nat.lt_irrefl, Bool.false_eq_true, if_true, if_false]

/-- Everywhere else a call comes to what it is to come to. -/
theorem importsExactly_of_data (hontop : core.CommitsOnTop) (habove : core.CommitsAbove)
    (hkeeps : core.KeepsHeight) (ho : core.onChainHeight s.onChainDatabase = some o)
    (hdata : s.compressionLatestHeight = none → 0 < block.height) :
    ImportsExactly s o block (s.importBlockFromDa fails block) := by
  have hcases := importBlockFromDa_cases s fails block
  generalize s.importBlockFromDa fails block = outcome at hcases ⊢
  cases hcases with
  | failed err => exact ⟨rfl, Or.inl rfl⟩
  | known onChainHeight chain skip =>
    obtain rfl := Option.some.inj (ho.symm.trans chain)
    obtain ⟨hle, c, hc, hle'⟩ := alreadyKnown_eq_true.mp skip
    refine .of_heights ?_ hc ?_
    · rw [Nat.max_eq_left hle, ho]
    · rw [hc, Option.getD_some, Nat.max_eq_left hle']
  | halfway prepared above err =>
    exact ⟨rfl, (prepared.advanced hontop hkeeps ho).imp_left And.right⟩
  | whole prepared above commit =>
    rw [commitCompression_eq prepared.apply] at commit
    refine .of_heights (prepared.max_height hontop hkeeps ho) (habove commit).2 ?_
    exact (Nat.max_eq_right above.le).symm
  | chainOnly prepared below =>
    cases hc : s.compressionLatestHeight with
    | none =>
      have := hdata hc
      simp only [hc, Option.getD_none] at below
      omega
    | some c =>
      rw [hc, Option.getD_some] at below
      refine .of_heights (prepared.max_height hontop hkeeps ho) hc ?_
      rw [hc, Option.getD_some, Nat.max_eq_left below]

/-- A call comes to what it is to come to, unless it applies the block of height
0 to an empty compression database. -/
theorem imports_exactly_iff (core : FuelCore) (hontop : core.CommitsOnTop)
    (habove : core.CommitsAbove) (hkeeps : core.KeepsHeight) (s : BlockSyncer core)
    (fails : Faults) (block : VersionedCompressedBlock) (o : Nat)
    (ho : core.onChainHeight s.onChainDatabase = some o) :
    ImportsExactly s o block (s.importBlockFromDa fails block) ↔
      ¬ (s.compressionLatestHeight = none ∧ block.height = 0 ∧
        ∃ changes, fails.attempt .applyCompression (s.applyCompression block) = .ok changes) := by
  constructor
  · intro h hbad
    obtain ⟨hnone, hzero, changes, happlies⟩ := hbad
    rw [importBlockFromDa_genesis hnone hzero ho, happlies] at h
    have hthere := h.2.1
    rw [hnone] at hthere
    cases hthere
  · intro hgood
    by_cases hgenesis : s.compressionLatestHeight = none ∧ block.height = 0
    · rw [importBlockFromDa_genesis hgenesis.1 hgenesis.2 ho]
      cases happly : fails.attempt .applyCompression (s.applyCompression block) with
      | error err => exact ⟨rfl, Or.inl rfl⟩
      | ok changes => exact absurd ⟨hgenesis.1, hgenesis.2, changes, happly⟩ hgood
    · apply importsExactly_of_data hontop habove hkeeps ho
      intro hnone
      exact Nat.pos_of_ne_zero (fun hzero => hgenesis ⟨hnone, hzero⟩)

/-- The compression data stand at height 1, and the chain at height 0: the
block of height 1 is executed, and a commit is not needed. -/
theorem imports_exactly_ahead :
    ImportsExactly (plainSyncer 1 [1]) 0 ⟨1, 0, [], []⟩
      ((plainSyncer 1 [1]).importBlockFromDa Faults.none ⟨1, 0, [], []⟩) := by
  refine (imports_exactly_iff plainCore plainCore_commitsOnTop plainCore_commitsAbove
    plainCore_keepsHeight (plainSyncer 1 [1]) Faults.none ⟨1, 0, [], []⟩ 0 rfl).mpr ?_
  intro hbad
  cases hbad.1

/-- The import of the block of height 0 returns Ok and leaves the compression
database empty. -/
theorem genesis_not_imported :
    (plainSyncer 1 []).importBlockFromDa Faults.none ⟨0, 0, [], []⟩ = .ok () (plainSyncer 1 []) ∧
      (plainSyncer 1 []).compressionLatestHeight = none ∧
      ¬ ∀ core : FuelCore, core.CommitsOnTop → core.CommitsAbove → core.KeepsHeight →
        ∀ (s : BlockSyncer core) fails block o, core.onChainHeight s.onChainDatabase = some o →
          ImportsExactly s o block (s.importBlockFromDa fails block) := by
  refine ⟨rfl, rfl, ?_⟩
  intro hall
  have h := hall plainCore plainCore_commitsOnTop plainCore_commitsAbove plainCore_keepsHeight
    (plainSyncer 1 []) Faults.none ⟨0, 0, [], []⟩ 0 rfl
  cases h.2.1

end BlockSyncer
end Watchtower.Syncer
