import Watchtower.Lib.Run
import Watchtower.Syncer.Commits

namespace Watchtower.Syncer
open Lib

namespace BlockSyncer

variable {core : FuelCore} {s t u : BlockSyncer core}

/-- The compression database is empty, or not ahead of the chain. -/
def Behind (s : BlockSyncer core) : Prop :=
  ∀ height, s.compressionLatestHeight = some height →
    ∃ latest, core.onChainHeight s.onChainDatabase = some latest ∧ height ≤ latest

/-- Neither height goes back. -/
structure Grows (s t : BlockSyncer core) : Prop where
  chain : ∀ height, core.onChainHeight s.onChainDatabase = some height →
    ∃ height', core.onChainHeight t.onChainDatabase = some height' ∧ height ≤ height'
  compression : ∀ height, s.compressionLatestHeight = some height →
    ∃ height', t.compressionLatestHeight = some height' ∧ height ≤ height'

/-- The chain has its block at every height up to the latest. -/
def Whole (s : BlockSyncer core) : Prop :=
  ∀ latest height, core.onChainHeight s.onChainDatabase = some latest → height ≤ latest →
    ∃ block, core.block s.onChainDatabase height = .ok block

theorem Grows.refl (s : BlockSyncer core) : Grows s s :=
  ⟨fun height h => ⟨height, h, Nat.le_refl _⟩, fun height h => ⟨height, h, Nat.le_refl _⟩⟩

theorem Grows.trans (h : Grows s t) (h' : Grows t u) : Grows s u := by
  refine ⟨fun height hs => ?_, fun height hs => ?_⟩
  · obtain ⟨mid, ht, hle⟩ := h.chain height hs
    obtain ⟨high, hu, hle'⟩ := h'.chain mid ht
    exact ⟨high, hu, Nat.le_trans hle hle'⟩
  · obtain ⟨mid, ht, hle⟩ := h.compression height hs
    obtain ⟨high, hu, hle'⟩ := h'.compression mid ht
    exact ⟨high, hu, Nat.le_trans hle hle'⟩

/-- A chain that grew by one block, with the compression database as before. -/
theorem Grows.block {chain' : core.OnChain} {height : Nat}
    (h : core.onChainHeight s.onChainDatabase = some height)
    (h' : core.onChainHeight chain' = some (height + 1)) :
    Grows s { s with onChainDatabase := chain' } := by
  refine ⟨fun old hold => ⟨height + 1, h', ?_⟩, fun old hold => ⟨old, hold, Nat.le_refl _⟩⟩
  have := Option.some.inj (hold.symm.trans h)
  omega

theorem Commits.grows (hontop : core.CommitsOnTop) (habove : core.CommitsAbove)
    (h : Commits s t) : Grows s t := by
  cases h with
  | result commit =>
    obtain ⟨height, hbelow, -, hnow⟩ := hontop.commitResult commit
    exact .block hbelow hnow
  | execute commit =>
    obtain ⟨height, hbelow, -, hnow⟩ := hontop.executeAndCommit commit
    exact .block hbelow hnow
  | compression commit =>
    obtain ⟨hlatest, hnow⟩ := habove commit
    refine ⟨fun old hold => ⟨old, hold, Nat.le_refl _⟩, fun old hold => ⟨_, hnow, ?_⟩⟩
    exact Nat.le_of_lt (hlatest old hold)
  | reopened => exact ⟨(Grows.refl s).chain, (Grows.refl s).compression⟩

theorem Behind.commit (hontop : core.CommitsOnTop) (habove : core.CommitsAbove)
    (hs : Behind s) (h : Commits s t) : Behind t := by
  have hgrows := h.grows hontop habove
  cases h with
  | result | execute =>
    intro height hh
    obtain ⟨latest, hlatest, hle⟩ := hs height hh
    obtain ⟨latest', hnow, hle'⟩ := hgrows.chain latest hlatest
    exact ⟨latest', hnow, Nat.le_trans hle hle'⟩
  | compression commit chain within =>
    intro height hh
    have := Option.some.inj (hh.symm.trans (habove commit).2)
    exact ⟨_, chain, this ▸ within⟩
  | reopened => exact hs

/-- Committing a block leaves no hole below it. -/
theorem Whole.block {chain' : core.OnChain} {height : Nat} {block : FuelBlock} (hs : Whole s)
    (h : core.onChainHeight s.onChainDatabase = some height) (htop : block.height = height + 1)
    (h' : core.onChainHeight chain' = some (height + 1))
    (hkept : ∀ k found, core.block s.onChainDatabase k = .ok found →
      core.block chain' k = .ok found)
    (hnew : core.block chain' block.height = .ok block) :
    Whole { s with onChainDatabase := chain' } := by
  intro latest k hlatest hk
  have he := Option.some.inj (hlatest.symm.trans h')
  by_cases hold : k ≤ height
  · obtain ⟨found, hf⟩ := hs height k h hold
    exact ⟨found, hkept k found hf⟩
  · have hk' : k = block.height := by omega
    exact ⟨block, hk' ▸ hnew⟩

theorem Whole.commit (hontop : core.CommitsOnTop) (hblocks : core.KeepsBlocks) (hs : Whole s)
    (h : Commits s t) : Whole t := by
  cases h with
  | result commit =>
    obtain ⟨height, hbelow, htop, hnow⟩ := hontop.commitResult commit
    obtain ⟨hkept, hnew⟩ := hblocks.commitResult commit
    exact hs.block hbelow htop hnow hkept hnew
  | execute commit =>
    obtain ⟨height, hbelow, htop, hnow⟩ := hontop.executeAndCommit commit
    obtain ⟨hkept, hnew⟩ := hblocks.executeAndCommit commit
    exact hs.block hbelow htop hnow hkept hnew
  | compression | reopened => exact hs

theorem CommitsTo.grows (hontop : core.CommitsOnTop) (habove : core.CommitsAbove)
    (h : CommitsTo s t) : Grows s t := by
  induction h with
  | refl => exact .refl s
  | tail _ hstep ih => exact ih.trans (hstep.grows hontop habove)

theorem CommitsTo.behind (hontop : core.CommitsOnTop) (habove : core.CommitsAbove)
    (h : CommitsTo s t) (hs : Behind s) : Behind t := by
  induction h with
  | refl => exact hs
  | tail _ hstep ih => exact ih.commit hontop habove hstep

theorem CommitsTo.whole (hontop : core.CommitsOnTop) (hblocks : core.KeepsBlocks)
    (h : CommitsTo s t) (hs : Whole s) : Whole t := by
  induction h with
  | refl => exact hs
  | tail _ hstep ih => exact ih.commit hontop hblocks hstep

theorem Behind.da_height_found (hs : Behind s) (hw : Whole s) {height : Nat}
    (h : s.compressionLatestHeight = some height) :
    ∃ block, core.block s.onChainDatabase height = .ok block ∧
      s.compressionLatestDaHeight = .ok block.daHeight := by
  obtain ⟨latest, hlatest, hle⟩ := hs height h
  obtain ⟨block, hb⟩ := hw latest height hlatest hle
  refine ⟨block, hb, ?_⟩
  simp [compressionLatestDaHeight, h, hb, Except.map]

end BlockSyncer

/-- A call of one of the three operations, which may stop behind any of its
commits by a step that fails or by the stop signal, or a restart. -/
inductive Operation (FullBlock : Type) where
  | syncBlocks (around : BlockSyncer.Surroundings FullBlock)
  | syncCompression (around : BlockSyncer.Surroundings FullBlock)
  | importFromDa (fails : Faults) (block : VersionedCompressedBlock)
  | restart (compressionConfig : Nat)

namespace Operation
open BlockSyncer

variable {core : FuelCore} {FullBlock : Type}

def call (op : Operation FullBlock) (s : BlockSyncer core) :
    EStateM.Result Error (BlockSyncer core) Unit :=
  match op with
  | .syncBlocks around => s.syncAsMuchAsPossibleFromGraphql around
  | .syncCompression around => s.syncCompressionFromGraphql around
  | .importFromDa fails block => s.importBlockFromDa fails block
  | .restart compressionConfig => .ok () (s.reopen compressionConfig)

/-- The databases outlive the call, however it ends. -/
def step (s : BlockSyncer core) (op : Operation FullBlock) : Option (BlockSyncer core) :=
  some (finalState (op.call s))

/-- The provider of compressed blocks answers a height with nothing or with a
block of that height. -/
def Honest : Operation FullBlock → Prop
  | .syncCompression around => ∀ k, (around.sentryAt k).AnswersHeight
  | .syncBlocks _ | .importFromDa _ _ | .restart _ => True

theorem call_commits (hontop : core.CommitsOnTop) (hkeeps : core.KeepsHeight)
    {op : Operation FullBlock} (hop : op.Honest) (s : BlockSyncer core) :
    CommitsTo s (finalState (op.call s)) := by
  cases op with
  | syncBlocks around => exact syncAsMuchAsPossible_commits around s
  | syncCompression around => exact syncCompression_commits s hop
  | importFromDa fails block => exact importBlockFromDa_commits hontop hkeeps s fails block
  | restart compressionConfig => exact .single (.reopened compressionConfig)

theorem run_commits (hontop : core.CommitsOnTop) (hkeeps : core.KeepsHeight)
    {s t : BlockSyncer core}
    (run : Run step (fun _ (op : Operation FullBlock) => op.Honest) s t) : CommitsTo s t := by
  refine run.invariant .refl (fun u v op hu hop hstep => hu.trans ?_)
  exact Option.some.inj hstep ▸ call_commits hontop hkeeps hop u

/-- Whatever the operations meet and wherever they stop, the compression
database stays behind the chain, no height goes back, and the block that the
compression data ends at is on the chain. -/
theorem compression_stays_behind (core : FuelCore) (hontop : core.CommitsOnTop)
    (habove : core.CommitsAbove) (hkeeps : core.KeepsHeight) (FullBlock : Type)
    (s : BlockSyncer core) (hs : s.Behind) :
    (∀ t, Run step (fun _ (op : Operation FullBlock) => op.Honest) s t → t.Behind) ∧
    (∀ t u, Run step (fun _ (op : Operation FullBlock) => op.Honest) s t →
      Run step (fun _ (op : Operation FullBlock) => op.Honest) t u → t.Grows u) ∧
    (core.KeepsBlocks → s.Whole →
      ∀ t height, Run step (fun _ (op : Operation FullBlock) => op.Honest) s t →
        t.compressionLatestHeight = some height →
        ∃ block, core.block t.onChainDatabase height = .ok block ∧
          t.compressionLatestDaHeight = .ok block.daHeight) := by
  have hbehind : ∀ t, Run step (fun _ (op : Operation FullBlock) => op.Honest) s t → t.Behind :=
    fun t run => CommitsTo.behind hontop habove (run_commits hontop hkeeps run) hs
  refine ⟨hbehind, ?_, ?_⟩
  · intro t u _ run
    exact CommitsTo.grows hontop habove (run_commits hontop hkeeps run)
  · intro hblocks hw t height run hheight
    have hwhole := CommitsTo.whole hontop hblocks (run_commits hontop hkeeps run) hw
    exact (hbehind t run).da_height_found hwhole hheight

end Operation

/-- Takes a block on top of a chain that has a genesis block. -/
def plainCommit (chain : List FuelBlock) (block : FuelBlock) : Except Error (List FuelBlock) :=
  if 0 < chain.length ∧ block.height = chain.length then .ok (chain ++ [block])
  else .error "The actual height doesn't match the next expected height"

def plainAdvance (database : List Nat) : List Nat → Except Error (List Nat)
  | [height] =>
    if ∀ latest ∈ database.getLast?, latest < height then .ok (database ++ [height])
    else .error "Heights are not linked"
  | _ => .error "Multiple heights found in the commit"

/-- A fuel-core whose chain is its blocks and whose compression database is
the heights committed. Every block has one transaction, its mint. -/
def plainCore : FuelCore where
  OnChain := List FuelBlock
  Compression := List Nat
  RegistryChanges := Unit
  ExecutionChanges := Unit
  onChainHeight chain := if 0 < chain.length then some (chain.length - 1) else none
  block chain height :=
    match chain[height]? with
    | some block => .ok block
    | none => .error "resource was not found"
  compressionHeight database := database.getLast?
  writeToRegistry _ _ _ := .ok ()
  commitChangesWithHeightUpdate database _ heights := plainAdvance database heights
  decompress _ _ _ block := .ok ⟨⟨block.height, []⟩, [.mint ⟨0, [], []⟩]⟩
  produceWithoutCommit _ component := .ok (⟨⟨component.headerToProduce.height, 0, []⟩, [], []⟩, ())
  commitResult chain result _ := plainCommit chain result.sealedBlock.entity
  executeAndCommit chain block := plainCommit chain block.entity

theorem plainCommit_ok {chain chain' : List FuelBlock} {block : FuelBlock}
    (h : plainCommit chain block = .ok chain') :
    0 < chain.length ∧ block.height = chain.length ∧ chain' = chain ++ [block] := by
  unfold plainCommit at h
  split at h
  · rename_i hok
    exact ⟨hok.1, hok.2, (Except.ok.inj h).symm⟩
  · contradiction

theorem plainCommit_onTop {chain chain' : List FuelBlock} {block : FuelBlock}
    (h : plainCommit chain block = .ok chain') :
    ∃ height, plainCore.onChainHeight chain = some height ∧ block.height = height + 1 ∧
      plainCore.onChainHeight chain' = some (height + 1) := by
  obtain ⟨hpos, hheight, rfl⟩ := plainCommit_ok h
  refine ⟨chain.length - 1, if_pos hpos, by omega, ?_⟩
  have hlen : (chain ++ [block]).length - 1 = chain.length - 1 + 1 := by simp; omega
  exact (if_pos (by simp)).trans (congrArg some hlen)

theorem plainCore_commitsOnTop : plainCore.CommitsOnTop where
  commitResult h := plainCommit_onTop h
  executeAndCommit h := plainCommit_onTop h

theorem plainAdvance_above {database database' : List Nat} {height : Nat}
    (h : plainAdvance database [height] = .ok database') :
    (∀ latest, database.getLast? = some latest → latest < height) ∧
      database'.getLast? = some height := by
  simp only [plainAdvance] at h
  split at h
  · rename_i hall
    obtain rfl := Except.ok.inj h
    exact ⟨hall, List.getLast?_concat⟩
  · contradiction

theorem plainCore_commitsAbove : plainCore.CommitsAbove := plainAdvance_above

theorem plainCore_keepsHeight : plainCore.KeepsHeight where
  decompress h := by
    obtain rfl := Except.ok.inj h
    rfl
  produce h := by
    obtain ⟨rfl, -⟩ := Prod.mk.inj (Except.ok.inj h)
    rfl

theorem plainCommit_keeps {chain chain' : List FuelBlock} {block : FuelBlock}
    (h : plainCommit chain block = .ok chain') :
    (∀ height found, plainCore.block chain height = .ok found →
      plainCore.block chain' height = .ok found) ∧
      plainCore.block chain' block.height = .ok block := by
  obtain ⟨-, hheight, rfl⟩ := plainCommit_ok h
  refine ⟨fun height found hf => ?_, by simp [plainCore, hheight]⟩
  simp only [plainCore] at hf ⊢
  split at hf
  · rename_i hget
    obtain ⟨hlt, -⟩ := List.getElem?_eq_some_iff.mp hget
    rw [List.getElem?_append_left hlt, hget]
    exact hf
  · contradiction

theorem plainCore_keepsBlocks : plainCore.KeepsBlocks where
  commitResult h := plainCommit_keeps h
  executeAndCommit h := plainCommit_keeps h

/-- A chain of some number of empty blocks, and compression data of these heights. -/
def plainSyncer (blocks : Nat) (heights : List Nat) : BlockSyncer plainCore where
  compressionConfig := 86400
  onChainDatabase := (List.range blocks).map (fun height => (⟨height, 0, []⟩ : FuelBlock))
  database := heights

def plainGenesis : BlockSyncer plainCore := plainSyncer 1 []

theorem plainGenesis_behind : plainGenesis.Behind := by
  intro height h
  contradiction

theorem plainGenesis_whole : plainGenesis.Whole := by
  intro latest height hlatest hle
  obtain rfl : 0 = latest := Option.some.inj hlatest
  obtain rfl := Nat.le_zero.mp hle
  exact ⟨_, rfl⟩

theorem Operation.compression_stays_behind_first_block :
    ∃ t : BlockSyncer plainCore,
      Run step (fun _ (op : Operation Unit) => op.Honest) plainGenesis t ∧
      t.compressionLatestHeight = some 1 ∧ t.Behind ∧
      ∃ block, t.compressionLatestDaHeight = .ok block.daHeight ∧
        plainCore.block t.onChainDatabase 1 = .ok block := by
  obtain ⟨t, run, hheight⟩ :
      ∃ t, Run step (fun _ (op : Operation Unit) => op.Honest) plainGenesis t ∧
        t.compressionLatestHeight = some 1 :=
    ⟨_, Run.start.next (e := .importFromDa Faults.none ⟨1, 0, [], []⟩) trivial rfl, rfl⟩
  obtain ⟨hbehind, -, hfound⟩ := compression_stays_behind plainCore plainCore_commitsOnTop
    plainCore_commitsAbove plainCore_keepsHeight Unit plainGenesis plainGenesis_behind
  obtain ⟨block, hb, hda⟩ := hfound plainCore_keepsBlocks plainGenesis_whole t 1 run hheight
  exact ⟨t, run, hheight, hbehind t run, block, hda, hb⟩

end Watchtower.Syncer
