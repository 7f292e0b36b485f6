import Watchtower.Lib.SortedMap
import Watchtower.Types

namespace Watchtower.Syncer
open Lib

/-- A block of the chain, as far as the syncer reads its header. -/
structure FuelBlock where
  height : Nat
  daHeight : Nat
  content : Bytes
  deriving DecidableEq

/-- A block with the signature of its producer. -/
structure SealedBlock where
  entity : FuelBlock
  signature : Bytes
  deriving DecidableEq

structure Mint where
  gasPrice : Nat
  contractId : Bytes
  content : Bytes
  deriving DecidableEq

inductive FuelTransaction where
  | mint (tx : Mint)
  | other (content : Bytes)
  deriving DecidableEq

def FuelTransaction.asMint : FuelTransaction → Option Mint
  | .mint tx => some tx
  | .other _ => none

structure PartialBlockHeader where
  height : Nat
  content : Bytes
  deriving DecidableEq

structure PartialFuelBlock where
  header : PartialBlockHeader
  transactions : List FuelTransaction
  deriving DecidableEq

/-- What the executor makes a block of. -/
structure Components where
  headerToProduce : PartialBlockHeader
  transactionsSource : List FuelTransaction
  coinbaseRecipient : Bytes
  gasPrice : Nat
  deriving DecidableEq

structure ExecutionResult where
  block : FuelBlock
  txStatus : Bytes
  events : Bytes
  deriving DecidableEq

structure ImportResult where
  sealedBlock : SealedBlock
  txStatus : Bytes
  events : Bytes
  deriving DecidableEq

/-- Changes of the compression database: its table of compressed blocks, and
what registrations write to the registry. -/
structure CompressionChanges (RegistryChanges : Type) where
  compressedBlocks : SortedMap Nat VersionedCompressedBlock
  registry : RegistryChanges

/-- What the syncer uses of fuel-core: the on-chain and the compression
database, execution, decompression and the importer. Every function here is
what the call does when nothing fails from outside; a commit that fails leaves
its database as it was. -/
structure FuelCore where
  OnChain : Type
  Compression : Type
  RegistryChanges : Type
  ExecutionChanges : Type
  onChainHeight : OnChain → Option Nat
  block : OnChain → Nat → Except Error FuelBlock
  compressionHeight : Compression → Option Nat
  writeToRegistry : Compression → Bytes → Nat → Except Error RegistryChanges
  /-- `commit_changes_with_height_update`, with the heights found in the changes. -/
  commitChangesWithHeightUpdate : Compression → CompressionChanges RegistryChanges → List Nat →
    Except Error Compression
  /-- The first argument is the retention of the registry. -/
  decompress : Nat → Compression → OnChain → VersionedCompressedBlock →
    Except Error PartialFuelBlock
  produceWithoutCommit : OnChain → Components → Except Error (ExecutionResult × ExecutionChanges)
  commitResult : OnChain → ImportResult → ExecutionChanges → Except Error OnChain
  executeAndCommit : OnChain → SealedBlock → Except Error OnChain

namespace FuelCore

variable {core : FuelCore}

/-- `commit_compression` of the compression database. The heights of the
changes are those of their compressed blocks, the last one first. -/
def commitCompression (core : FuelCore) (database : core.Compression)
    (changes : CompressionChanges core.RegistryChanges) : Except Error core.Compression :=
  core.commitChangesWithHeightUpdate database changes changes.compressedBlocks.keys.reverse

/-- The importer takes nothing but the block on top of the chain. -/
structure CommitsOnTop (core : FuelCore) : Prop where
  commitResult : ∀ {chain chain' : core.OnChain} {result changes},
    core.commitResult chain result changes = .ok chain' →
    ∃ h, core.onChainHeight chain = some h ∧ result.sealedBlock.entity.height = h + 1 ∧
      core.onChainHeight chain' = some (h + 1)
  executeAndCommit : ∀ {chain chain' : core.OnChain} {block},
    core.executeAndCommit chain block = .ok chain' →
    ∃ h, core.onChainHeight chain = some h ∧ block.entity.height = h + 1 ∧
      core.onChainHeight chain' = some (h + 1)

/-- The other way round: the importer takes the block on top of the chain,
when nothing fails from outside. -/
def AcceptsOnTop (core : FuelCore) : Prop :=
  ∀ (chain : core.OnChain) (block : SealedBlock) height,
    core.onChainHeight chain = some height → block.entity.height = height + 1 →
    ∃ chain', core.executeAndCommit chain block = .ok chain'

/-- The compression database takes changes of one height only, above its
latest, which becomes the latest; any height will do when it is empty. -/
def CommitsAbove (core : FuelCore) : Prop :=
  ∀ {database database' : core.Compression} {changes height},
    core.commitChangesWithHeightUpdate database changes [height] = .ok database' →
    (∀ latest, core.compressionHeight database = some latest → latest < height) ∧
      core.compressionHeight database' = some height

/-- And back: registrations are written, and changes of a height above the
latest are taken, when nothing fails from outside. -/
structure AcceptsAbove (core : FuelCore) : Prop where
  write : ∀ (database : core.Compression) registrations time,
    ∃ changes, core.writeToRegistry database registrations time = .ok changes
  commit : ∀ (database : core.Compression) changes height,
    (∀ latest, core.compressionHeight database = some latest → latest < height) →
    ∃ database', core.commitChangesWithHeightUpdate database changes [height] = .ok database'

/-- Decompression and execution keep the height of the block. -/
structure KeepsHeight (core : FuelCore) : Prop where
  decompress : ∀ {retention} {database : core.Compression} {chain : core.OnChain}
    {block partialBlock},
    core.decompress retention database chain block = .ok partialBlock →
    partialBlock.header.height = block.height
  produce : ∀ {chain : core.OnChain} {component result changes},
    core.produceWithoutCommit chain component = .ok (result, changes) →
    result.block.height = component.headerToProduce.height

/-- A block that was found is still found after a commit, and so is the one committed. -/
structure KeepsBlocks (core : FuelCore) : Prop where
  commitResult : ∀ {chain chain' : core.OnChain} {result changes},
    core.commitResult chain result changes = .ok chain' →
    (∀ h block, core.block chain h = .ok block → core.block chain' h = .ok block) ∧
      core.block chain' result.sealedBlock.entity.height = .ok result.sealedBlock.entity
  executeAndCommit : ∀ {chain chain' : core.OnChain} {block},
    core.executeAndCommit chain block = .ok chain' →
    (∀ h found, core.block chain h = .ok found → core.block chain' h = .ok found) ∧
      core.block chain' block.entity.height = .ok block.entity

end FuelCore
end Watchtower.Syncer
