import Watchtower.Lib.Chunks
import Watchtower.Syncer.BlockFetcher

namespace Watchtower.Syncer
open Lib

/-- The steps of the syncer that something outside can make fail. -/
inductive SyncStep where
  | executeAndCommit
  | applyCompression
  | decompressBlock
  | mintExtraction
  | execution
  | commitResult
  | commitCompression
  deriving DecidableEq

/-- What fails from outside, and with which error. -/
abbrev Faults := SyncStep → Option Error

def Faults.none : Faults := fun _ => Option.none

/-- A step comes to what it computes, unless it is made to fail. -/
def Faults.attempt {α : Type} (fails : Faults) (step : SyncStep) (outcome : Except Error α) :
    Except Error α :=
  match fails step with
  | some err => .error err
  | Option.none => outcome

structure BlockSyncer (core : FuelCore) where
  /-- The retention of the temporal registry, in seconds. -/
  compressionConfig : Nat
  onChainDatabase : core.OnChain
  database : core.Compression

namespace BlockSyncer

variable {core : FuelCore}

/-- `new` on the databases another syncer left behind, maybe with another retention. -/
def reopen (s : BlockSyncer core) (compressionConfig : Nat) : BlockSyncer core :=
  { s with compressionConfig }

def onChainLatestHeight (s : BlockSyncer core) : Except Error Nat :=
  match core.onChainHeight s.onChainDatabase with
  | some height => .ok height
  | none => .error "No genesis block"

def compressionLatestHeight (s : BlockSyncer core) : Option Nat :=
  core.compressionHeight s.database

def compressionLatestDaHeight (s : BlockSyncer core) : Except Error Nat :=
  match s.compressionLatestHeight with
  | none => .error "No compression data found in the database"
  | some blockHeight => (core.block s.onChainDatabase blockHeight).map FuelBlock.daHeight

/-- The changes of one block, in a transaction that is not committed. -/
def applyCompression (s : BlockSyncer core) (block : VersionedCompressedBlock) :
    Except Error (CompressionChanges core.RegistryChanges) :=
  (core.writeToRegistry s.database block.registrations block.time).map
    (fun registry => ⟨SortedMap.empty.insert block.height block, registry⟩)

/-- Decompresses against the database as it is committed. -/
def decompressBlock (s : BlockSyncer core) (block : VersionedCompressedBlock) :
    Except Error PartialFuelBlock :=
  core.decompress s.compressionConfig s.database s.onChainDatabase block

def mintTx (transactions : List FuelTransaction) : Except Error Mint :=
  match transactions.getLast?.bind FuelTransaction.asMint with
  | some mint => .ok mint
  | none => .error "The last transaction in the block should be a mint transaction"

/-- The block is known to be signed by its producer, so it gets no signature. -/
def importResult (result : ExecutionResult) : ImportResult where
  sealedBlock := ⟨result.block, List.replicate 64 0⟩
  txStatus := result.txStatus
  events := result.events

def component (decompressedBlock : PartialFuelBlock) (mint : Mint) : Components where
  headerToProduce := decompressedBlock.header
  transactionsSource := decompressedBlock.transactions.dropLast
  coinbaseRecipient := mint.contractId
  gasPrice := mint.gasPrice

/-- The part of `import_block_from_da` for a block above the chain. -/
def executeBlock (s : BlockSyncer core) (fails : Faults)
    (compressedBlock : VersionedCompressedBlock) : Except Error core.OnChain :=
  match fails.attempt .decompressBlock (s.decompressBlock compressedBlock) with
  | .error err => .error err
  | .ok decompressedBlock =>
    match fails.attempt .mintExtraction (mintTx decompressedBlock.transactions) with
    | .error err => .error err
    | .ok mint =>
      match fails.attempt .execution
        (core.produceWithoutCommit s.onChainDatabase (component decompressedBlock mint)) with
      | .error err => .error err
      | .ok (executionResult, changes) =>
        fails.attempt .commitResult
          (core.commitResult s.onChainDatabase (importResult executionResult) changes)

/-- Whether the block is skipped, being at or below both heights. -/
def alreadyKnown (s : BlockSyncer core) (height onChainHeight : Nat) : Bool :=
  height ≤ onChainHeight &&
    match s.compressionLatestHeight with
    | some compressionBlockHeight => height ≤ compressionBlockHeight
    | none => false

def importBlockFromDa (s : BlockSyncer core) (fails : Faults)
    (compressedBlock : VersionedCompressedBlock) :
    EStateM.Result Error (BlockSyncer core) Unit :=
  let blockHeight := compressedBlock.height
  match s.onChainLatestHeight with
  | .error err => .error err s
  | .ok onChainHeight =>
    if s.alreadyKnown blockHeight onChainHeight then .ok () s
    else
      match fails.attempt .applyCompression (s.applyCompression compressedBlock) with
      | .error err => .error err s
      | .ok compressionChanges =>
        match if blockHeight ≤ onChainHeight then .ok s.onChainDatabase
          else s.executeBlock fails compressedBlock with
        | .error err => .error err s
        | .ok onChainDatabase =>
          -- the height of the compression database is the one read at the start
          if s.compressionLatestHeight.getD 0 < blockHeight then
            match fails.attempt .commitCompression
              (core.commitCompression s.database compressionChanges) with
            | .error err => .error err { s with onChainDatabase }
            | .ok database => .ok () { s with onChainDatabase, database }
          else .ok () { s with onChainDatabase }

/-- What a call to the GraphQL sync meets: the sentry as its first request
finds it and as the request for each chunk does, the relayer, the steps that
fail for each block, and the block before which the stop signal comes, if any. -/
structure Surroundings (FullBlock : Type) where
  sentry : FuelClient FullBlock
  sentryAt : Nat → FuelClient FullBlock
  awaitAtLeastSynced : Nat → Except Error Unit
  fails : Nat → Faults
  stopsAt : Option Nat

variable {FullBlock : Type}

def saturatingAdd (a b : Nat) : Nat := min (a + b) u32Max

/-- The range of heights that a chunk of them is turned into. -/
def chunkRange : List Nat → HeightRange
  | [] => ⟨0, 0⟩
  | start :: rest => ⟨start, saturatingAdd start (rest.length + 1)⟩

/-- The ranges fetched for the heights from `start` up to `stop`. -/
def fetchRanges (start stop : Nat) : List HeightRange :=
  (chunks 40 (List.range' start (stop - start))).map chunkRange

/-- What the receiver gets of the chunks: everything before the first that fails. -/
def delivered {α : Type} : List (Except Error (List α)) → List α
  | .ok items :: rest => items ++ delivered rest
  | .error _ :: _ | [] => []

def stopSignal : Error := "Received stop signal during synchronization via the GraphQl"

def stopSignalOfCompression : Error :=
  "Received stop signal during synchronization of compression data via the GraphQl"

/-- The loop of `sync_as_much_as_possible_from_graphql` over the blocks
received, the first of which is block number `i`. -/
def executeReceived (around : Surroundings FullBlock) (s : BlockSyncer core) (i : Nat) :
    List SealedBlock → EStateM.Result Error (BlockSyncer core) Unit
  | [] => if around.stopsAt = some i then .error stopSignal s else .ok () s
  | block :: rest =>
    if around.stopsAt = some i then .error stopSignal s
    else
      match around.awaitAtLeastSynced block.entity.daHeight with
      | .error err => .error err s
      | .ok () =>
        match (around.fails i).attempt .executeAndCommit
          (core.executeAndCommit s.onChainDatabase block) with
        | .error err => .error err s
        | .ok onChainDatabase =>
          executeReceived around { s with onChainDatabase } (i + 1) rest

def syncAsMuchAsPossibleFromGraphql (around : Surroundings FullBlock) (s : BlockSyncer core) :
    EStateM.Result Error (BlockSyncer core) Unit :=
  match s.onChainLatestHeight with
  | .error err => .error err s
  | .ok currentHeight =>
    match around.sentry.lastHeight with
    | .error err => .error err s
    | .ok latestRemoteHeight =>
      let ranges := fetchRanges (saturatingAdd currentHeight 1) latestRemoteHeight
      executeReceived around s 0
        (delivered (ranges.mapIdx (fun k range => (around.sentryAt k).blocksFor range)))

/-- `commit_compression` of the syncer. -/
def commitCompression (s : BlockSyncer core) (fails : Faults) (block : VersionedCompressedBlock) :
    Except Error (BlockSyncer core) :=
  match fails.attempt .applyCompression (s.applyCompression block) with
  | .error err => .error err
  | .ok changes =>
    match fails.attempt .commitCompression (core.commitCompression s.database changes) with
    | .error err => .error err
    | .ok database => .ok { s with database }

/-- The loop of `sync_compression_from_graphql` over what is received. Nothing
for a height ends the sync once there is compression data, and is skipped
before that. -/
def commitReceived (around : Surroundings FullBlock) (s : BlockSyncer core)
    (latestCompressionHeight : Option Nat) (i : Nat) :
    List (Option VersionedCompressedBlock) → EStateM.Result Error (BlockSyncer core) Unit
  | [] => if around.stopsAt = some i then .error stopSignalOfCompression s else .ok () s
  | received :: rest =>
    if around.stopsAt = some i then .error stopSignalOfCompression s
    else
      match received with
      | none =>
        if latestCompressionHeight.isSome then .ok () s
        else commitReceived around s latestCompressionHeight (i + 1) rest
      | some block =>
        match s.commitCompression (around.fails i) block with
        | .error err => .error err s
        | .ok s => commitReceived around s (some block.height) (i + 1) rest

/-- The lowest height asked for: within the retention window, and above what is there. -/
def startCompressionHeight (s : BlockSyncer core) (targetCompressionHeight : Nat) : Nat :=
  max (targetCompressionHeight - s.compressionConfig)
    (saturatingAdd (s.compressionLatestHeight.getD 0) 1)

def syncCompressionFromGraphql (around : Surroundings FullBlock) (s : BlockSyncer core) :
    EStateM.Result Error (BlockSyncer core) Unit :=
  match s.onChainLatestHeight with
  | .error err => .error err s
  | .ok targetCompressionHeight =>
    if u32Max < s.compressionConfig then
      .error "out of range integral type conversion attempted" s
    else
      let ranges := fetchRanges (s.startCompressionHeight targetCompressionHeight)
        targetCompressionHeight
      commitReceived around s s.compressionLatestHeight 0
        (delivered (ranges.mapIdx (fun k range => (around.sentryAt k).compressedBlocksFor range)))

end BlockSyncer
end Watchtower.Syncer
