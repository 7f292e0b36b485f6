import Watchtower.Downloader.BlockBuffer
import Watchtower.Downloader.BundleBuffer
import Watchtower.Downloader.L1

namespace Watchtower
namespace Downloader
open Lib

structure BlobData where
  blob : String
  kzgCommitment : String
  deriving DecidableEq

/-- What the beacon node answers for one beacon block. -/
structure BlobSidecarResponse where
  data : List BlobData
  deriving DecidableEq

/-- What the downloader takes from other crates: the blob codec, `sha2`, `hex`,
the conversion of bytes to a blob of fixed size, and `postcard`. -/
structure Libraries (Blob : Type) extends Codec Blob where
  sha256 : Bytes → Bytes
  hexDecode : String → Except Error Bytes
  blobOfBytes : Bytes → Option Blob
  fromBytes : Bytes → Except Error VersionedCompressedBlock

/-- `trim_start_matches("0x")` takes every leading `0x` off. -/
def trimLeading0x : List Char → List Char
  | '0' :: 'x' :: rest => trimLeading0x rest
  | s => s

def trimStartMatches0x (s : String) : String := String.ofList (trimLeading0x s.toList)

/-- How a 32 byte hash is printed. -/
def B256.display (hash : B256) : String :=
  "0x" ++ String.ofList (hash.flatMap (fun byte =>
    [Nat.digitChar (byte.toNat / 16), Nat.digitChar (byte.toNat % 16)]))

/-- The hashes of the blobs the target contract posted in the block. -/
def getBlockTxBlobs (block : Block) (targetContract : Address) : List B256 :=
  block.transactions.txns.flatMap (fun tx =>
    if tx.sender = targetContract ∧ tx.ty = 3 then tx.blobVersionedHashes.getD [] else [])

theorem BlockTransactions.mem_txns {transactions : BlockTransactions} {tx : Transaction} :
    tx ∈ transactions.txns ↔ ∃ txs, transactions = .full txs ∧ tx ∈ txs := by
  cases transactions <;> simp [BlockTransactions.txns]

theorem Transaction.mem_hashes {tx : Transaction} {hash : B256} :
    hash ∈ tx.blobVersionedHashes.getD [] ↔
      ∃ hashes, tx.blobVersionedHashes = some hashes ∧ hash ∈ hashes := by
  cases tx.blobVersionedHashes <;> simp

/-- The scan finds what the target has posted, and nothing else. -/
theorem mem_getBlockTxBlobs {block : Block} {target : Address} {hash : B256} :
    hash ∈ getBlockTxBlobs block target ↔ block.Posts target hash := by
  rw [getBlockTxBlobs, List.mem_flatMap]
  constructor
  · intro h
    obtain ⟨tx, htx, hm⟩ := h
    obtain ⟨txs, hfull, hin⟩ := BlockTransactions.mem_txns.mp htx
    split at hm
    · rename_i hown
      exact ⟨txs, hfull, tx, hin, hown.1, hown.2, Transaction.mem_hashes.mp hm⟩
    · cases hm
  · intro h
    obtain ⟨txs, hfull, tx, hin, hsender, hty, hm⟩ := h
    refine ⟨tx, BlockTransactions.mem_txns.mpr ⟨txs, hfull, hin⟩, ?_⟩
    rw [if_pos ⟨hsender, hty⟩]
    exact Transaction.mem_hashes.mpr hm

instance (block : Block) (target : Address) (hash : B256) : Decidable (block.Posts target hash) :=
  decidable_of_iff _ mem_getBlockTxBlobs

variable {Blob : Type}

/-- The versioned hash of a KZG commitment: its SHA-256 with the first byte replaced. -/
def Libraries.blobVersionedHash (lib : Libraries Blob) (kzgCommitment : Bytes) : B256 :=
  0x01 :: (lib.sha256 kzgCommitment).drop 1

/-- The blobs of the response whose versioned hash is asked for. A commitment
that is no hex fails the whole response, asked for or not. -/
def getBlobsFromBeaconResponse (lib : Libraries Blob) (hashes : List B256) :
    List BlobData → Except Error (List Blob)
  | [] => .ok []
  | item :: rest =>
    match lib.hexDecode (trimStartMatches0x item.kzgCommitment) with
    | .error err => .error err
    | .ok kzgCommitment =>
      if lib.blobVersionedHash kzgCommitment ∈ hashes then
        match lib.hexDecode (trimStartMatches0x item.blob) with
        | .error err => .error err
        | .ok raw =>
          match lib.blobOfBytes raw with
          | none => .error "Invalid Blob bytes"
          | some blob =>
            match getBlobsFromBeaconResponse lib hashes rest with
            | .error err => .error err
            | .ok result => .ok (blob :: result)
      else getBlobsFromBeaconResponse lib hashes rest

/-- The sending end of the channel of Fuel blocks: what was sent, and how many
sends the receiver stays for, if it is ever dropped. -/
structure Sender where
  sent : List VersionedCompressedBlock
  staysFor : Option Nat
  deriving DecidableEq

def Sender.send (tx : Sender) (block : VersionedCompressedBlock) : Except Error Sender :=
  match tx.staysFor with
  | some n =>
    if tx.sent.length < n then .ok { tx with sent := tx.sent ++ [block] }
    else .error "channel closed"
  | none => .ok { tx with sent := tx.sent ++ [block] }

structure Config where
  ethereumRpcUrl : String
  beaconRpcUrl : String
  blobContract : Address
  daStartBlock : Nat
  nextFuelBlock : Nat
  deriving DecidableEq

end Downloader

open Downloader in
/-- The downloader and the channel it sends to. The L1 blocks come in as
arguments of the functions below. -/
structure Downloader (Blob : Type) where
  beaconUrl : String
  targetContract : Address
  nextFuelBlock : Nat
  bundleBuffers : IncompleteBundleBuffers Blob
  blockBuffer : BlockBuffer
  tx : Sender

namespace Downloader

variable {Blob : Type}

def new (config : Config) (staysFor : Option Nat) : Downloader Blob where
  beaconUrl := config.beaconRpcUrl
  targetContract := config.blobContract
  nextFuelBlock := config.nextFuelBlock
  bundleBuffers := .empty
  blockBuffer := .empty
  tx := ⟨[], staysFor⟩

/-- A GET of a URL, and the JSON read from what it returns. -/
abbrev Http := String → Except Error BlobSidecarResponse

def sidecarsUrl (beaconUrl : String) (nextPbbr : B256) : String :=
  beaconUrl ++ "/eth/v1/beacon/blob_sidecars/" ++ nextPbbr.display

/-- The sidecars of a block hang on the beacon root its successor carries. -/
def getSidecarsFromNextBlock (d : Downloader Blob) (http : Http) (nextBlock : Block) :
    Except Error (Option BlobSidecarResponse) :=
  match nextBlock.header.parentBeaconBlockRoot with
  | none => .ok none
  | some nextPbbr =>
    (http (sidecarsUrl d.beaconUrl nextPbbr)).map some

def pushBlocks (lib : Libraries Blob) (d : Downloader Blob) :
    List Bytes → EStateM.Result Error (Downloader Blob) Unit
  | [] => .ok () d
  | bytes :: rest =>
    match lib.fromBytes bytes with
    | .error err => .error err d
    | .ok block => pushBlocks lib { d with blockBuffer := d.blockBuffer.push block } rest

/-- The loop that sends blocks while the next one is there. Each round takes a
block out of the buffer, so its size bounds the rounds. -/
def sendReady : Nat → Downloader Blob → EStateM.Result Error (Downloader Blob) Unit
  | 0, d => .ok () d
  | rounds + 1, d =>
    match d.blockBuffer.popHeight d.nextFuelBlock with
    | none => .ok () d
    | some (block, rest) =>
      match d.tx.send block with
      | .error err => .error err { d with blockBuffer := rest }
      | .ok tx =>
        match BlockHeight.succ d.nextFuelBlock with
        | none => .error "Out of Fuel block numbers" { d with blockBuffer := rest, tx }
        | some next =>
          sendReady rounds { d with blockBuffer := rest, tx, nextFuelBlock := next }

/-- What follows on a bundle that is complete. -/
def takeBundle (lib : Libraries Blob) (d : Downloader Blob) (bundle : Bundle) :
    EStateM.Result Error (Downloader Blob) Unit :=
  match d.pushBlocks lib bundle.blocks with
  | .error err d => .error err d
  | .ok () d =>
    let d := { d with blockBuffer := d.blockBuffer.pruneBelow d.nextFuelBlock }
    sendReady d.blockBuffer.blocks.size d

/-- The loop of `process_block` over the blobs of a block. -/
def insertBlobs (lib : Libraries Blob) (d : Downloader Blob) :
    List Blob → EStateM.Result Error (Downloader Blob) Unit
  | [] => .ok () d
  | blob :: rest =>
    match IncompleteBundleBuffers.insert lib.toCodec d.bundleBuffers blob with
    | .error err bundleBuffers => .error err { d with bundleBuffers }
    | .ok .incomplete bundleBuffers => insertBlobs lib { d with bundleBuffers } rest
    | .ok (.complete bundle) bundleBuffers =>
      match takeBundle lib { d with bundleBuffers } bundle with
      | .error err d => .error err d
      | .ok () d => insertBlobs lib d rest

def processBlock (lib : Libraries Blob) (d : Downloader Blob) (http : Http)
    (thisBlock nextBlock : Block) : EStateM.Result Error (Downloader Blob) Unit :=
  let blobIds := getBlockTxBlobs thisBlock d.targetContract
  match d.getSidecarsFromNextBlock http nextBlock with
  | .error err => .error err d
  | .ok none => .ok () d
  | .ok (some sidecars) =>
    match getBlobsFromBeaconResponse lib blobIds sidecars.data with
    | .error err => .error err d
    | .ok blobs => d.insertBlobs lib blobs

/-- One turn of `stream_inner`: the next item of the download stream, and what
the beacon node answers until the turn is over. -/
structure Turn where
  item : Except Error Block
  http : Http

/-- The loop of `stream_inner`, as far as the download stream has come. -/
def follow (lib : Libraries Blob) (d : Downloader Blob) (thisBlock : Block) :
    List Turn → EStateM.Result Error (Downloader Blob) Unit
  | [] => .ok () d
  | turn :: rest =>
    match turn.item with
    | .error err => .error err d
    | .ok nextBlock =>
      match d.processBlock lib turn.http thisBlock nextBlock with
      | .error err d => .error err d
      | .ok () d => follow lib d nextBlock rest

def streamInner (lib : Libraries Blob) (d : Downloader Blob) :
    List Turn → EStateM.Result Error (Downloader Blob) Unit
  | [] => .ok () d
  | turn :: rest =>
    match turn.item with
    | .error err => .error err d
    | .ok thisBlock => d.follow lib thisBlock rest

/-- The items of `stream` so far: what was sent, then the error that ended it. -/
def streamed : EStateM.Result Error (Downloader Blob) Unit →
    List (Except Error VersionedCompressedBlock)
  | .ok () d => d.tx.sent.map .ok
  | .error err d => d.tx.sent.map .ok ++ [.error err]

end Downloader
end Watchtower
