import Watchtower.Types

namespace Watchtower.Downloader

/-- Twenty bytes. -/
abbrev Address := Bytes

/-- A block hash or a beacon block root: thirty-two bytes. -/
abbrev B256 := Bytes

/-- What the scan of a block reads of an L1 transaction. `sender` is `from()`. -/
structure Transaction where
  sender : Address
  ty : Nat
  blobVersionedHashes : Option (List B256)
  deriving DecidableEq

/-- The node sends whole transactions only when asked for a full block. -/
inductive BlockTransactions where
  | full (txs : List Transaction)
  | hashes (ids : List B256)
  | uncle
  deriving DecidableEq

def BlockTransactions.txns : BlockTransactions → List Transaction
  | .full txs => txs
  | .hashes _ | .uncle => []

structure Header where
  number : Nat
  hash : B256
  parentHash : B256
  parentBeaconBlockRoot : Option B256
  deriving DecidableEq

/-- An L1 block. Its number is a u64 in the source. -/
structure Block where
  header : Header
  transactions : BlockTransactions
  deriving DecidableEq

abbrev Block.number (b : Block) : Nat := b.header.number

/-- The target has posted the blob of this hash: a blob transaction of its own in
the block carries it. -/
def Block.Posts (block : Block) (target : Address) (hash : B256) : Prop :=
  ∃ txs, block.transactions = .full txs ∧ ∃ tx ∈ txs, tx.sender = target ∧ tx.ty = 3 ∧
    ∃ hashes, tx.blobVersionedHashes = some hashes ∧ hash ∈ hashes

end Watchtower.Downloader
