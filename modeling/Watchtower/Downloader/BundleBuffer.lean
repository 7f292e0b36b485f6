import Watchtower.Lib.SortedMap
import Watchtower.Types

namespace Watchtower.Downloader
open Lib

structure HeaderV1 where
  bundleId : Nat
  idx : Nat
  isLast : Bool
  deriving DecidableEq

/-- The header of a blob. -/
inductive BlobHeader where
  | v1 (header : HeaderV1)
  deriving DecidableEq

namespace BlobHeader

def bundleId : BlobHeader → Nat
  | .v1 header => header.bundleId

def idx : BlobHeader → Nat
  | .v1 header => header.idx

def isLast : BlobHeader → Bool
  | .v1 header => header.isLast

end BlobHeader

structure BundleV1 where
  blocks : List Bytes
  deriving DecidableEq

inductive Bundle where
  | v1 (bundle : BundleV1)
  deriving DecidableEq

def Bundle.blocks : Bundle → List Bytes
  | .v1 bundle => bundle.blocks

/-- The blob encoding of the block committer, which lies outside this
repository: `blob::Decoder` and `bundle::Decoder`. -/
structure Codec (Blob : Type) where
  readHeader : Blob → Except Error BlobHeader
  decode : List Blob → Except Error Bytes
  decodeBundle : Bytes → Except Error Bundle

inductive Inserted where
  | complete (bundle : Bundle)
  | incomplete
  deriving DecidableEq

def Inserted.bundle? : Inserted → Option Bundle
  | .complete bundle => some bundle
  | .incomplete => none

variable {Blob : Type}

/-- The blobs of each bundle that is not complete yet, in order of index. The
source hashes the ids; nothing here looks at their order. -/
structure IncompleteBundleBuffers (Blob : Type) where
  bundleBufferById : SortedMap Nat (List (BlobHeader × Blob))

namespace IncompleteBundleBuffers

def empty : IncompleteBundleBuffers Blob := ⟨.empty⟩

/-- `binary_search_by_key` on a list in order of index: the place of the key,
or else the place where it belongs. -/
def binarySearchByKey (blobs : List (BlobHeader × Blob)) (idx : Nat) : Except Nat Nat :=
  let place := (blobs.takeWhile (fun e => e.1.idx < idx)).length
  match blobs[place]? with
  | some e => if e.1.idx = idx then .ok place else .error place
  | none => .error place

def lastIsLast (blobs : List (BlobHeader × Blob)) : Bool :=
  match blobs.getLast? with
  | some (header, _) => header.isLast
  | none => true

/-- Every index is its own position, counting from `expected`. -/
def inPosition (expected : Nat) : List (BlobHeader × Blob) → Bool
  | [] => true
  | (header, _) :: rest => header.idx = expected && inPosition (expected + 1) rest

/-- Files the blob with the others of its bundle, and hands the bundle out once
the blobs are all there. The buffers keep what was done to them on errors too. -/
def insert (codec : Codec Blob) (buffers : IncompleteBundleBuffers Blob) (blob : Blob) :
    EStateM.Result Error (IncompleteBundleBuffers Blob) Inserted :=
  match codec.readHeader blob with
  | .error err => .error err buffers
  | .ok header =>
    let bundleId := header.bundleId
    let blobs := (buffers.bundleBufferById.get? bundleId).getD []
    match binarySearchByKey blobs header.idx with
    | .ok _ =>
      .error s!"Duplicate blob with index {header.idx}"
        ⟨buffers.bundleBufferById.insert bundleId blobs⟩
    | .error idx =>
      let blobs := blobs.insertIdx idx (header, blob)
      let buffers := buffers.bundleBufferById.insert bundleId blobs
      if lastIsLast blobs && inPosition 0 blobs then
        let buffers := buffers.erase bundleId
        match codec.decode (blobs.map Prod.snd) with
        | .error err => .error err ⟨buffers⟩
        | .ok bytes =>
          match codec.decodeBundle bytes with
          | .error err => .error err ⟨buffers⟩
          | .ok bundle => .ok (.complete bundle) ⟨buffers⟩
      else .ok .incomplete ⟨buffers⟩

end IncompleteBundleBuffers
end Watchtower.Downloader
