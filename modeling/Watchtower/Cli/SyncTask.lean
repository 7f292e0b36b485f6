import Watchtower.Downloader.ProcessBlock
import Watchtower.Syncer.BlockSyncer

namespace Watchtower.Cli
open Syncer

/-- The side of the downloader that the task does not choose: the libraries,
what the download stream and the beacon node hand over, and how long the task
listens. -/
structure DaSide (Blob : Type) where
  lib : Downloader.Libraries Blob
  turns : List Downloader.Turn
  staysFor : Option Nat

structure UninitializedTask (core : FuelCore) where
  blockSyncer : BlockSyncer core
  downloaderConfig : Downloader.Config

/-- The task, with the items of its stream that are yet to come. -/
structure Task (core : FuelCore) where
  blockSyncer : BlockSyncer core
  streamFromDa : List (Except Error VersionedCompressedBlock)

inductive TaskNextAction where
  | continue
  | stop
  deriving DecidableEq

variable {core : FuelCore} {FullBlock Blob : Type}

/-- `into_task`. The two calls of `expect` panic, which no caller survives. -/
def UninitializedTask.intoTask (task : UninitializedTask core)
    (aroundBlocks aroundCompression : BlockSyncer.Surroundings FullBlock) (da : DaSide Blob) :
    EStateM.Result Error (BlockSyncer core) (Task core) :=
  match task.blockSyncer.syncAsMuchAsPossibleFromGraphql aroundBlocks with
  | .error err s => .error err s
  | .ok () s =>
    match s.syncCompressionFromGraphql aroundCompression with
    | .error err s => .error err s
    | .ok () s =>
      match s.compressionLatestDaHeight with
      | .error err => .error err s
      | .ok daStartBlock =>
        match s.compressionLatestHeight with
        | none =>
          .error "If we have the latest da height, we have the latest fuel height as well" s
        | some latest =>
          match BlockHeight.succ latest with
          | none => .error "Out of Fuel block heights" s
          | some nextFuelBlock =>
            let config := { task.downloaderConfig with daStartBlock, nextFuelBlock }
            let outcome := (Downloader.new config da.staysFor).streamInner da.lib da.turns
            .ok ⟨s, Downloader.streamed outcome⟩ s

/-- What ends the wait of `run`: the stop signal, or an item of the stream. Of
an import it tells which steps fail from outside. -/
inductive Wake where
  | stopSignal
  | item (fails : Faults)

namespace Task

def run (task : Task core) : Wake → TaskNextAction × Task core
  | .stopSignal => (.stop, task)
  | .item fails =>
    match task.streamFromDa with
    | [] => (.stop, task)
    | .error _ :: rest => (.stop, { task with streamFromDa := rest })
    | .ok compressedBlock :: rest =>
      match task.blockSyncer.importBlockFromDa fails compressedBlock with
      | .error _ s => (.stop, ⟨s, rest⟩)
      | .ok () s => (.continue, ⟨s, rest⟩)

end Task

/-- The service that calls `run` until it says to stop. -/
structure Service (core : FuelCore) where
  task : Task core
  running : Bool

def Service.step (service : Service core) (wake : Wake) : Option (Service core) :=
  if service.running then
    let (action, task) := service.task.run wake
    some ⟨task, action = .continue⟩
  else none

end Watchtower.Cli
