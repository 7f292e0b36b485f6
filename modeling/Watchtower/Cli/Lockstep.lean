import Watchtower.Cli.SyncTask
import Watchtower.Downloader.Emission
import Watchtower.Syncer.Redelivery

namespace Watchtower.Cli
open Lib Syncer Downloader

variable {core : FuelCore} {FullBlock Blob : Type}

/-- While the service runs, the next item of the stream is the next block for
the compression database, or an error. -/
def InStep (service : Service core) : Prop :=
  service.running = true → service.task.blockSyncer.Behind ∧
    ∃ c, service.task.blockSyncer.compressionLatestHeight = some c ∧
      InSequence (c + 1) service.task.streamFromDa

/-- The block that a wake hands to `import_block_from_da`. -/
def Service.handed (service : Service core) : Wake → Option VersionedCompressedBlock
  | .stopSignal => none
  | .item _ =>
    match service.running, service.task.streamFromDa with
    | true, .ok block :: _ => some block
    | _, _ => none

/-- Everything a step of the service does. -/
inductive Stepped (service : Service core) : Wake → Service core → Prop where
  | idle {wake : Wake} {task : Task core} (none : service.handed wake = none) :
      Stepped service wake ⟨task, false⟩
  | failed {fails : Faults} {block : VersionedCompressedBlock} {err : Error}
      {s : BlockSyncer core} {rest : List (Except Error VersionedCompressedBlock)}
      (head : service.task.streamFromDa = .ok block :: rest)
      (run : service.task.blockSyncer.importBlockFromDa fails block = .error err s) :
      Stepped service (.item fails) ⟨⟨s, rest⟩, false⟩
  | imported {fails : Faults} {block : VersionedCompressedBlock} {s : BlockSyncer core}
      {rest : List (Except Error VersionedCompressedBlock)}
      (head : service.task.streamFromDa = .ok block :: rest)
      (run : service.task.blockSyncer.importBlockFromDa fails block = .ok () s) :
      Stepped service (.item fails) ⟨⟨s, rest⟩, true⟩

theorem step_cases {service after : Service core} {wake : Wake}
    (h : service.step wake = some after) : service.running = true ∧ Stepped service wake after := by
  unfold Service.step at h
  split at h
  · rename_i hrunning
    refine ⟨hrunning, ?_⟩
    cases wake with
    | stopSignal =>
      obtain rfl := Option.some.inj h
      exact .idle rfl
    | item fails =>
      cases hs : service.task.streamFromDa with
      | nil =>
        simp only [Task.run, hs] at h
        obtain rfl := Option.some.inj h
        exact .idle (by simp [Service.handed, hs])
      | cons item rest =>
        cases item with
        | error err =>
          simp only [Task.run, hs] at h
          obtain rfl := Option.some.inj h
          exact .idle (by simp [Service.handed, hs])
        | ok block =>
          cases hrun : service.task.blockSyncer.importBlockFromDa fails block with
          | error err s =>
            simp only [Task.run, hs, hrun] at h
            obtain rfl := Option.some.inj h
            exact .failed hs hrun
          | ok _ s =>
            simp only [Task.run, hs, hrun] at h
            obtain rfl := Option.some.inj h
            exact .imported hs hrun
  · contradiction

theorem InStep.step (hontop : core.CommitsOnTop) (habove : core.CommitsAbove)
    {service after : Service core} {wake : Wake}
    (h : InStep service) (hstep : service.step wake = some after) : InStep after := by
  obtain ⟨hrunning, hcases⟩ := step_cases hstep
  obtain ⟨hbehind, c, hc, hseq⟩ := h hrunning
  cases hcases with
  | idle => exact fun hr => absurd hr Bool.false_ne_true
  | failed => exact fun hr => absurd hr Bool.false_ne_true
  | imported head run =>
    rw [head] at hseq
    obtain ⟨hnow, hbehind'⟩ := hbehind.import_next hontop habove hc hseq.1 run
    exact fun _ => ⟨hbehind', c + 1, hnow, hseq.2⟩

theorem handed_eq_some {service : Service core} {wake : Wake} {block : VersionedCompressedBlock}
    (h : service.handed wake = some block) :
    service.running = true ∧ ∃ rest, service.task.streamFromDa = .ok block :: rest := by
  cases wake with
  | stopSignal => contradiction
  | item fails =>
    simp only [Service.handed] at h
    split at h
    · rename_i other rest hrunning hs
      obtain rfl := Option.some.inj h
      exact ⟨hrunning, rest, hs⟩
    · contradiction

/-- A sentry whose last block is the one of height 1. -/
def quietSentry : FuelClient Unit where
  chainInfo := .ok ⟨1, 0⟩
  fullBlocks _ := .ok []
  daCompressedBlock _ := .ok none
  ofFullBlock _ _ := .error "no such block"
  fromBytes _ := .error "no such block"

def quiet : BlockSyncer.Surroundings Unit where
  sentry := quietSentry
  sentryAt _ := quietSentry
  awaitAtLeastSynced _ := .ok ()
  fails _ := Faults.none
  stopsAt := none

end Watchtower.Cli
