import Watchtower.Cli.Lives
import Watchtower.Downloader.Turns

namespace Watchtower.Cli
open Lib Syncer Downloader

namespace Host

variable {core : FuelCore} {FullBlock Blob : Type} {lib : Libraries Blob}
  {message : Queue.Failure → Error} {config : Config} {s : BlockSyncer core}
  {host after : Host core Blob} {x y : Pipeline Blob}

/-- What happens in a life once `into_task` has returned. -/
def Event.within : Event FullBlock → Prop
  | .boot _ _ _ _ => False
  | .stream _ | .wake _ | .crash => True

instance : DecidablePred (@Event.within FullBlock)
  | .boot _ _ _ _ => isFalse id
  | .stream _ | .wake _ | .crash => isTrue trivial

/-- The machine has done what the service does that goes over the items taken
so far, whatever items follow. -/
structure Serves (lib : Libraries Blob) (message : Queue.Failure → Error) (config : Config)
    (s : BlockSyncer core) (host : Host core Blob) (x : Pipeline Blob) : Prop where
  run : Run (Pipeline.step lib message) (fun _ _ => True) (Pipeline.start config) x
  here : x.gone = false
  on : ∀ y, host.streamFromDa = some y → y = x
  serves : ∀ rest, Run Service.step (fun _ _ => True) ⟨⟨s, x.outlet.received ++ rest⟩, true⟩
    ⟨⟨host.blockSyncer, rest⟩, host.streamFromDa.isSome⟩

theorem start_serves (lib : Libraries Blob) (message : Queue.Failure → Error) (config : Config)
    (s : BlockSyncer core) :
    Serves lib message config s ⟨s, some (Pipeline.start config)⟩ (Pipeline.start config) where
  run := .start
  here := rfl
  on _ h := (Option.some.inj h).symm
  serves _ := .start

/-- The item at the head of the list is the one that was taken. -/
theorem Serves.takes (h : Serves lib message config s host x) (on : host.streamFromDa.isSome = true)
    {item : Except Error VersionedCompressedBlock}
    {outlet : Outlet 1024 Error VersionedCompressedBlock}
    (next : x.outlet.next? = some (item, outlet))
    (rest : List (Except Error VersionedCompressedBlock)) :
    Run Service.step (fun _ _ => True) ⟨⟨s, outlet.received ++ rest⟩, true⟩
      ⟨⟨host.blockSyncer, item :: rest⟩, true⟩ := by
  have hserves := h.serves (item :: rest)
  rw [on] at hserves
  rwa [(Outlet.next?_spec next).1, List.append_assoc]

/-- A life that is over, wherever it ended, is a service that was told to stop. -/
theorem Serves.stops (h : Serves lib message config s host x) :
    Serves lib message config s ⟨host.blockSyncer, none⟩ x where
  run := h.run
  here := h.here
  on _ hy := by cases hy
  serves rest := by
    have hserves := h.serves rest
    cases hon : host.streamFromDa.isSome with
    | false =>
      rw [hon] at hserves
      exact hserves
    | true =>
      rw [hon] at hserves
      exact hserves.next (e := .stopSignal) trivial rfl

theorem Serves.step (h : Serves lib message config s host x) {e : Event FullBlock}
    (he : e.within) (hst : Stepped lib message host e after) :
    ∃ y, Serves lib message config s after y := by
  cases hst with
  | refused | booted => exact he.elim
  | stopped | crash => exact ⟨x, h.stops⟩
  | stream on own moves =>
    obtain rfl := h.on _ on
    obtain ⟨hreceived, hgone⟩ := inner_received own moves
    refine ⟨_, h.run.next trivial moves, hgone.trans h.here,
      fun z hz => (Option.some.inj hz).symm, fun rest => ?_⟩
    have hserves := h.serves rest
    rw [on] at hserves
    rw [hreceived]
    exact hserves
  | @failed fails x' block outlet err t on next run =>
    obtain rfl := h.on _ on
    have htakes := h.takes (by rw [on]; rfl) next
    refine ⟨{ x' with outlet }, h.run.next (e := .take) trivial
      (by simp [Pipeline.step, h.here, next]), h.here, fun z hz => (by cases hz), fun rest => ?_⟩
    refine (htakes rest).next (e := .item fails) trivial ?_
    simp [Service.step, Task.run, run]
  | @imported fails x' block outlet t on next run =>
    obtain rfl := h.on _ on
    have htakes := h.takes (by rw [on]; rfl) next
    refine ⟨{ x' with outlet }, h.run.next (e := .take) trivial
      (by simp [Pipeline.step, h.here, next]), h.here,
      fun z hz => (Option.some.inj hz).symm, fun rest => ?_⟩
    refine (htakes rest).next (e := .item fails) trivial ?_
    simp [Service.step, Task.run, run]

theorem run_serves (run : Run (Host.step lib message) (fun _ (e : Event FullBlock) => e.within)
    ⟨s, some (Pipeline.start config)⟩ host) :
    ∃ x, Serves lib message config s host x := by
  apply run.invariant (motive := fun host => ∃ x, Serves lib message config s host x)
    ⟨_, start_serves lib message config s⟩
  intro t u e ht he hst
  obtain ⟨x, hx⟩ := ht
  exact hx.step he (step_cases hst)

/-- A life on the downloader as it runs, with its tasks and channels, does to
the databases what the service does that `into_task` gives a list of items,
those that the L1 and the beacon node of the life make for, and hands over the
same blocks. -/
theorem life_refines_service (core : FuelCore) (FullBlock Blob : Type) (lib : Libraries Blob)
    (message : Queue.Failure → Error) (uninit : UninitializedTask core)
    (aroundBlocks aroundCompression : BlockSyncer.Surroundings FullBlock) (config : Config)
    (s : BlockSyncer core) (hready : uninit.prepare aroundBlocks aroundCompression = .ok config s)
    (host : Host core Blob)
    (run : Run (Host.step lib message) (fun _ (e : Event FullBlock) => e.within)
      ⟨s, some (Pipeline.start config)⟩ host) :
    ∃ (da : DaSide Blob) (task : Task core) (service : Service core), da.lib = lib ∧
      uninit.intoTask aroundBlocks aroundCompression da = .ok task s ∧
      Run Service.step (fun _ _ => True) ⟨task, true⟩ service ∧
      service.task.blockSyncer = host.blockSyncer ∧
      service.running = host.streamFromDa.isSome ∧
      ∀ wake block, host.handed wake = some block → service.handed wake = some block := by
  obtain ⟨x, h⟩ := run_serves run
  obtain ⟨staysFor, turns, -, rest, hput⟩ := Pipeline.put_streamed h.run
  have hitems : x.outlet.received ++ (x.outlet.put.drop x.outlet.taken ++ rest) =
      Downloader.streamed ((Downloader.new config staysFor).streamInner lib turns) := by
    rw [← List.append_assoc]
    exact (congrArg (· ++ rest) (List.take_append_drop _ _)).trans hput
  refine ⟨⟨lib, turns, staysFor⟩, _, _, rfl, by rw [intoTask_eq, hready], hitems ▸ h.serves _,
    rfl, rfl, fun wake block hhanded => ?_⟩
  obtain ⟨fails, y, outlet, rfl, on, next⟩ := handed_eq_some hhanded
  obtain rfl := h.on y on
  simp only [Service.handed, on, Option.isSome_some, Outlet.next?_head next, List.cons_append]

theorem life_refines_service_one_block :
    ∃ (host : Host plainCore (HeaderV1 × UInt8)) (da : DaSide (HeaderV1 × UInt8))
      (task : Task plainCore) (service : Service plainCore),
      Run (Host.step plainLibraries (fun _ => "refused"))
        (fun _ (e : Event Unit) => e.within)
        ⟨plainSyncer 2 [1], some (Pipeline.start ⟨"", "", [], 0, 2⟩)⟩ host ∧
      UninitializedTask.intoTask ⟨plainSyncer 2 [1], ⟨"", "", [], 0, 0⟩⟩ quiet quiet da =
        .ok task (plainSyncer 2 [1]) ∧
      Run Service.step (fun _ _ => True) ⟨task, true⟩ service ∧
      service.task.blockSyncer = host.blockSyncer ∧
      service.task.blockSyncer.compressionLatestHeight = some 2 ∧ service.running = true := by
  obtain ⟨host, run, hheight, hon⟩ : ∃ host : Host plainCore (HeaderV1 × UInt8),
      Run (Host.step plainLibraries (fun _ => "refused"))
        (fun _ (e : Event Unit) => e.within)
        ⟨plainSyncer 2 [1], some (Pipeline.start ⟨"", "", [], 0, 2⟩)⟩ host ∧
      plainCore.compressionHeight host.blockSyncer.database = some 2 ∧
        host.streamFromDa.isSome = true :=
    Run.exists_of_drive ((oneBlock "0012").map .stream ++ [.wake (.item Faults.none)]) (by decide)
  obtain ⟨da, task, service, -, hinto, hserves, hsame, hrunning, -⟩ :=
    life_refines_service plainCore Unit (HeaderV1 × UInt8) plainLibraries (fun _ => "refused")
      ⟨plainSyncer 2 [1], ⟨"", "", [], 0, 0⟩⟩ quiet quiet ⟨"", "", [], 0, 2⟩ (plainSyncer 2 [1])
      rfl host run
  exact ⟨host, da, task, service, run, hinto, hserves, hsame, hsame ▸ hheight,
    hrunning.trans hon⟩

end Host
end Watchtower.Cli
