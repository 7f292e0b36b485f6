import Watchtower.Cli.Lockstep
import Watchtower.Downloader.Stream

namespace Watchtower.Cli
open Lib Syncer Downloader

variable {core : FuelCore} {FullBlock Blob : Type}

/-- `into_task` up to `Downloader::new`: both GraphQL syncs, and the
configuration made of what they left. -/
def UninitializedTask.prepare (task : UninitializedTask core)
    (aroundBlocks aroundCompression : BlockSyncer.Surroundings FullBlock) :
    EStateM.Result Error (BlockSyncer core) Config :=
  match task.blockSyncer.syncAsMuchAsPossibleFromGraphql aroundBlocks with
  | .error err s => .error err s
  | .ok () s =>
    match s.syncCompressionFromGraphql aroundCompression with
    | .error err s => .error err s
    | .ok () s =>
      match s.compressionLatestDaHeight with
      | .error err => .error err s
      | .ok daStartBlock =>
        match s.compressionLatestHeight with
        | none =>
          .error "If we have the latest da height, we have the latest fuel height as well" s
        | some latest =>
          match BlockHeight.succ latest with
          | none => .error "Out of Fuel block heights" s
          | some nextFuelBlock => .ok { task.downloaderConfig with daStartBlock, nextFuelBlock } s

theorem intoTask_eq (task : UninitializedTask core)
    (aroundBlocks aroundCompression : BlockSyncer.Surroundings FullBlock) (da : DaSide Blob) :
    task.intoTask aroundBlocks aroundCompression da =
      match task.prepare aroundBlocks aroundCompression with
      | .error err s => .error err s
      | .ok config s =>
        .ok ⟨s, Downloader.streamed
          ((Downloader.new config da.staysFor).streamInner da.lib da.turns)⟩ s := by
  unfold UninitializedTask.intoTask UninitializedTask.prepare
  cases task.blockSyncer.syncAsMuchAsPossibleFromGraphql aroundBlocks with
  | error err s => rfl
  | ok _ s =>
    simp only
    cases s.syncCompressionFromGraphql aroundCompression with
    | error err s => rfl
    | ok _ s =>
      simp only
      cases s.compressionLatestDaHeight with
      | error err => rfl
      | ok daStartBlock =>
        simp only
        cases s.compressionLatestHeight with
        | none => rfl
        | some latest =>
          simp only
          cases BlockHeight.succ latest <;> rfl

/-- The two syncs of `into_task` that came before the configuration. -/
structure Prepared (task : UninitializedTask core)
    (aroundBlocks aroundCompression : BlockSyncer.Surroundings FullBlock) (config : Config)
    (mid s : BlockSyncer core) : Prop where
  blocks : task.blockSyncer.syncAsMuchAsPossibleFromGraphql aroundBlocks = .ok () mid
  compression : mid.syncCompressionFromGraphql aroundCompression = .ok () s
  daStart : s.compressionLatestDaHeight = .ok config.daStartBlock
  next : ∃ c, s.compressionLatestHeight = some c ∧ c < u32Max ∧ config.nextFuelBlock = c + 1

theorem prepare_ok {task : UninitializedTask core}
    {aroundBlocks aroundCompression : BlockSyncer.Surroundings FullBlock} {config : Config}
    {s : BlockSyncer core} (h : task.prepare aroundBlocks aroundCompression = .ok config s) :
    ∃ mid, Prepared task aroundBlocks aroundCompression config mid s := by
  unfold UninitializedTask.prepare at h
  split at h
  · contradiction
  · rename_i mid hblocks
    split at h
    · contradiction
    · rename_i after hcompression
      split at h
      · contradiction
      · rename_i daStartBlock hda
        split at h
        · contradiction
        · rename_i c hc
          split at h
          · contradiction
          · rename_i nextFuelBlock hsucc
            obtain ⟨rfl, rfl⟩ := EStateM.Result.ok.inj h
            obtain ⟨hlt, rfl⟩ := BlockHeight.succ_eq_some.mp hsucc
            exact ⟨mid, hblocks, hcompression, hda, c, hc, hlt, rfl⟩

/-- Whatever comes of it, nothing but the two syncs has written anything. -/
theorem prepare_commits (task : UninitializedTask core)
    (aroundBlocks aroundCompression : BlockSyncer.Surroundings FullBlock)
    (hhonest : ∀ k, (aroundCompression.sentryAt k).AnswersHeight) :
    BlockSyncer.CommitsTo task.blockSyncer
      (finalState (task.prepare aroundBlocks aroundCompression)) := by
  have hblocks := BlockSyncer.syncAsMuchAsPossible_commits aroundBlocks task.blockSyncer
  unfold UninitializedTask.prepare
  generalize task.blockSyncer.syncAsMuchAsPossibleFromGraphql aroundBlocks = outcome at hblocks ⊢
  cases outcome with
  | error err s => exact hblocks
  | ok _ mid =>
    simp only
    have hcompression := BlockSyncer.syncCompression_commits mid hhonest
    generalize mid.syncCompressionFromGraphql aroundCompression = outcome at hcompression ⊢
    have hboth := hblocks.trans hcompression
    cases outcome with
    | error err s => exact hboth
    | ok _ s =>
      simp only
      split
      · exact hboth
      · split
        · exact hboth
        · split <;> exact hboth

/-- A machine the watchtower is run on: the databases, which outlive every
process, and the stream of the task that is running, if one is. -/
structure Host (core : FuelCore) (Blob : Type) where
  blockSyncer : BlockSyncer core
  streamFromDa : Option (Pipeline Blob)

namespace Host

/-- A process is started, maybe with other settings, one of the tasks behind
the stream moves, `run` comes to the end of its wait, or the process is killed.
One killed within a call is one in which that call fails. -/
inductive Event (FullBlock : Type) where
  | boot (compressionConfig : Nat) (downloaderConfig : Config)
      (aroundBlocks aroundCompression : BlockSyncer.Surroundings FullBlock)
  | stream (e : Pipeline.Event)
  | wake (wake : Wake)
  | crash

/-- The provider of compressed blocks answers a height with nothing or with a
block of that height. -/
def Event.Honest : Event FullBlock → Prop
  | .boot _ _ _ aroundCompression => ∀ k, (aroundCompression.sentryAt k).AnswersHeight
  | .stream _ | .wake _ | .crash => True

/-- What moves the pipeline, the consumer apart: that is the task itself. -/
def inner : Pipeline.Event → Bool
  | .take | .drop => false
  | .queue _ | .relay | .read | .answer _ | .work | .forward => true

/-- A new process on the databases, up to the end of `into_task`. -/
def boot (host : Host core Blob) (compressionConfig : Nat) (downloaderConfig : Config)
    (aroundBlocks aroundCompression : BlockSyncer.Surroundings FullBlock) : Host core Blob :=
  let task : UninitializedTask core :=
    ⟨host.blockSyncer.reopen compressionConfig, downloaderConfig⟩
  match task.prepare aroundBlocks aroundCompression with
  | .error _ s => ⟨s, none⟩
  | .ok config s => ⟨s, some (Pipeline.start config)⟩

/-- `run` on the stream as it is at the moment. With nothing to take and the
end not in sight it waits. -/
def run (blockSyncer : BlockSyncer core) (x : Pipeline Blob) : Wake → Option (Host core Blob)
  | .stopSignal => some ⟨blockSyncer, none⟩
  | .item fails =>
    match x.outlet.next? with
    | none => if x.outlet.Over then some ⟨blockSyncer, none⟩ else none
    | some (.error _, _) => some ⟨blockSyncer, none⟩
    | some (.ok compressedBlock, outlet) =>
      match blockSyncer.importBlockFromDa fails compressedBlock with
      | .error _ s => some ⟨s, none⟩
      | .ok () s => some ⟨s, some { x with outlet }⟩

def step (lib : Libraries Blob) (message : Queue.Failure → Error) (host : Host core Blob) :
    Event FullBlock → Option (Host core Blob)
  | .boot compressionConfig downloaderConfig aroundBlocks aroundCompression =>
    match host.streamFromDa with
    | some _ => none
    | none =>
      some (host.boot compressionConfig downloaderConfig aroundBlocks aroundCompression)
  | .stream e =>
    match host.streamFromDa, inner e with
    | some x, true =>
      (Pipeline.step lib message x e).map (fun y => { host with streamFromDa := some y })
    | _, _ => none
  | .wake wake =>
    match host.streamFromDa with
    | some x => run host.blockSyncer x wake
    | none => none
  | .crash => some { host with streamFromDa := none }

/-- The block that a wake hands to `import_block_from_da`. -/
def handed (host : Host core Blob) : Wake → Option VersionedCompressedBlock
  | .stopSignal => none
  | .item _ =>
    match host.streamFromDa.bind (fun x => x.outlet.next?) with
    | some (.ok block, _) => some block
    | _ => none

/-- Everything a step of the machine does. -/
inductive Stepped (lib : Libraries Blob) (message : Queue.Failure → Error) (host : Host core Blob) :
    Event FullBlock → Host core Blob → Prop where
  | refused {compressionConfig : Nat} {downloaderConfig : Config}
      {aroundBlocks aroundCompression : BlockSyncer.Surroundings FullBlock} {err : Error}
      {s : BlockSyncer core} (off : host.streamFromDa = none)
      (ended : UninitializedTask.prepare
        ⟨host.blockSyncer.reopen compressionConfig, downloaderConfig⟩ aroundBlocks
        aroundCompression = .error err s) :
      Stepped lib message host
        (.boot compressionConfig downloaderConfig aroundBlocks aroundCompression) ⟨s, none⟩
  | booted {compressionConfig : Nat} {downloaderConfig config : Config}
      {aroundBlocks aroundCompression : BlockSyncer.Surroundings FullBlock}
      {s : BlockSyncer core} (off : host.streamFromDa = none)
      (ready : UninitializedTask.prepare
        ⟨host.blockSyncer.reopen compressionConfig, downloaderConfig⟩ aroundBlocks
        aroundCompression = .ok config s) :
      Stepped lib message host
        (.boot compressionConfig downloaderConfig aroundBlocks aroundCompression)
        ⟨s, some (Pipeline.start config)⟩
  | stream {e : Pipeline.Event} {x y : Pipeline Blob} (on : host.streamFromDa = some x)
      (own : inner e = true) (moves : Pipeline.step lib message x e = some y) :
      Stepped lib message host (.stream e) ⟨host.blockSyncer, some y⟩
  | stopped {wake : Wake} {x : Pipeline Blob} (on : host.streamFromDa = some x)
      (none : host.handed wake = none) :
      Stepped lib message host (.wake wake) ⟨host.blockSyncer, Option.none⟩
  | failed {fails : Faults} {x : Pipeline Blob} {block : VersionedCompressedBlock}
      {outlet : Outlet 1024 Error VersionedCompressedBlock} {err : Error} {s : BlockSyncer core}
      (on : host.streamFromDa = some x) (next : x.outlet.next? = some (.ok block, outlet))
      (run : host.blockSyncer.importBlockFromDa fails block = .error err s) :
      Stepped lib message host (.wake (.item fails)) ⟨s, none⟩
  | imported {fails : Faults} {x : Pipeline Blob} {block : VersionedCompressedBlock}
      {outlet : Outlet 1024 Error VersionedCompressedBlock} {s : BlockSyncer core}
      (on : host.streamFromDa = some x) (next : x.outlet.next? = some (.ok block, outlet))
      (run : host.blockSyncer.importBlockFromDa fails block = .ok () s) :
      Stepped lib message host (.wake (.item fails)) ⟨s, some { x with outlet }⟩
  | crash : Stepped lib message host .crash ⟨host.blockSyncer, none⟩

variable {lib : Libraries Blob} {message : Queue.Failure → Error} {host after : Host core Blob}

theorem run_cases {x : Pipeline Blob} {wake : Wake} (on : host.streamFromDa = some x)
    (h : run host.blockSyncer x wake = some after) :
    Stepped lib message host (.wake wake : Event FullBlock) after := by
  cases wake with
  | stopSignal => exact Option.some.inj h ▸ .stopped on rfl
  | item fails =>
    simp only [run] at h
    split at h
    · rename_i hnext
      split at h
      · exact Option.some.inj h ▸ .stopped on (by simp [handed, on, hnext])
      · contradiction
    · rename_i err outlet hnext
      exact Option.some.inj h ▸ .stopped on (by simp [handed, on, hnext])
    · rename_i block outlet hnext
      split at h
      · rename_i err s hrun
        exact Option.some.inj h ▸ .failed on hnext hrun
      · rename_i s hrun
        exact Option.some.inj h ▸ .imported on hnext hrun

theorem step_cases {e : Event FullBlock} (h : step lib message host e = some after) :
    Stepped lib message host e after := by
  cases e with
  | boot compressionConfig downloaderConfig aroundBlocks aroundCompression =>
    simp only [step] at h
    split at h
    · contradiction
    · rename_i off
      obtain rfl := Option.some.inj h
      simp only [boot]
      split
      · rename_i err s ended
        exact .refused off ended
      · rename_i config s ready
        exact .booted off ready
  | stream e =>
    simp only [step] at h
    split at h
    · rename_i x on own
      obtain ⟨y, moves, rfl⟩ := Option.map_eq_some_iff.mp h
      exact .stream on own moves
    · contradiction
  | wake wake =>
    simp only [step] at h
    split at h
    · rename_i x on
      exact run_cases on h
    · contradiction
  | crash => exact Option.some.inj h ▸ .crash

theorem handed_eq_some {wake : Wake} {block : VersionedCompressedBlock}
    (h : host.handed wake = some block) :
    ∃ fails x outlet, wake = .item fails ∧ host.streamFromDa = some x ∧
      x.outlet.next? = some (.ok block, outlet) := by
  cases wake with
  | stopSignal => contradiction
  | item fails =>
    simp only [handed] at h
    split at h
    · rename_i other outlet hnext
      obtain rfl := Option.some.inj h
      obtain ⟨x, on, next⟩ := Option.bind_eq_some_iff.mp hnext
      exact ⟨fails, x, outlet, rfl, on, next⟩
    · contradiction

/-- A life in step: the pipeline has run from `Downloader::new` on, and what was
taken of its stream are blocks, the last of which the compression data ends at. -/
structure Living (lib : Libraries Blob) (message : Queue.Failure → Error) (config : Config)
    (s : BlockSyncer core) (x : Pipeline Blob) : Prop where
  run : Run (Pipeline.step lib message) (fun _ _ => True) (Pipeline.start config) x
  start : config.nextFuelBlock ≤ u32Max
  here : x.gone = false
  imported : ∃ (blocks : List VersionedCompressedBlock) (c : Nat),
    x.outlet.received = blocks.map .ok ∧ s.compressionLatestHeight = some c ∧
    c + 1 = config.nextFuelBlock + blocks.length

variable {config : Config} {s : BlockSyncer core} {x y : Pipeline Blob}

theorem start_living {c : Nat} (hc : s.compressionLatestHeight = some c) (hlt : c < u32Max)
    (hnext : config.nextFuelBlock = c + 1) :
    Living lib message config s (Pipeline.start config) where
  run := .start
  start := by omega
  here := rfl
  imported := ⟨[], c, rfl, hc, hnext.symm⟩

/-- The consumer takes nothing in these steps. -/
theorem inner_received {e : Pipeline.Event} (own : inner e = true)
    (moves : Pipeline.step lib message x e = some y) :
    y.outlet.received = x.outlet.received ∧ y.gone = x.gone := by
  have hst := Pipeline.step_cases moves
  cases hst with
  | queue | block | queueReturned | relay | read | readError | readEnd | quiet => exact ⟨rfl, rfl⟩
  | send active head fits => exact ⟨Outlet.received_send fits, rfl⟩
  | returned task out =>
    rename_i outcome
    cases outcome <;> exact ⟨rfl, rfl⟩
  | forward sent => exact ⟨Outlet.received_forward sent, rfl⟩
  | take | drop => cases own

theorem Living.moves (h : Living lib message config s x) {e : Pipeline.Event}
    (own : inner e = true) (moves : Pipeline.step lib message x e = some y) :
    Living lib message config s y := by
  obtain ⟨hreceived, hgone⟩ := inner_received own moves
  refine ⟨h.run.next trivial moves, h.start, hgone.trans h.here, ?_⟩
  rw [hreceived]
  exact h.imported

/-- Taking an item is a step of the consumer. -/
theorem Living.takes (h : Living lib message config s x)
    {item : Except Error VersionedCompressedBlock}
    {outlet : Outlet 1024 Error VersionedCompressedBlock}
    (next : x.outlet.next? = some (item, outlet)) :
    Run (Pipeline.step lib message) (fun _ _ => True) (Pipeline.start config)
      { x with outlet } :=
  h.run.next (e := .take) trivial (by simp [Pipeline.step, h.here, next])

/-- The block up next is the one above the compression data. -/
theorem Living.next_height (h : Living lib message config s x) {block : VersionedCompressedBlock}
    {outlet : Outlet 1024 Error VersionedCompressedBlock}
    (next : x.outlet.next? = some (.ok block, outlet)) :
    ∃ c, s.compressionLatestHeight = some c ∧ block.height = c + 1 := by
  obtain ⟨blocks, c, hblocks, hc, hcount⟩ := h.imported
  have run := h.takes next
  have hseq := Pipeline.received_inSequence (Pipeline.run_sound run)
    (Pipeline.run_orderly h.start run)
  have hreceived := (Outlet.next?_spec next).1
  rw [hreceived, hblocks] at hseq
  exact ⟨c, hc, hseq.next.trans hcount.symm⟩

theorem Living.imports (hontop : core.CommitsOnTop) (habove : core.CommitsAbove)
    (h : Living lib message config s x) (hs : s.Behind) {fails : Faults}
    {block : VersionedCompressedBlock} {outlet : Outlet 1024 Error VersionedCompressedBlock}
    {t : BlockSyncer core} (next : x.outlet.next? = some (.ok block, outlet))
    (run : s.importBlockFromDa fails block = .ok () t) :
    Living lib message config t { x with outlet } := by
  obtain ⟨blocks, c, hblocks, hc, hcount⟩ := h.imported
  obtain ⟨c', hc', hheight⟩ := h.next_height next
  obtain rfl := Option.some.inj (hc.symm.trans hc')
  obtain ⟨hnow, -⟩ := hs.import_next hontop habove hc hheight run
  refine ⟨h.takes next, h.start, h.here, blocks ++ [block], c + 1, ?_, hnow, ?_⟩
  · rw [(Outlet.next?_spec next).1, hblocks, List.map_append]
    rfl
  · rw [List.length_append, List.length_singleton]
    omega

/-- The compression data is not ahead of the chain, and a task that runs is in step. -/
structure Steady (lib : Libraries Blob) (message : Queue.Failure → Error)
    (host : Host core Blob) : Prop where
  behind : host.blockSyncer.Behind
  living : ∀ x, host.streamFromDa = some x → ∃ config, Living lib message config host.blockSyncer x

/-- What a step writes, the syncer has committed. -/
theorem Stepped.commits (hontop : core.CommitsOnTop) (hkeeps : core.KeepsHeight)
    {e : Event FullBlock} (he : e.Honest) (h : Stepped lib message host e after) :
    BlockSyncer.CommitsTo host.blockSyncer after.blockSyncer := by
  cases h with
  | @refused retention settings aroundBlocks aroundCompression err s off ended =>
    have hto := prepare_commits ⟨host.blockSyncer.reopen retention, settings⟩ aroundBlocks
      aroundCompression he
    rw [ended] at hto
    exact .head (.reopened _) hto
  | @booted retention settings config aroundBlocks aroundCompression s off ready =>
    have hto := prepare_commits ⟨host.blockSyncer.reopen retention, settings⟩ aroundBlocks
      aroundCompression he
    rw [ready] at hto
    exact .head (.reopened _) hto
  | stream | stopped | crash => exact .refl
  | @failed fails x block outlet err s on next run =>
    have hto := BlockSyncer.importBlockFromDa_commits hontop hkeeps host.blockSyncer fails block
    rw [run] at hto
    exact hto
  | @imported fails x block outlet s on next run =>
    have hto := BlockSyncer.importBlockFromDa_commits hontop hkeeps host.blockSyncer fails block
    rw [run] at hto
    exact hto

theorem Steady.step (hontop : core.CommitsOnTop) (habove : core.CommitsAbove)
    (hkeeps : core.KeepsHeight) (h : Steady lib message host) {e : Event FullBlock}
    (he : e.Honest) (hst : Stepped lib message host e after) : Steady lib message after := by
  refine ⟨BlockSyncer.CommitsTo.behind hontop habove (hst.commits hontop hkeeps he) h.behind, ?_⟩
  cases hst with
  | refused | stopped | failed | crash => exact fun x hx => by cases hx
  | booted off ready =>
    obtain ⟨mid, hprepared⟩ := prepare_ok ready
    obtain ⟨c, hc, hlt, hnext⟩ := hprepared.next
    intro x hx
    obtain rfl := Option.some.inj hx
    exact ⟨_, start_living hc hlt hnext⟩
  | stream on own moves =>
    obtain ⟨config, hliving⟩ := h.living _ on
    intro y hy
    obtain rfl := Option.some.inj hy
    exact ⟨config, hliving.moves own moves⟩
  | imported on next run =>
    obtain ⟨config, hliving⟩ := h.living _ on
    intro y hy
    obtain rfl := Option.some.inj hy
    exact ⟨config, hliving.imports hontop habove h.behind next run⟩

/-- The runs of a machine that nobody else writes to. -/
abbrev Lived (FullBlock : Type) (lib : Libraries Blob) (message : Queue.Failure → Error)
    (host after : Host core Blob) : Prop :=
  Run (Host.step lib message) (fun _ (e : Event FullBlock) => e.Honest) host after

theorem run_steady (hontop : core.CommitsOnTop) (habove : core.CommitsAbove)
    (hkeeps : core.KeepsHeight) (hs : host.blockSyncer.Behind) (off : host.streamFromDa = none)
    (run : Lived FullBlock lib message host after) : Steady lib message after := by
  apply run.invariant (motive := Steady lib message)
  · refine ⟨hs, fun x hx => ?_⟩
    rw [off] at hx
    contradiction
  · intro t u e ht he hst
    exact ht.step hontop habove hkeeps he (step_cases hst)

theorem run_grows (hontop : core.CommitsOnTop) (habove : core.CommitsAbove)
    (hkeeps : core.KeepsHeight) (run : Lived FullBlock lib message host after) :
    host.blockSyncer.Grows after.blockSyncer := by
  apply BlockSyncer.CommitsTo.grows hontop habove
  apply run.invariant (motive := fun t : Host core Blob =>
    BlockSyncer.CommitsTo host.blockSyncer t.blockSyncer) .refl
  intro t u e ht he hst
  exact ht.trans ((step_cases hst).commits hontop hkeeps he)

/-- The tasks behind the stream move while the task waits. -/
theorem run_stream {admitted : Host core Blob → Event FullBlock → Prop}
    {allowed : Pipeline Blob → Pipeline.Event → Prop} (s : BlockSyncer core)
    (hall : ∀ x e, allowed x e → inner e = true ∧ admitted ⟨s, some x⟩ (.stream e))
    (run : Run (Pipeline.step lib message) allowed x y) :
    Run (Host.step lib message) admitted ⟨s, some x⟩ ⟨s, some y⟩ := by
  induction run with
  | start => exact .start
  | @next t u e _ he moves ih =>
    obtain ⟨own, hadmitted⟩ := hall t e he
    exact ih.next (e := .stream e) hadmitted (by simp [Host.step, own, moves])

theorem lived_wake {wake : Wake}
    (hst : Host.step lib message host (.wake wake : Event FullBlock) = some after) :
    Lived FullBlock lib message host after :=
  Run.start.next (e := (.wake wake : Event FullBlock)) trivial hst

/-- A block handed over is the one above the compression data. -/
theorem Steady.handed_height (h : Steady lib message host) {wake : Wake}
    {block : VersionedCompressedBlock} (hhanded : host.handed wake = some block) :
    ∃ c, host.blockSyncer.compressionLatestHeight = some c ∧ block.height = c + 1 := by
  obtain ⟨fails, x, outlet, -, on, next⟩ := handed_eq_some hhanded
  obtain ⟨config, hliving⟩ := h.living x on
  exact hliving.next_height next

/-- A wake with a block does to the databases what its import does, and the life
goes on after a success only. -/
theorem step_handed {fails : Faults} {block : VersionedCompressedBlock}
    (hhanded : host.handed (.item fails) = some block)
    (hst : Host.step lib message host (.wake (.item fails) : Event FullBlock) = some after) :
    after.blockSyncer = finalState (host.blockSyncer.importBlockFromDa fails block) ∧
      (after.streamFromDa.isSome = true ↔
        ∃ t, host.blockSyncer.importBlockFromDa fails block = .ok () t) := by
  obtain ⟨fails', x, outlet, hwake, on, next⟩ := handed_eq_some hhanded
  obtain rfl := Wake.item.inj hwake
  have hcases := step_cases hst
  cases hcases with
  | stopped _ none =>
    rw [hhanded] at none
    contradiction
  | @failed _ x' block' _ err t on' next' run =>
    obtain rfl := Option.some.inj (on.symm.trans on')
    obtain ⟨hblock, rfl⟩ := Prod.mk.inj (Option.some.inj (next.symm.trans next'))
    obtain rfl := Except.ok.inj hblock
    refine ⟨by rw [run]; rfl, ⟨fun h => (by cases h), fun h => ?_⟩⟩
    obtain ⟨t', hok⟩ := h
    rw [run] at hok
    contradiction
  | @imported _ x' block' _ t on' next' run =>
    obtain rfl := Option.some.inj (on.symm.trans on')
    obtain ⟨hblock, rfl⟩ := Prod.mk.inj (Option.some.inj (next.symm.trans next'))
    obtain rfl := Except.ok.inj hblock
    exact ⟨by rw [run]; rfl, fun _ => ⟨t, run⟩, fun _ => rfl⟩

/-- Over any number of lives of the process, each ended by a stop, an error or a
crash wherever it was, and in any order of the steps of its tasks: the
compression data stays behind the chain and no height goes back. A block that
is handed to an import is the one above the compression data, and is executed
only on top of the chain. A failed import ends the life, and no block is
imported again after it was imported, in whichever life. -/
theorem lives_in_lockstep (core : FuelCore) (hontop : core.CommitsOnTop)
    (habove : core.CommitsAbove) (hkeeps : core.KeepsHeight) (FullBlock Blob : Type)
    (lib : Libraries Blob) (message : Queue.Failure → Error) (s : BlockSyncer core)
    (hs : s.Behind) (host : Host core Blob)
    (run : Lived FullBlock lib message ⟨s, none⟩ host) :
    host.blockSyncer.Behind ∧ s.Grows host.blockSyncer ∧
    ∀ fails block, host.handed (.item fails) = some block →
      (∃ c o, host.blockSyncer.compressionLatestHeight = some c ∧
        core.onChainHeight host.blockSyncer.onChainDatabase = some o ∧ c ≤ o ∧
        block.height = c + 1 ∧ host.blockSyncer.alreadyKnown block.height o = false ∧
        (o < block.height → block.height = o + 1)) ∧
      ∀ after, Host.step lib message host (.wake (.item fails) : Event FullBlock) = some after →
        (after.streamFromDa.isSome = true ↔
          ∃ t, host.blockSyncer.importBlockFromDa fails block = .ok () t) ∧
        ∀ later wake again, Lived FullBlock lib message after later →
          later.handed wake = some again →
          block.height ≤ again.height ∧
            (after.streamFromDa.isSome = true → block.height < again.height) := by
  have hsteady := run_steady hontop habove hkeeps hs rfl run
  refine ⟨hsteady.behind, run_grows hontop habove hkeeps run, fun fails block hhanded => ?_⟩
  obtain ⟨c, hc, hheight⟩ := hsteady.handed_height hhanded
  obtain ⟨o, ho, hle⟩ := hsteady.behind c hc
  refine ⟨⟨c, o, hc, ho, hle, hheight, BlockSyncer.not_known hc (by omega), by omega⟩, ?_⟩
  intro after hst
  obtain ⟨hafter, halive⟩ := step_handed hhanded hst
  refine ⟨halive, fun later wake again hlater hagain => ?_⟩
  have honward : Lived FullBlock lib message host later := (lived_wake hst).trans hlater
  obtain ⟨c', hc', hheight'⟩ :=
    (run_steady hontop habove hkeeps hs rfl (run.trans honward)).handed_height hagain
  constructor
  · obtain ⟨_, hlatest, hup⟩ := (run_grows hontop habove hkeeps honward).compression c hc
    obtain rfl := Option.some.inj (hc'.symm.trans hlatest)
    omega
  · intro hon
    obtain ⟨t, hok⟩ := halive.mp hon
    rw [hok] at hafter
    obtain ⟨hnow, -⟩ := hsteady.behind.import_next hontop habove hc hheight hok
    obtain ⟨_, hlatest, hup⟩ := (run_grows hontop habove hkeeps hlater).compression (c + 1)
      (by rw [hafter]; exact hnow)
    obtain rfl := Option.some.inj (hc'.symm.trans hlatest)
    omega

/-- One L1 block with this blob in it, its successor, and the Fuel block of the
blob sent to the task. -/
def oneBlock (blob : String) : List Pipeline.Event :=
  List.flatten [(Queue.advances 9).map .queue,
    [.queue (.answer 0 (.ok (some (plainBlock 0 [[1, 0]])))), .queue (.join 0)],
    [.queue .advance, .read], (Queue.advances 3).map .queue,
    [.queue (.answer 0 (.ok (some (plainBlock 1 [])))), .queue (.join 0)],
    [.queue .advance, .read, .answer (fun _ => .ok ⟨[⟨blob, "0x70"⟩]⟩)],
    [.work, .work, .work, .work]]

theorem oneAhead_behind : (plainSyncer 2 [1]).Behind := by
  intro height h
  obtain rfl : 1 = height := Option.some.inj h
  exact ⟨1, rfl, Nat.le_refl _⟩

theorem lives_in_lockstep_one_block :
    ∃ (host : Host plainCore (HeaderV1 × UInt8)) (block : VersionedCompressedBlock) (c o : Nat),
      Lived Unit plainLibraries (fun _ => "refused") ⟨plainSyncer 2 [1], none⟩ host ∧
      host.handed (.item Faults.none) = some block ∧
      host.blockSyncer.compressionLatestHeight = some c ∧
      plainCore.onChainHeight host.blockSyncer.onChainDatabase = some o ∧
      block.height = c + 1 ∧ host.blockSyncer.alreadyKnown block.height o = false := by
  obtain ⟨x, hmoves, hsome⟩ : ∃ x, Run (Pipeline.step plainLibraries (fun _ => "refused"))
      (fun _ e => inner e = true) (Pipeline.start ⟨"", "", [], 0, 2⟩) x ∧
      (Host.handed ⟨plainSyncer 2 [1], some x⟩ (.item Faults.none)).isSome = true :=
    Run.exists_of_drive (oneBlock "0012") (by decide)
  obtain ⟨block, hhanded⟩ := Option.isSome_iff_exists.mp hsome
  have hhonest : (Event.boot 86400 ⟨"", "", [], 0, 0⟩ quiet quiet).Honest := by
    intro k height bytes block h
    cases h
  have hboot : Lived Unit plainLibraries (fun _ => "refused") ⟨plainSyncer 2 [1], none⟩
      ⟨plainSyncer 2 [1], some (Pipeline.start ⟨"", "", [], 0, 2⟩)⟩ :=
    Run.start.next (e := .boot 86400 ⟨"", "", [], 0, 0⟩ quiet quiet) hhonest rfl
  have run : Lived Unit plainLibraries (fun _ => "refused") ⟨plainSyncer 2 [1], none⟩
      ⟨plainSyncer 2 [1], some x⟩ :=
    hboot.trans (run_stream _ (fun _ _ own => ⟨own, trivial⟩) hmoves)
  obtain ⟨-, -, hall⟩ := lives_in_lockstep plainCore plainCore_commitsOnTop
    plainCore_commitsAbove plainCore_keepsHeight Unit (HeaderV1 × UInt8) plainLibraries
    (fun _ => "refused") (plainSyncer 2 [1]) oneAhead_behind ⟨plainSyncer 2 [1], some x⟩ run
  obtain ⟨⟨c, o, hc, ho, -, hnext, hfresh, -⟩, -⟩ := hall Faults.none block hhanded
  exact ⟨_, block, c, o, run, hhanded, hc, ho, hnext, hfresh⟩

end Host
end Watchtower.Cli
