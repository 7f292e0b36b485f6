import Mathlib.Order.WithBot
import Watchtower.Cli.CaughtUp
import Watchtower.Downloader.Settling

namespace Watchtower.Cli
open Lib Syncer Downloader

namespace Host

variable {core : FuelCore} {FullBlock Blob : Type} {lib : Libraries Blob}
  {message : Queue.Failure → Error} {config : Config} {l1 : L1 Blob}
  {host after : Host core Blob} {x : Pipeline Blob}

/-- The steps of a life that need no answer of the L1 or the beacon node, as
long as no import fails. -/
def Event.Own (host : Host core Blob) : Event FullBlock → Prop
  | .stream e => ∀ x, host.streamFromDa = some x → Pipeline.Own x e
  | .wake (.item fails) => ∀ block, host.handed (.item fails) = some block →
      ∃ s, host.blockSyncer.importBlockFromDa fails block = .ok () s
  | .wake .stopSignal | .boot _ _ _ _ | .crash => False

/-- The runs of a life in which neither the L1 nor the beacon node answers. -/
abbrev OwnRun (FullBlock : Type) (lib : Libraries Blob) (message : Queue.Failure → Error)
    (host after : Host core Blob) : Prop :=
  Run (Host.step lib message) (fun host (e : Event FullBlock) => e.Own host) host after

/-- What there is still to do. A life that is over has nothing. -/
def load (host : Host core Blob) : WithBot ((ℕ ×ₗ ℕ ×ₗ ℕ) ×ₗ (ℕ ×ₗ ℕ ×ₗ ℕ)) :=
  host.streamFromDa.map Pipeline.load

theorem load_of_off (off : host.streamFromDa = none) : host.load = ⊥ := by
  rw [load, off]
  rfl

theorem load_of_on (on : host.streamFromDa = some x) : host.load = ↑x.load := by
  rw [load, on]
  rfl

theorem Event.Own.on {e : Event FullBlock} (he : e.Own host)
    (hst : Host.step lib message host e = some after) : ∃ x, host.streamFromDa = some x := by
  cases hon : host.streamFromDa with
  | some x => exact ⟨x, rfl⟩
  | none =>
    cases e with
    | boot | crash => exact he.elim
    | stream | wake => simp [Host.step, hon] at hst

theorem own_lowers {e : Event FullBlock} (he : e.Own host)
    (hst : Stepped lib message host e after) : after.load < host.load := by
  cases hst with
  | refused | booted | crash => exact he.elim
  | stream on own moves =>
    rw [load_of_on on, load_of_on rfl]
    exact WithBot.coe_lt_coe.mpr (Pipeline.step_lowers (he _ on) moves)
  | stopped on | failed on =>
    rw [load_of_on on, load_of_off rfl]
    exact WithBot.bot_lt_coe _
  | imported on next run =>
    rw [load_of_on on, load_of_on rfl]
    apply WithBot.coe_lt_coe.mpr
    exact Prod.Lex.toLex_lt_toLex.mpr
      (Or.inr ⟨rfl, Pipeline.ahead_lt_of_output (Outlet.left_next next)⟩)

theorem Event.Own.onL1 {e : Event FullBlock} (he : e.Own host) : e.OnL1 lib config l1 host := by
  cases e with
  | boot => exact he.elim
  | wake | crash => trivial
  | stream e =>
    intro x on
    have hown := he x on
    cases e with
    | queue e =>
      cases e with
      | answer => exact hown.1.elim
      | join | advance | hangUp => trivial
    | answer | drop => exact hown.elim
    | relay | read | work | forward | take => trivial

variable {s : BlockSyncer core}

/-- An error is the last thing there is to take, and comes after everything the
downloader sent. -/
theorem Living.last (h : Living lib message config s x) {err : Error}
    {outlet : Outlet 1024 Error VersionedCompressedBlock}
    (next : x.outlet.next? = some (.error err, outlet)) :
    x.stage = .returned (.error err) ∧ ∃ c, s.compressionLatestHeight = some c ∧
      c + 1 = config.nextFuelBlock + x.downloader.tx.sent.length := by
  have hrelays := (Pipeline.run_sound h.run).outlet.next next
  have hreceived := (Outlet.next?_spec next).1
  have herr : .error err ∈ outlet.received := by rw [hreceived]; simp
  obtain ⟨-, hout, hall⟩ := hrelays.over_of_error herr
  refine ⟨?_, ?_⟩
  · cases hstage : x.stage <;> rw [hstage] at hout <;> simp_all [Stage.outcome?]
  · obtain ⟨blocks, c, hblocks, hc, hcount⟩ := h.imported
    have hsame : blocks.length = x.downloader.tx.sent.length := by
      have := congrArg List.length (hreceived.symm.trans hall)
      simpa [hblocks] using this
    exact ⟨c, hc, hsame ▸ hcount⟩

/-- A task that runs has not seen the end of the stream. -/
theorem Living.not_over (h : Living lib message config s x) : ¬ x.outlet.Over := by
  intro hover
  have hrelays := (Pipeline.run_sound h.run).outlet
  rw [h.here] at hrelays
  obtain ⟨err, -, hall⟩ := hrelays.error_of_over hover
  obtain ⟨blocks, -, hblocks, -⟩ := h.imported
  have herr : .error err ∈ x.outlet.received := by rw [hall]; simp
  rw [hblocks] at herr
  simp at herr

/-- The downloader of the life has failed, and what it had sent is imported. -/
def GaveUp (lib : Libraries Blob) (message : Queue.Failure → Error) (config : Config)
    (l1 : L1 Blob) (s : BlockSyncer core) : Prop :=
  ∃ x err c, Run (Pipeline.step lib message) (Pipeline.Serving lib config l1)
      (Pipeline.start config) x ∧ x.stage = .returned (.error err) ∧
    s.compressionLatestHeight = some c ∧
    c + 1 = config.nextFuelBlock + x.downloader.tx.sent.length

/-- As long as no import fails, only an error of the downloader ends the life. -/
theorem Reads.stops (h : Reads lib message config l1 host) {e : Event FullBlock} (he : e.Own host)
    (hst : Host.step lib message host e = some after) (off : after.streamFromDa = none) :
    GaveUp lib message config l1 after.blockSyncer := by
  obtain ⟨x, hx⟩ := he.on hst
  cases e with
  | boot | crash => exact he.elim
  | stream e =>
    have hcases : Stepped lib message host (.stream e : Event FullBlock) after := step_cases hst
    cases hcases
    contradiction
  | wake wake =>
    cases wake with
    | stopSignal => exact he.elim
    | item fails =>
      simp only [Host.step, hx, Host.run] at hst
      split at hst
      · rw [if_neg (h.living x hx).not_over] at hst
        contradiction
      · rename_i err outlet hnext
        obtain rfl := Option.some.inj hst
        obtain ⟨hstage, c, hc, hcount⟩ := (h.living x hx).last hnext
        exact ⟨x, err, c, h.run x hx, hstage, hc, hcount⟩
      · rename_i block outlet hnext
        obtain ⟨s, hs⟩ := he block (by simp [handed, hx, hnext])
        rw [hs] at hst
        obtain rfl := Option.some.inj hst
        contradiction

/-- Where a life stands until the L1 or the beacon node answers: the downloader
has failed and the service stopped, fuel-core does not take the next block, or
all that was there to be done is done. -/
inductive Standstill (lib : Libraries Blob) (message : Queue.Failure → Error) (config : Config)
    (l1 : L1 Blob) (host : Host core Blob) : Prop where
  | stopped (off : host.streamFromDa = none)
      (gaveUp : GaveUp lib message config l1 host.blockSyncer)
  | refused {x : Pipeline Blob} {block : VersionedCompressedBlock}
      {outlet : Outlet 1024 Error VersionedCompressedBlock} {err : Error} {s : BlockSyncer core}
      (on : host.streamFromDa = some x) (next : x.outlet.next? = some (.ok block, outlet))
      (run : host.blockSyncer.importBlockFromDa Faults.none block = .error err s)
  | waiting {x : Pipeline Blob} (on : host.streamFromDa = some x) (rest : x.AtRest)
      (active : x.stage.closed = false) (waits : x.outlet.next? = none)
      (caught : ∀ block, x.stage = .next block →
        ∃ count, block = l1.block (config.daStartBlock + count) ∧
          ∀ posting : Posting lib l1 config.daStartBlock count, ∃ c o,
            host.blockSyncer.compressionLatestHeight = some c ∧
            core.onChainHeight host.blockSyncer.onChainDatabase = some o ∧ c ≤ o ∧
            IsLeast {h | config.nextFuelBlock ≤ h ∧
              ∀ block, posting.Has block → block.height ≠ h} (c + 1))

theorem Reads.own_run (hontop : core.CommitsOnTop) (habove : core.CommitsAbove)
    (hkeeps : core.KeepsHeight) (h : Reads lib message config l1 host)
    (on : host.streamFromDa.isSome = true) (run : OwnRun FullBlock lib message host after) :
    Reads lib message config l1 after ∧
      (after.streamFromDa = none → GaveUp lib message config l1 after.blockSyncer) := by
  apply run.invariant (motive := fun t => Reads lib message config l1 t ∧
    (t.streamFromDa = none → GaveUp lib message config l1 t.blockSyncer))
  · exact ⟨h, fun off => by simp [off] at on⟩
  · intro t u e ht he hst
    exact ⟨ht.1.step hontop habove hkeeps he.onL1 (step_cases hst), ht.1.stops he hst⟩

/-- Whatever a life that can take no step of its own is at. -/
theorem Reads.standstill [DecidableEq Blob] (h : Reads lib message config l1 host)
    (gaveUp : host.streamFromDa = none → GaveUp lib message config l1 host.blockSyncer)
    (still : ∀ e : Event FullBlock, e.Own host → Host.step lib message host e = none) :
    Standstill lib message config l1 host := by
  cases hon : host.streamFromDa with
  | none => exact .stopped hon (gaveUp hon)
  | some x =>
    have hliving := h.living x hon
    cases hnext : x.outlet.next? with
    | some next =>
      obtain ⟨item, outlet⟩ := next
      cases item with
      | error err =>
        have hwake := still (.wake (.item Faults.none)) (by simp [Event.Own, handed, hon, hnext])
        simp [Host.step, Host.run, hon, hnext] at hwake
      | ok block =>
        cases himport : host.blockSyncer.importBlockFromDa Faults.none block with
        | error err s => exact .refused hon hnext himport
        | ok _ s =>
          have hwake := still (.wake (.item Faults.none))
            (by simp [Event.Own, handed, hon, hnext, himport])
          simp [Host.step, Host.run, hon, hnext, himport] at hwake
    | none =>
      have hstill : ∀ e : Pipeline.Event, Pipeline.Own x e →
          Pipeline.step lib message x e = none := by
        intro e he
        by_cases hinner : inner e = true
        · have hstream := still (.stream e) (fun y hy => by
            obtain rfl := Option.some.inj (hon.symm.trans hy)
            exact he)
          simpa [Host.step, hon, hinner] using hstream
        · cases e with
          | take => simp [Pipeline.step, hnext]
          | drop => exact he.elim
          | queue | relay | read | answer | work | forward => exact absurd rfl hinner
      have hrest := Pipeline.atRest_of_still (Pipeline.run_sound hliving.run) hliving.here hstill
      refine .waiting hon hrest ?_ hnext (fun block here => h.caught_up hon here hnext)
      cases hrest with
      | forL1 here =>
        rcases here with here | ⟨block, here⟩ <;> rw [here] <;> rfl
      | forBeacon here => rw [here]; rfl
      | ended _ heard => exact absurd heard hliving.not_over

/-- In a life on an L1 that is not reorganised, begun on databases as any lives
before may have left them, the service, the downloader and the tasks between them
cannot go on forever without an answer of the L1 or the beacon node, and cannot
block each other: where no step is left, in whatever order they were taken, the
downloader has failed and what it sent is imported, or fuel-core refuses the next
block, or everything there was to read is imported. -/
theorem life_settles (core : FuelCore) (hontop : core.CommitsOnTop) (habove : core.CommitsAbove)
    (hkeeps : core.KeepsHeight) (FullBlock Blob : Type) [DecidableEq Blob] (lib : Libraries Blob)
    (message : Queue.Failure → Error) (uninit : UninitializedTask core)
    (hs : uninit.blockSyncer.Behind)
    (aroundBlocks aroundCompression : BlockSyncer.Surroundings FullBlock)
    (hhonest : ∀ k, (aroundCompression.sentryAt k).AnswersHeight) (config : Config)
    (s : BlockSyncer core) (hready : uninit.prepare aroundBlocks aroundCompression = .ok config s)
    (l1 : L1 Blob) :
    WellFounded (Moves (Host.step lib message)
      (fun (host : Host core Blob) (e : Event FullBlock) => e.Own host)) ∧
    ∀ host, LivedOnL1 FullBlock lib message config l1 ⟨s, some (Pipeline.start config)⟩ host →
      host.streamFromDa.isSome = true →
      (∃ after, OwnRun FullBlock lib message host after ∧
        Standstill lib message config l1 after) ∧
      ∀ after, OwnRun FullBlock lib message host after →
        (∀ e : Event FullBlock, e.Own after → Host.step lib message after e = none) →
        Standstill lib message config l1 after := by
  have hends : WellFounded (Moves (Host.step lib message)
      (fun (host : Host core Blob) (e : Event FullBlock) => e.Own host)) :=
    Moves.wellFounded load (fun host e after he hst => own_lowers he (step_cases hst))
  refine ⟨hends, fun host run on => ?_⟩
  have hstill : ∀ after, OwnRun FullBlock lib message host after →
      (∀ e : Event FullBlock, e.Own after → Host.step lib message after e = none) →
      Standstill lib message config l1 after := by
    intro after own still
    have hreads := life_reads hontop habove hkeeps hs hhonest hready run
    obtain ⟨hafter, gaveUp⟩ := hreads.own_run hontop habove hkeeps on own
    exact hafter.standstill gaveUp still
  refine ⟨?_, hstill⟩
  obtain ⟨after, own, hrest⟩ := Run.rests hends host
  refine ⟨after, own, hstill after own (fun e he => ?_)⟩
  by_contra hmoves
  obtain ⟨later, hlater⟩ := Option.ne_none_iff_exists'.mp hmoves
  exact hrest later ⟨e, he, hlater⟩

/-- A life that has imported the Fuel block of the first L1 block, with the
second at hand. -/
theorem life_settles_one_block :
    ∃ host after : Host plainCore (HeaderV1 × UInt8),
      LivedOnL1 Unit plainLibraries (fun _ => "refused") ⟨"", "", [], 0, 1⟩ Pipeline.shortL1
        ⟨plainSyncer 1 [0], some (Pipeline.start ⟨"", "", [], 0, 1⟩)⟩ host ∧
      host.blockSyncer = plainSyncer 2 [0, 1] ∧ host.streamFromDa.isSome = true ∧
      OwnRun Unit plainLibraries (fun _ => "refused") host after ∧
      Standstill plainLibraries (fun _ => "refused") ⟨"", "", [], 0, 1⟩ Pipeline.shortL1 after := by
  obtain ⟨x, -, -, run⟩ := oneBlock_life
  obtain ⟨-, hall⟩ := life_settles plainCore plainCore_commitsOnTop plainCore_commitsAbove
    plainCore_keepsHeight Unit (HeaderV1 × UInt8) plainLibraries (fun _ => "refused")
    ⟨plainSyncer 1 [0], ⟨"", "", [], 0, 0⟩⟩ atGenesis_behind quiet quiet
    (fun k height bytes block h => by cases h) ⟨"", "", [], 0, 1⟩ (plainSyncer 1 [0]) rfl
    Pipeline.shortL1
  obtain ⟨⟨after, own, hrest⟩, -⟩ := hall ⟨plainSyncer 2 [0, 1], some x⟩ run rfl
  exact ⟨⟨plainSyncer 2 [0, 1], some x⟩, after, run, rfl, rfl, own, hrest⟩

end Host
end Watchtower.Cli
