import Watchtower.Syncer.CommitLog
import Watchtower.Syncer.FetchPaths
import Watchtower.Syncer.FetchTask

namespace Watchtower.Syncer
open Lib BlockSyncer

/-- A loop over what a receiver hands out. Before each round the stop signal may
have come; a round goes on with the next item or returns from the function. -/
structure Loop (σ β : Type) where
  stopsAt : Nat → Option Error
  round : Nat → σ → β → σ × Option (Except Error Unit)

namespace Loop

variable {σ β : Type}

/-- What a function that has returned leaves behind. -/
def returned (outcome : Except Error Unit) (s : σ) : EStateM.Result Error σ Unit :=
  match outcome with
  | .ok () => .ok () s
  | .error err => .error err s

/-- The loop over a list of items, the first of which is item number `i`. -/
def through (loop : Loop σ β) (i : Nat) (s : σ) : List β → EStateM.Result Error σ Unit
  | [] =>
    match loop.stopsAt i with
    | some err => .error err s
    | none => .ok () s
  | item :: rest =>
    match loop.stopsAt i with
    | some err => .error err s
    | none =>
      match loop.round i s item with
      | (s, some outcome) => returned outcome s
      | (s, none) => loop.through (i + 1) s rest

end Loop

/-- One of the GraphQL syncs as it runs: the fetching of chunks with its spawned
task, and the function that loops over what it receives. -/
structure Sync (σ β : Type) where
  task : FetchTask β
  state : σ
  outcome : Option (Except Error Unit)

namespace Sync

variable {σ β : Type} {results : List (Except Error (List β))} {loop : Loop σ β}
  {s : σ} {x y : Sync σ β}

def start (s : σ) : Sync σ β := ⟨.start, s, none⟩

inductive Event where
  | fetch (e : FetchTask.Event)
  | round
  deriving DecidableEq

/-- A function that returns drops the receiver. -/
def stop (x : Sync σ β) (outcome : Except Error Unit) : Sync σ β :=
  { x with task := { x.task with listening := false, channel := [] }, outcome := some outcome }

/-- One round of the loop. `recv` waits while the channel is empty and the task
goes on, and gives `None` once that is over. -/
def goRound (loop : Loop σ β) (x : Sync σ β) : Option (Sync σ β) :=
  match loop.stopsAt x.task.received.length with
  | some err => some (x.stop (.error err))
  | none =>
    match x.task.channel, x.task.point with
    | item :: channel, _ =>
      let task := { x.task with channel, received := x.task.received ++ [item] }
      match loop.round x.task.received.length x.state item with
      | (state, some outcome) => some (stop { x with task, state } outcome)
      | (state, none) => some { x with task, state }
    | [], .done => some (x.stop (.ok ()))
    | [], _ => none

def step (results : List (Except Error (List β))) (loop : Loop σ β) (x : Sync σ β) :
    Event → Option (Sync σ β)
  | .fetch .recv | .fetch .hangUp => none
  | .fetch e => (FetchTask.step results x.task e).map (fun task => { x with task })
  | .round =>
    match x.outcome with
    | some _ => none
    | none => x.goRound loop

/-- Everything one step does. -/
inductive Stepped (results : List (Except Error (List β))) (loop : Loop σ β) (x : Sync σ β) :
    Event → Sync σ β → Prop where
  | fetch {e : FetchTask.Event} {task : FetchTask β} (notRecv : e ≠ .recv)
      (notHangUp : e ≠ .hangUp) (moves : FetchTask.step results x.task e = some task) :
      Stepped results loop x (.fetch e) { x with task }
  | stopped {err : Error} (here : x.outcome = none)
      (stops : loop.stopsAt x.task.received.length = some err) :
      Stepped results loop x .round (x.stop (.error err))
  | ended (here : x.outcome = none) (stops : loop.stopsAt x.task.received.length = none)
      (drained : x.task.Ended) : Stepped results loop x .round (x.stop (.ok ()))
  | returned {item : β} {channel : List β} {state : σ} {outcome : Except Error Unit}
      (here : x.outcome = none) (stops : loop.stopsAt x.task.received.length = none)
      (head : x.task.channel = item :: channel)
      (runs : loop.round x.task.received.length x.state item = (state, some outcome)) :
      Stepped results loop x .round (stop { x with
        task := { x.task with channel, received := x.task.received ++ [item] }
        state } outcome)
  | goesOn {item : β} {channel : List β} {state : σ} (here : x.outcome = none)
      (stops : loop.stopsAt x.task.received.length = none)
      (head : x.task.channel = item :: channel)
      (runs : loop.round x.task.received.length x.state item = (state, none)) :
      Stepped results loop x .round { x with
        task := { x.task with channel, received := x.task.received ++ [item] }
        state }

theorem round_cases (here : x.outcome = none) (h : x.goRound loop = some y) :
    Stepped results loop x .round y := by
  unfold goRound at h
  split at h
  · rename_i err stops
    exact Option.some.inj h ▸ .stopped here stops
  · rename_i stops
    split at h
    · rename_i item channel head
      simp only at h
      split at h
      · rename_i state outcome runs
        exact Option.some.inj h ▸ .returned here stops head runs
      · rename_i state runs
        exact Option.some.inj h ▸ .goesOn here stops head runs
    · rename_i head point
      exact Option.some.inj h ▸ .ended here stops ⟨point, head⟩
    · contradiction

theorem step_cases {e : Event} (h : step results loop x e = some y) :
    Stepped results loop x e y := by
  cases e with
  | round =>
    simp only [step] at h
    split at h
    · contradiction
    · rename_i here
      exact round_cases here h
  | fetch e =>
    cases e with
    | recv | hangUp => contradiction
    | ask | answer chunk | take | send =>
      obtain ⟨task, moves, rfl⟩ := Option.map_eq_some_iff.mp h
      exact .fetch nofun nofun moves

/-- The function stands where the loop over the whole list stands after as many
rounds, and has returned as that returns. -/
structure InStep (results : List (Except Error (List β))) (loop : Loop σ β) (s : σ) (x : Sync σ β) :
    Prop where
  inFlight : x.outcome = none → FetchTask.InFlight results x.task
  stands : x.outcome = none → loop.through 0 s (delivered results) =
    loop.through x.task.received.length x.state
      ((delivered results).drop x.task.received.length)
  returned : ∀ outcome, x.outcome = some outcome →
    loop.through 0 s (delivered results) = Loop.returned outcome x.state

theorem start_inStep (results : List (Except Error (List β))) (loop : Loop σ β) (s : σ) :
    InStep results loop s (start s) where
  inFlight _ := FetchTask.start_inFlight results
  stands _ := rfl
  returned _ h := by cases h

/-- The next item is the one at the head of the channel. -/
theorem InStep.head (h : InStep results loop s x) (here : x.outcome = none) {item : β}
    {channel : List β} (head : x.task.channel = item :: channel) :
    (delivered results).drop x.task.received.length =
      item :: (delivered results).drop (x.task.received.length + 1) := by
  have hwhole := (h.inFlight here).whole
  rw [head, List.append_assoc] at hwhole
  rw [← hwhole, List.drop_left, List.cons_append]
  congr 1
  rw [List.append_cons, ← List.length_singleton (a := item), ← List.length_append]
  simp

theorem received_fetch {t u : FetchTask β} {e : FetchTask.Event} (he : e ≠ .recv)
    (h : FetchTask.step results t e = some u) : u.received = t.received := by
  cases FetchTask.step_cases h with
  | recv => exact absurd rfl he
  | ask | answer | exhausted | take | failed | sent | send | unheard | hangUp => rfl

theorem InStep.step (h : InStep results loop s x) {e : Event}
    (hst : Stepped results loop x e y) : InStep results loop s y := by
  cases hst with
  | @fetch e task notRecv notHangUp moves =>
    have hsame := received_fetch notRecv moves
    refine ⟨fun here => (h.inFlight here).step notHangUp moves, fun here => ?_, h.returned⟩
    rw [hsame]
    exact h.stands here
  | @stopped err here stops =>
    refine ⟨nofun, nofun, fun outcome hout => ?_⟩
    obtain rfl := Option.some.inj hout
    rw [h.stands here]
    cases hrest : (delivered results).drop x.task.received.length <;>
      simp only [Loop.through, stops, Loop.returned, stop]
  | ended here stops drained =>
    refine ⟨nofun, nofun, fun outcome hout => ?_⟩
    obtain rfl := Option.some.inj hout
    have hall := (h.inFlight here).received_of_ended drained
    rw [h.stands here, hall, List.drop_length]
    simp only [Loop.through, ← hall, stops, Loop.returned, stop]
  | @returned item channel state outcome here stops head runs =>
    refine ⟨nofun, nofun, fun found hout => ?_⟩
    obtain rfl := Option.some.inj hout
    rw [h.stands here, h.head here head]
    simp only [Loop.through, stops, runs, stop]
  | @goesOn item channel state here stops head runs =>
    refine ⟨fun _ => ?_, fun _ => ?_, fun outcome hout => ?_⟩
    · refine (h.inFlight here).step (e := .recv) nofun ?_
      simp [FetchTask.step, (h.inFlight here).listening, head]
    · rw [h.stands here, h.head here head]
      simp only [Loop.through, stops, runs, List.length_append, List.length_singleton]
    · rw [here] at hout
      contradiction

abbrev Ran (results : List (Except Error (List β))) (loop : Loop σ β) (s : σ) (x : Sync σ β) :
    Prop :=
  Run (step results loop) (fun _ _ => True) (start s) x

theorem ran_inStep (run : Ran results loop s x) : InStep results loop s x := by
  apply run.invariant (motive := InStep results loop s) (start_inStep results loop s)
  intro t u e ht _ hst
  exact ht.step (step_cases hst)

/-- A function that has not returned can go on, or its fetching can. -/
theorem InStep.progress (h : InStep results loop s x) (here : x.outcome = none) :
    ∃ e, (Sync.step results loop x e).isSome = true := by
  have hround : (x.goRound loop).isSome = true →
      ∃ e, (Sync.step results loop x e).isSome = true := by
    intro hsome
    exact ⟨.round, by simpa only [Sync.step, here] using hsome⟩
  by_cases hend : x.task.Ended
  · apply hround
    unfold goRound
    cases loop.stopsAt x.task.received.length <;> simp [hend.1, hend.2]
  · obtain ⟨e, he, hsome⟩ := (h.inFlight here).progress hend
    cases e with
    | hangUp => exact absurd rfl he
    | recv =>
      apply hround
      have hlistening := (h.inFlight here).listening
      cases hchannel : x.task.channel with
      | nil => simp [FetchTask.step, hchannel, hlistening] at hsome
      | cons item channel =>
        unfold goRound
        cases loop.stopsAt x.task.received.length with
        | some err => rfl
        | none =>
          simp only [hchannel]
          cases loop.round x.task.received.length x.state item with
          | mk state outcome => cases outcome <;> rfl
    | ask => exact ⟨.fetch .ask, by simpa [Sync.step] using hsome⟩
    | answer chunk => exact ⟨.fetch (.answer chunk), by simpa [Sync.step] using hsome⟩
    | take => exact ⟨.fetch .take, by simpa [Sync.step] using hsome⟩
    | send => exact ⟨.fetch .send, by simpa [Sync.step] using hsome⟩

/-- A bound on the steps before the function returns. -/
def left (results : List (Except Error (List β))) (x : Sync σ β) : Nat :=
  match x.outcome with
  | some _ => 0
  | none => x.task.remaining results + 1

theorem InStep.left_lt (h : InStep results loop s x) (here : x.outcome = none) {e : Event}
    (hst : Stepped results loop x e y) : y.left results < x.left results := by
  have hx : x.left results = x.task.remaining results + 1 := by rw [left, here]
  rw [hx]
  cases hst with
  | fetch notRecv notHangUp moves =>
    have := (h.inFlight here).remaining_lt notHangUp moves
    simp only [left, here]
    omega
  | stopped | ended | returned => exact Nat.succ_pos _
  | @goesOn item channel state _ stops head runs =>
    have hmoves : FetchTask.step results x.task .recv =
        some { x.task with channel, received := x.task.received ++ [item] } := by
      simp [FetchTask.step, (h.inFlight here).listening, head]
    have hlistens : FetchTask.Event.recv ≠ .hangUp := by
      intro heq
      cases heq
    simp only [left, here]
    exact Nat.succ_lt_succ ((h.inFlight here).remaining_lt hlistens hmoves)

/-- The function with its fetching running beside it comes, in every schedule and
after a bounded number of steps, to what it would come to on everything that is
delivered. -/
structure Refines (results : List (Except Error (List β))) (loop : Loop σ β) (s : σ)
    (sequential : EStateM.Result Error σ Unit) : Prop where
  goes_on : ∀ x, Ran results loop s x → x.outcome = none →
    ∃ e, (step results loop x e).isSome = true
  bounded : ∀ x e y, Ran results loop s x → x.outcome = none → step results loop x e = some y →
    y.left results < x.left results
  returns : ∃ x, Ran results loop s x ∧ x.outcome.isSome = true
  agrees : ∀ x outcome, Ran results loop s x → x.outcome = some outcome →
    sequential = Loop.returned outcome x.state

theorem refines (results : List (Except Error (List β))) (loop : Loop σ β) (s : σ) :
    Refines results loop s (loop.through 0 s (delivered results)) where
  goes_on _ run here := (ran_inStep run).progress here
  bounded _ _ _ run here hst := (ran_inStep run).left_lt here (step_cases hst)
  returns := by
    have hprogress : ∀ x, Run (step results loop) (fun x _ => x.outcome = none) (start s) x →
        ¬ x.outcome.isSome = true →
        ∃ e, x.outcome = none ∧ (step results loop x e).isSome = true := by
      intro x run hnot
      have here : x.outcome = none := by simpa using hnot
      have hran : Ran results loop s x := run.mono (fun _ _ _ => trivial)
      obtain ⟨e, hsome⟩ := (ran_inStep hran).progress here
      exact ⟨e, here, hsome⟩
    have hlowers : ∀ x e y, Run (step results loop) (fun x _ => x.outcome = none) (start s) x →
        x.outcome = none → step results loop x e = some y → y.left results < x.left results := by
      intro x e y run here hst
      have hran : Ran results loop s x := run.mono (fun _ _ _ => trivial)
      exact (ran_inStep hran).left_lt here (step_cases hst)
    obtain ⟨x, run, hdone⟩ := Run.ends .start hprogress hlowers
    exact ⟨x, run.mono (fun _ _ _ => trivial), hdone⟩
  agrees _ outcome run hout := (ran_inStep run).returned outcome hout

end Sync

namespace BlockSyncer

variable {core : FuelCore} {FullBlock : Type}

/-- The loop that executes blocks. -/
def executeLoop (around : Surroundings FullBlock) : Loop (BlockSyncer core) SealedBlock where
  stopsAt i := if around.stopsAt = some i then some stopSignal else none
  round i s block :=
    match around.awaitAtLeastSynced block.entity.daHeight with
    | .error err => (s, some (.error err))
    | .ok () =>
      match (around.fails i).attempt .executeAndCommit
        (core.executeAndCommit s.onChainDatabase block) with
      | .error err => (s, some (.error err))
      | .ok onChainDatabase => ({ s with onChainDatabase }, none)

/-- The loop that commits compressed blocks, with the height it has come to. -/
def commitLoop (around : Surroundings FullBlock) :
    Loop (BlockSyncer core × Option Nat) (Option VersionedCompressedBlock) where
  stopsAt i := if around.stopsAt = some i then some stopSignalOfCompression else none
  round i s received :=
    match received with
    | none => if s.2.isSome then (s, some (.ok ())) else (s, none)
    | some block =>
      match s.1.commitCompression (around.fails i) block with
      | .error err => (s, some (.error err))
      | .ok t => ((t, some block.height), none)

theorem executeReceived_eq_through (around : Surroundings FullBlock) (s : BlockSyncer core)
    (i : Nat) (blocks : List SealedBlock) :
    executeReceived around s i blocks = (executeLoop around).through i s blocks := by
  induction blocks generalizing s i with
  | nil =>
    by_cases hstop : around.stopsAt = some i <;>
      simp [executeReceived, Loop.through, executeLoop, hstop]
  | cons block rest ih =>
    simp only [executeReceived, Loop.through, executeLoop]
    by_cases hstop : around.stopsAt = some i
    · simp only [if_pos hstop]
    · simp only [if_neg hstop]
      cases around.awaitAtLeastSynced block.entity.daHeight with
      | error err => rfl
      | ok _ =>
        simp only
        cases (around.fails i).attempt .executeAndCommit
          (core.executeAndCommit s.onChainDatabase block) with
        | error err => rfl
        | ok onChainDatabase => exact ih { s with onChainDatabase } (i + 1)

/-- The height is a local of the function, gone when it returns. -/
def forgetHeight : EStateM.Result Error (BlockSyncer core × Option Nat) Unit →
    EStateM.Result Error (BlockSyncer core) Unit
  | .ok () s => .ok () s.1
  | .error err s => .error err s.1

theorem commitReceived_eq_through (around : Surroundings FullBlock) (s : BlockSyncer core)
    (latest : Option Nat) (i : Nat) (items : List (Option VersionedCompressedBlock)) :
    commitReceived around s latest i items =
      forgetHeight ((commitLoop around).through i (s, latest) items) := by
  induction items generalizing s latest i with
  | nil =>
    by_cases hstop : around.stopsAt = some i <;>
      simp [commitReceived, Loop.through, commitLoop, forgetHeight, hstop]
  | cons received rest ih =>
    simp only [commitReceived, Loop.through, commitLoop]
    by_cases hstop : around.stopsAt = some i
    · simp only [if_pos hstop, forgetHeight]
    · simp only [if_neg hstop]
      cases received with
      | none =>
        cases latest with
        | none => exact ih s none (i + 1)
        | some height => rfl
      | some block =>
        simp only
        cases s.commitCompression (around.fails i) block with
        | error err => rfl
        | ok t => exact ih t (some block.height) (i + 1)

/-- Both GraphQL syncs as they run, with their chunks fetched eight at a time and
answered in any order, a spawned task and a bounded channel in between, come to
what they come to when everything that is delivered is there at once. -/
theorem graphql_syncs_refined (core : FuelCore) (FullBlock : Type)
    (around : Surroundings FullBlock) (s : BlockSyncer core) :
    (∀ currentHeight latestRemoteHeight, s.onChainLatestHeight = .ok currentHeight →
      around.sentry.lastHeight = .ok latestRemoteHeight →
      Sync.Refines ((fetchRanges (saturatingAdd currentHeight 1) latestRemoteHeight).mapIdx
          (fun k range => (around.sentryAt k).blocksFor range))
        (executeLoop around) s (s.syncAsMuchAsPossibleFromGraphql around)) ∧
    ∀ target, s.onChainLatestHeight = .ok target → s.compressionConfig ≤ u32Max →
      ∃ sequential, s.syncCompressionFromGraphql around = forgetHeight sequential ∧
        Sync.Refines ((fetchRanges (s.startCompressionHeight target) target).mapIdx
            (fun k range => (around.sentryAt k).compressedBlocksFor range))
          (commitLoop around) (s, s.compressionLatestHeight) sequential := by
  constructor
  · intro currentHeight latestRemoteHeight hcurrent hremote
    simp only [syncAsMuchAsPossibleFromGraphql, hcurrent, hremote, executeReceived_eq_through]
    exact Sync.refines _ _ s
  · intro target htarget hretention
    refine ⟨_, ?_, Sync.refines _ _ (s, s.compressionLatestHeight)⟩
    simp only [syncCompressionFromGraphql, htarget, if_neg (Nat.not_lt.mpr hretention),
      commitReceived_eq_through]

/-- A sentry whose chain goes up to height 5, and nothing else in the way. -/
def upToFive : Surroundings Nat := untroubled (FuelClient.plainNode 5)

/-- Blocks 3 and 4 are there to execute, and block 1 to commit data of. -/
theorem graphql_syncs_refined_up_to_five :
    Sync.Refines ((fetchRanges 3 5).mapIdx (fun k range => (upToFive.sentryAt k).blocksFor range))
        (executeLoop upToFive) (plainSyncer 3 [])
        ((plainSyncer 3 []).syncAsMuchAsPossibleFromGraphql upToFive) ∧
      ∃ sequential,
        (plainSyncer 3 []).syncCompressionFromGraphql upToFive = forgetHeight sequential ∧
          Sync.Refines ((fetchRanges 1 2).mapIdx
              (fun k range => (upToFive.sentryAt k).compressedBlocksFor range))
            (commitLoop upToFive) (plainSyncer 3 [], none) sequential := by
  obtain ⟨execute, commit⟩ := graphql_syncs_refined plainCore Nat upToFive (plainSyncer 3 [])
  exact ⟨execute 2 5 rfl rfl, commit 2 rfl (by decide)⟩

end BlockSyncer
end Watchtower.Syncer
