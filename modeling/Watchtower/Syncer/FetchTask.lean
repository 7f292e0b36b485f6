import Mathlib.Algebra.GroupWithZero.Nat
import Mathlib.Data.List.Perm.Subperm
import Watchtower.Lib.Run
import Watchtower.Syncer.Ranges

namespace Watchtower.Syncer
open Lib BlockSyncer

namespace FetchTask

/-- Where the spawned task stands: at `stream.next()`, in the loop over the
blocks of a chunk with these still to send, or past both loops. -/
inductive Point (β : Type) where
  | next
  | sending (blocks : List β)
  | done
  deriving DecidableEq

end FetchTask

/-- The fetching of chunks, the spawned task and its channel. Of the chunks
`asked` have been requested, those `answered` are complete and not yet taken,
and `taken` have been handed to the task, in order. -/
structure FetchTask (β : Type) where
  asked : Nat
  answered : List Nat
  taken : Nat
  point : FetchTask.Point β
  channel : List β
  received : List β
  /-- The receiver is still there. -/
  listening : Bool
  deriving DecidableEq

namespace FetchTask

variable {β : Type} {results : List (Except Error (List β))} {t u : FetchTask β}

def start : FetchTask β where
  asked := 0
  answered := []
  taken := 0
  point := .next
  channel := []
  received := []
  listening := true

/-- What moves the system: the stream fills up with requests, one of them is
answered, the task takes the result at its turn or goes on with its sends, the
consumer receives a block or is gone. -/
inductive Event where
  | ask
  | answer (chunk : Nat)
  | take
  | send
  | recv
  | hangUp
  deriving DecidableEq

/-- How many requests `buffered(8)` has made when it waits. -/
def requested (results : List (Except Error (List β))) (t : FetchTask β) : Nat :=
  min results.length (t.taken + 8)

def takeResult (t : FetchTask β) (point : Point β) : FetchTask β :=
  { t with
    taken := t.taken + 1
    answered := t.answered.erase t.taken
    point }

def step (results : List (Except Error (List β))) (t : FetchTask β) :
    Event → Option (FetchTask β)
  | .ask =>
    match t.point with
    | .next =>
      if t.asked < t.requested results then some { t with asked := t.requested results } else none
    | _ => none
  | .answer chunk =>
    if t.taken ≤ chunk ∧ chunk < t.asked ∧ chunk ∉ t.answered then
      some { t with answered := chunk :: t.answered }
    else none
  | .take =>
    match t.point with
    | .next =>
      if t.asked < t.requested results then none
      else
        match results[t.taken]? with
        | none => some { t with point := .done }
        | some result =>
          if t.taken ∈ t.answered then
            match result with
            | .ok blocks => some (t.takeResult (.sending blocks))
            | .error _ => some (t.takeResult .done)
          else none
    | _ => none
  | .send =>
    match t.point with
    | .sending [] => some { t with point := .next }
    | .sending (block :: blocks) =>
      if t.listening then
        if t.channel.length < 1024 then
          some { t with channel := t.channel ++ [block], point := .sending blocks }
        else none
      -- a failed send leaves the loop over the blocks, not the one over the chunks
      else some { t with point := .next }
    | _ => none
  | .recv =>
    match t.listening, t.channel with
    | true, block :: channel => some { t with channel, received := t.received ++ [block] }
    | _, _ => none
  | .hangUp =>
    if t.listening then some { t with listening := false, channel := [] } else none

/-- Everything one step can do, with the condition under which it does it. -/
inductive Stepped (results : List (Except Error (List β))) (t : FetchTask β) :
    Event → FetchTask β → Prop where
  | ask (here : t.point = .next) (room : t.asked < t.requested results) :
      Stepped results t .ask { t with asked := t.requested results }
  | answer (chunk : Nat) (waiting : t.taken ≤ chunk) (sent : chunk < t.asked)
      (fresh : chunk ∉ t.answered) :
      Stepped results t (.answer chunk) { t with answered := chunk :: t.answered }
  | exhausted (here : t.point = .next) (full : t.requested results ≤ t.asked)
      (none : results.length ≤ t.taken) : Stepped results t .take { t with point := .done }
  | take (blocks : List β) (here : t.point = .next) (full : t.requested results ≤ t.asked)
      (ready : t.taken ∈ t.answered) (result : results[t.taken]? = some (.ok blocks)) :
      Stepped results t .take (t.takeResult (.sending blocks))
  | failed (err : Error) (here : t.point = .next) (full : t.requested results ≤ t.asked)
      (ready : t.taken ∈ t.answered) (result : results[t.taken]? = some (.error err)) :
      Stepped results t .take (t.takeResult .done)
  | sent (here : t.point = .sending []) : Stepped results t .send { t with point := .next }
  | send (block : β) (blocks : List β) (here : t.point = .sending (block :: blocks))
      (listening : t.listening = true) (room : t.channel.length < 1024) :
      Stepped results t .send
        { t with channel := t.channel ++ [block], point := .sending blocks }
  | unheard (block : β) (blocks : List β) (here : t.point = .sending (block :: blocks))
      (gone : t.listening = false) : Stepped results t .send { t with point := .next }
  | recv (block : β) (channel : List β) (listening : t.listening = true)
      (head : t.channel = block :: channel) :
      Stepped results t .recv { t with channel, received := t.received ++ [block] }
  | hangUp (listening : t.listening = true) :
      Stepped results t .hangUp { t with listening := false, channel := [] }

theorem step_cases {e : Event} (h : step results t e = some u) : Stepped results t e u := by
  cases e with
  | ask =>
    simp only [step] at h
    split at h
    · rename_i here
      split at h
      · rename_i room
        exact Option.some.inj h ▸ .ask here room
      · contradiction
    · contradiction
  | answer chunk =>
    simp only [step] at h
    split at h
    · rename_i hc
      exact Option.some.inj h ▸ .answer chunk hc.1 hc.2.1 hc.2.2
    · contradiction
  | take =>
    simp only [step] at h
    split at h
    · rename_i here
      split at h
      · contradiction
      · rename_i full
        have full := Nat.le_of_not_lt full
        split at h
        · rename_i none
          exact Option.some.inj h ▸ .exhausted here full (List.getElem?_eq_none_iff.mp none)
        · rename_i result hresult
          split at h
          · rename_i ready
            split at h
            · exact Option.some.inj h ▸ .take _ here full ready hresult
            · exact Option.some.inj h ▸ .failed _ here full ready hresult
          · contradiction
    · contradiction
  | send =>
    simp only [step] at h
    split at h
    · rename_i here
      exact Option.some.inj h ▸ .sent here
    · rename_i block blocks here
      split at h
      · rename_i listening
        split at h
        · rename_i room
          exact Option.some.inj h ▸ .send block blocks here listening room
        · contradiction
      · rename_i gone
        exact Option.some.inj h ▸ .unheard block blocks here (by simpa using gone)
    · contradiction
  | recv =>
    simp only [step] at h
    split at h
    · rename_i block channel listening head
      exact Option.some.inj h ▸ .recv block channel listening head
    · contradiction
  | hangUp =>
    simp only [step] at h
    split at h
    · rename_i listening
      exact Option.some.inj h ▸ .hangUp listening
    · contradiction

/-- The requests that are out or answered, and not yet taken. -/
structure Window (results : List (Except Error (List β))) (t : FetchTask β) : Prop where
  taken : t.taken ≤ t.asked
  within : t.asked ≤ results.length
  ahead : t.asked ≤ t.taken + 8
  waiting : ∀ chunk ∈ t.answered, t.taken ≤ chunk ∧ chunk < t.asked
  once : t.answered.Nodup

theorem Window.takeResult (h : Window results t) (ready : t.taken ∈ t.answered)
    (point : Point β) : Window results (t.takeResult point) := by
  have hready := h.waiting _ ready
  constructor
  · exact hready.2
  · exact h.within
  · exact h.ahead.trans (by simp only [FetchTask.takeResult]; omega)
  · intro chunk hc
    obtain ⟨hne, hm⟩ := h.once.mem_erase_iff.mp hc
    have := h.waiting chunk hm
    simp only [FetchTask.takeResult]
    omega
  · exact h.once.erase _

theorem Window.step (h : Window results t) {e : Event} (hs : step results t e = some u) :
    Window results u := by
  cases step_cases hs with
  | ask here room =>
    have hle := Nat.min_le_left results.length (t.taken + 8)
    have hahead := Nat.min_le_right results.length (t.taken + 8)
    exact ⟨h.taken.trans room.le, hle, hahead,
      fun chunk hc => ⟨(h.waiting chunk hc).1, (h.waiting chunk hc).2.trans room⟩, h.once⟩
  | answer chunk waiting sent fresh =>
    refine ⟨h.taken, h.within, h.ahead, ?_, List.nodup_cons.mpr ⟨fresh, h.once⟩⟩
    intro other hm
    rcases List.mem_cons.mp hm with rfl | hm
    · exact ⟨waiting, sent⟩
    · exact h.waiting other hm
  | take blocks here full ready result => exact h.takeResult ready _
  | failed err here full ready result => exact h.takeResult ready _
  | exhausted | sent | send | unheard | recv | hangUp => exact { h with }

/-- What the task is still going to send. -/
def toSend (results : List (Except Error (List β))) (t : FetchTask β) : List β :=
  match t.point with
  | .next => delivered (results.drop t.taken)
  | .sending blocks => blocks ++ delivered (results.drop t.taken)
  | .done => []

/-- Nothing has been lost, repeated or moved between the fetches and the consumer. -/
structure InFlight (results : List (Except Error (List β))) (t : FetchTask β) : Prop where
  window : Window results t
  listening : t.listening = true
  whole : t.received ++ t.channel ++ t.toSend results = delivered results

theorem start_inFlight (results : List (Except Error (List β))) :
    InFlight results (start : FetchTask β) where
  window := ⟨Nat.le_refl 0, Nat.zero_le _, Nat.zero_le _, by simp [start], List.nodup_nil⟩
  listening := rfl
  whole := rfl

theorem InFlight.step (h : InFlight results t) {e : Event} (he : e ≠ .hangUp)
    (hs : step results t e = some u) : InFlight results u := by
  refine ⟨h.window.step hs, ?_, ?_⟩
  · cases step_cases hs with
    | hangUp => exact absurd rfl he
    | _ => exact h.listening
  · rw [← h.whole]
    cases step_cases hs with
    | ask | answer => rfl
    | exhausted here full none =>
      simp [toSend, here, List.drop_eq_nil_of_le none, delivered]
    | take blocks here full ready result =>
      simp [toSend, takeResult, here, delivered_drop_ok result]
    | failed err here full ready result =>
      simp [toSend, takeResult, here, delivered_drop_error result]
    | sent here => simp [toSend, here]
    | send block blocks here => simp [toSend, here]
    | unheard block blocks here gone => exact absurd gone (by simp [h.listening])
    | recv block channel listening head => simp [toSend, head]
    | hangUp => exact absurd rfl he

/-- The runs in which the consumer does not stop. -/
abbrev Listened (results : List (Except Error (List β))) (t u : FetchTask β) : Prop :=
  Run (step results) (fun _ e => e ≠ .hangUp) t u

theorem inFlight_of_listened (h : Listened results start t) : InFlight results t :=
  h.invariant (start_inFlight results) (fun _ _ _ ht he hs => ht.step he hs)

/-- `recv` gives `None`: the task is over and the channel empty. -/
def Ended (t : FetchTask β) : Prop := t.point = .done ∧ t.channel = []

theorem InFlight.received_leads (h : InFlight results t) : t.received <+: delivered results := by
  rw [← h.whole, List.append_assoc]
  exact List.prefix_append _ _

theorem InFlight.received_of_ended (h : InFlight results t) (hend : t.Ended) :
    t.received = delivered results := by
  rw [← h.whole, toSend, hend.1, hend.2, List.append_nil, List.append_nil]

/-- Short of the end something can always happen. -/
theorem InFlight.progress (h : InFlight results t) (hend : ¬ t.Ended) :
    ∃ e, e ≠ .hangUp ∧ (FetchTask.step results t e).isSome = true := by
  by_cases hchannel : t.channel = []
  · cases hp : t.point with
    | next =>
      by_cases hask : t.asked < t.requested results
      · exact ⟨.ask, by simp, by simp [FetchTask.step, hp, hask]⟩
      · by_cases hmore : t.taken < results.length
        · by_cases hready : t.taken ∈ t.answered
          · refine ⟨.take, by simp, ?_⟩
            simp only [FetchTask.step, hp, if_neg hask, List.getElem?_eq_getElem hmore,
              if_pos hready]
            cases results[t.taken] <;> rfl
          · have hout : t.taken < t.asked := by
              simp only [requested] at hask
              omega
            exact ⟨.answer t.taken, by simp, by simp [FetchTask.step, hout, hready]⟩
        · have hnone := List.getElem?_eq_none_iff.mpr (Nat.le_of_not_lt hmore)
          exact ⟨.take, by simp, by simp [FetchTask.step, hp, hask, hnone]⟩
    | sending blocks =>
      cases blocks with
      | nil => exact ⟨.send, by simp, by simp [FetchTask.step, hp]⟩
      | cons block blocks =>
        exact ⟨.send, by simp, by simp [FetchTask.step, hp, h.listening, hchannel]⟩
    | done => exact absurd ⟨hp, hchannel⟩ hend
  · obtain ⟨block, channel, hc⟩ := List.exists_cons_of_ne_nil hchannel
    exact ⟨.recv, by simp, by simp [FetchTask.step, h.listening, hc]⟩

def Point.cost : Point β → Nat
  | .next => 1
  | .sending blocks => 2 * blocks.length + 2
  | .done => 0

def resultCost : Except Error (List β) → Nat
  | .ok blocks => 2 * blocks.length + 3
  | .error _ => 1

/-- A bound on the steps still to come: a request is made and answered, a
block sent and received. -/
def remaining (results : List (Except Error (List β))) (t : FetchTask β) : Nat :=
  2 * (results.length - t.asked) + (t.asked - t.taken - t.answered.length) +
    ((results.drop t.taken).map resultCost).sum + t.point.cost + t.channel.length

theorem Window.answered_le (h : Window results t) : t.answered.length ≤ t.asked - t.taken := by
  have hsub : t.answered ⊆ List.range' t.taken (t.asked - t.taken) := by
    intro chunk hc
    have := h.waiting chunk hc
    exact List.mem_range'_1.mpr (by omega)
  have hle := (List.subperm_of_subset h.once hsub).length_le
  rwa [List.length_range'] at hle

theorem costs_drop {result : Except Error (List β)} (h : results[t.taken]? = some result) :
    ((results.drop t.taken).map resultCost).sum =
      resultCost result + ((results.drop (t.taken + 1)).map resultCost).sum := by
  obtain ⟨hk, rfl⟩ := List.getElem?_eq_some_iff.mp h
  rw [List.drop_eq_getElem_cons hk, List.map_cons, List.sum_cons]

/-- A result taken is worth more than what becomes of it. -/
theorem remaining_takeResult (h : Window results t) (here : t.point = .next)
    (ready : t.taken ∈ t.answered) {result : Except Error (List β)}
    (hresult : results[t.taken]? = some result) {point : Point β}
    (hcost : point.cost < resultCost result + 1) :
    (t.takeResult point).remaining results < t.remaining results := by
  have hcosts := costs_drop hresult
  have hready := h.waiting _ ready
  have hpos := List.length_pos_of_mem ready
  have hnext : t.point.cost = 1 := by rw [here, Point.cost]
  simp only [remaining, takeResult, hcosts, hnext, List.length_erase_of_mem ready]
  omega

theorem InFlight.remaining_lt (h : InFlight results t) {e : Event} (he : e ≠ .hangUp)
    (hs : FetchTask.step results t e = some u) : u.remaining results < t.remaining results := by
  have hwindow := (h.window.step hs).answered_le
  have hbefore := h.window.answered_le
  have htaken := h.window.taken
  have hwithin := h.window.within
  cases step_cases hs with
  | ask here room =>
    have hle : t.requested results ≤ results.length := Nat.min_le_left _ _
    simp only [remaining]
    omega
  | answer chunk waiting sent fresh =>
    simp only [remaining, List.length_cons] at hwindow ⊢
    omega
  | exhausted here full none =>
    simp only [remaining, here, Point.cost]
    omega
  | take blocks here full ready result =>
    exact remaining_takeResult h.window here ready result (by simp [Point.cost, resultCost])
  | failed err here full ready result =>
    exact remaining_takeResult h.window here ready result (by simp [Point.cost, resultCost])
  | sent here =>
    simp only [remaining, here, Point.cost, List.length_nil]
    omega
  | send block blocks here listening room =>
    simp only [remaining, here, Point.cost, List.length_cons, List.length_append, List.length_nil]
    omega
  | unheard block blocks here gone => exact absurd gone (by simp [h.listening])
  | recv block channel listening head =>
    simp only [remaining, head, List.length_cons]
    omega
  | hangUp => exact absurd rfl he

/-- Whatever the order of the answers and the pace of the consumer, the heights
are cut into ranges that make them up again, and the consumer receives the
results of the chunks in order up to the first that fails, and all of these. -/
theorem chunked_fetch_delivers_in_order (first stop : Nat) (hstop : stop ≤ u32Max) :
    (∀ chunk ∈ chunks 40 (List.range' first (stop - first)),
      ∃ start len, chunk = List.range' start len ∧ 0 < len ∧ len ≤ 40 ∧
        start + len ≤ u32Max ∧ chunkRange chunk = ⟨start, start + len⟩) ∧
    (fetchRanges first stop).Pairwise (fun range later => range.stop ≤ later.start) ∧
    (fetchRanges first stop).flatMap HeightRange.heights = List.range' first (stop - first) ∧
    ∀ (β : Type) (groups : List (List β)) (rest : List (Except Error (List β))),
      groups.length + rest.length = (fetchRanges first stop).length →
      (∀ items, rest.head? ≠ some (.ok items)) →
      ∀ t, Listened (groups.map .ok ++ rest) start t →
        t.received <+: groups.flatten ∧
        (t.Ended → t.received = groups.flatten) ∧
        (¬ t.Ended →
          ∃ e, e ≠ .hangUp ∧ (FetchTask.step (groups.map .ok ++ rest) t e).isSome = true) ∧
        ∀ e u, e ≠ .hangUp → FetchTask.step (groups.map .ok ++ rest) t e = some u →
          u.remaining (groups.map .ok ++ rest) < t.remaining (groups.map .ok ++ rest) := by
  refine ⟨fun chunk hc => chunkRange_of_chunk hstop hc, fetchRanges_apart hstop,
    fetchRanges_heights hstop, ?_⟩
  intro β groups rest _ hrest t ht
  have hflight := inFlight_of_listened ht
  have hdelivered : delivered (groups.map .ok ++ rest) = groups.flatten := delivered_eq hrest
  refine ⟨?_, ?_, hflight.progress, fun e u he hs => hflight.remaining_lt he hs⟩
  · rw [← hdelivered]
    exact hflight.received_leads
  · intro hend
    rw [← hdelivered]
    exact hflight.received_of_ended hend

instance (t : FetchTask β) [DecidableEq β] : Decidable t.Ended :=
  inferInstanceAs (Decidable (t.point = .done ∧ t.channel = []))

/-- Three chunks, answered the last one first, of which the second fails. -/
theorem chunked_fetch_delivers_in_order_of_three :
    ∃ t, Listened [.ok [5, 6], .error "timeout", .ok [7]] start t ∧ t.Ended ∧
      t.received = [5, 6] := by
  have hscript : ∃ t, Listened [.ok [5, 6], .error "timeout", .ok [7]] start t ∧ t.Ended :=
    Run.exists_of_drive
      [.ask, .answer 2, .answer 0, .take, .send, .answer 1, .send, .send, .recv, .take, .recv]
      (by decide)
  obtain ⟨t, hrun, hend⟩ := hscript
  refine ⟨t, hrun, hend, ?_⟩
  exact ((chunked_fetch_delivers_in_order 5 90 (by decide)).2.2.2 Nat [[5, 6]]
    [.error "timeout", .ok [7]] (by decide) (by simp) t hrun).2.1 hend

end FetchTask

namespace BlockSyncer

variable {core : FuelCore} {FullBlock : Type}

/-- The loop that executes blocks goes over what the channel has handed over
when it ends. -/
theorem syncAsMuchAsPossible_eq {around : Surroundings FullBlock} {s : BlockSyncer core}
    {currentHeight latestRemoteHeight : Nat} (hcurrent : s.onChainLatestHeight = .ok currentHeight)
    (hremote : around.sentry.lastHeight = .ok latestRemoteHeight) {t : FetchTask SealedBlock}
    (ht : FetchTask.Listened
      ((fetchRanges (saturatingAdd currentHeight 1) latestRemoteHeight).mapIdx
        (fun k range => (around.sentryAt k).blocksFor range)) .start t) (hend : t.Ended) :
    s.syncAsMuchAsPossibleFromGraphql around = s.executeReceived around 0 t.received := by
  simp only [syncAsMuchAsPossibleFromGraphql, hcurrent, hremote]
  rw [(FetchTask.inFlight_of_listened ht).received_of_ended hend]

/-- So does the loop that commits compressed blocks. -/
theorem syncCompression_eq {around : Surroundings FullBlock} {s : BlockSyncer core}
    {target : Nat} (htarget : s.onChainLatestHeight = .ok target)
    (hretention : s.compressionConfig ≤ u32Max) {t : FetchTask (Option VersionedCompressedBlock)}
    (ht : FetchTask.Listened
      ((fetchRanges (s.startCompressionHeight target) target).mapIdx
        (fun k range => (around.sentryAt k).compressedBlocksFor range)) .start t)
    (hend : t.Ended) :
    s.syncCompressionFromGraphql around =
      s.commitReceived around s.compressionLatestHeight 0 t.received := by
  simp only [syncCompressionFromGraphql, htarget, if_neg (Nat.not_lt.mpr hretention)]
  rw [(FetchTask.inFlight_of_listened ht).received_of_ended hend]

end BlockSyncer
end Watchtower.Syncer
