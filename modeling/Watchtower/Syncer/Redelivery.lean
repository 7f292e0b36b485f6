import Watchtower.Syncer.Heights

namespace Watchtower.Syncer
open Lib

namespace BlockSyncer

variable {core : FuelCore} {s t u : BlockSyncer core} {block : VersionedCompressedBlock}

/-- Imports `count` blocks of the feed from height `next` on, straight through. -/
def importFrom (s : BlockSyncer core) (feed : Nat → VersionedCompressedBlock) (next : Nat) :
    Nat → EStateM.Result Error (BlockSyncer core) Unit
  | 0 => .ok () s
  | count + 1 =>
    match s.importBlockFromDa Faults.none (feed next) with
    | .error err s => .error err s
    | .ok () s => importFrom s feed (next + 1) count

theorem importFrom_split {feed : Nat → VersionedCompressedBlock} {next a b : Nat}
    (h : s.importFrom feed next (a + b) = .ok () t) :
    ∃ u, s.importFrom feed next a = .ok () u ∧ u.importFrom feed (next + a) b = .ok () t := by
  induction a generalizing s next with
  | zero => exact ⟨s, rfl, by simpa using h⟩
  | succ a ih =>
    rw [Nat.succ_add] at h
    unfold importFrom at h
    split at h
    · contradiction
    · rename_i v hv
      obtain ⟨u, hu, ht⟩ := ih h
      refine ⟨u, by simp only [importFrom, hv, hu], ?_⟩
      rwa [Nat.add_right_comm] at ht

theorem importFrom_succ {feed : Nat → VersionedCompressedBlock} {next count : Nat}
    (h : s.importFrom feed next (count + 1) = .ok () t) :
    ∃ u, s.importFrom feed next count = .ok () u ∧
      u.importBlockFromDa Faults.none (feed (next + count)) = .ok () t := by
  obtain ⟨u, hu, ht⟩ := importFrom_split h
  refine ⟨u, hu, ?_⟩
  unfold importFrom at ht
  split at ht
  · contradiction
  · rename_i v hv
    obtain rfl := (EStateM.Result.ok.inj ht).2
    exact hv

/-- On a chain that ends right below the block or above it, the chain an import
prepares ends at the higher of the two. -/
theorem Prepared.chain_height (hontop : core.CommitsOnTop)
    {changes : CompressionChanges core.RegistryChanges} {chain' : core.OnChain}
    (h : Prepared s block changes chain') {o : Nat}
    (ho : core.onChainHeight s.onChainDatabase = some o) (hle : block.height ≤ o + 1) :
    core.onChainHeight chain' = some (max o block.height) := by
  obtain ⟨o', ho', -, hcase⟩ := h.fresh
  obtain rfl := Option.some.inj (ho.symm.trans ho')
  rcases hcase with ⟨hbelow, rfl⟩ | ⟨hlt, hexec⟩
  · rw [Nat.max_eq_left hbelow]
    exact ho
  · obtain ⟨result, changes, hcommit, -⟩ := executeBlock_commits hexec
    obtain ⟨below, hbelow, -, hnow⟩ := hontop.commitResult hcommit
    obtain rfl := Option.some.inj (ho.symm.trans hbelow)
    have hnext : block.height = o + 1 := by omega
    rw [Nat.max_eq_right (Nat.le_of_lt hlt), hnext]
    exact hnow

theorem Prepared.unique {changes changes' : CompressionChanges core.RegistryChanges}
    {chain chain' : core.OnChain} (h : Prepared s block changes chain)
    (h' : Prepared s block changes' chain') : changes = changes' ∧ chain = chain' := by
  refine ⟨Except.ok.inj (h.apply.symm.trans h'.apply), ?_⟩
  obtain ⟨height, hc, -, hcase⟩ := h.fresh
  obtain ⟨height', hc', -, hcase'⟩ := h'.fresh
  obtain rfl := Option.some.inj (hc.symm.trans hc')
  rcases hcase with ⟨hle, rfl⟩ | ⟨hlt, he⟩
  · rcases hcase' with ⟨-, rfl⟩ | ⟨hlt, -⟩
    · rfl
    · exact absurd hle (Nat.not_le_of_lt hlt)
  · rcases hcase' with ⟨hle, -⟩ | ⟨-, he'⟩
    · exact absurd hle (Nat.not_le_of_lt hlt)
    · exact Except.ok.inj (he.symm.trans he')

theorem not_known {c height : Nat} (hc : s.compressionLatestHeight = some c)
    (h : c < block.height) : s.alreadyKnown block.height height = false := by
  simp [alreadyKnown, hc, Nat.not_le_of_lt h]

theorem importBlockFromDa_known {height c : Nat} (fails : Faults)
    (hchain : core.onChainHeight s.onChainDatabase = some height)
    (hc : s.compressionLatestHeight = some c) (hle : block.height ≤ height)
    (hle' : block.height ≤ c) : s.importBlockFromDa fails block = .ok () s := by
  have hskip : s.alreadyKnown block.height height = true := by
    simp [alreadyKnown, hc, hle, hle']
  simp [importBlockFromDa, onChainLatestHeight_ok.mpr hchain, hskip]

/-- The block above the compression data is imported in whole or not at all by
a call that succeeds. -/
theorem whole_of_ok {c : Nat} (hc : s.compressionLatestHeight = some c)
    (hnext : block.height = c + 1) {fails : Faults}
    (h : s.importBlockFromDa fails block = .ok () t) :
    ∃ changes chain' database', Prepared s block changes chain' ∧
      core.commitCompression s.database changes = .ok database' ∧
      t = { s with onChainDatabase := chain', database := database' } := by
  have hcases := importBlockFromDa_cases s fails block
  rw [h] at hcases
  cases hcases with
  | known height _ skip =>
    rw [not_known hc (by omega)] at skip
    contradiction
  | whole prepared _ commit => exact ⟨_, _, _, prepared, commit, rfl⟩
  | chainOnly _ below =>
    simp only [hc, Option.getD_some] at below
    omega

/-- The state after a call that failed between its two commits. -/
def halfway (s t : BlockSyncer core) : BlockSyncer core :=
  { s with onChainDatabase := t.onChainDatabase }

/-- However a call fails where it could have succeeded, it leaves the state as
it was or halfway. -/
theorem import_outcomes {c : Nat} (hc : s.compressionLatestHeight = some c)
    (hnext : block.height = c + 1) (h : s.importBlockFromDa Faults.none block = .ok () t)
    (fails : Faults) :
    s.importBlockFromDa fails block = .ok () t ∨
      ∃ err, s.importBlockFromDa fails block = .error err s ∨
        s.importBlockFromDa fails block = .error err (s.halfway t) := by
  obtain ⟨changes, chain', database', hp, hcommit, rfl⟩ := whole_of_ok hc hnext h
  have hcases := importBlockFromDa_cases s fails block
  generalize s.importBlockFromDa fails block = outcome at hcases ⊢
  cases hcases with
  | failed err => exact Or.inr ⟨err, Or.inl rfl⟩
  | known height _ skip =>
    rw [not_known hc (by omega)] at skip
    contradiction
  | halfway prepared _ err =>
    obtain ⟨-, rfl⟩ := hp.unique prepared
    exact Or.inr ⟨err, Or.inr rfl⟩
  | whole prepared _ commit =>
    obtain ⟨rfl, rfl⟩ := hp.unique prepared
    rw [hcommit] at commit
    obtain rfl := Except.ok.inj commit
    exact Or.inl rfl
  | chainOnly _ below =>
    simp only [hc, Option.getD_some] at below
    omega

/-- From halfway the same block is not executed again, and a call that
succeeds ends where the whole import ends. -/
theorem halfway_outcomes (hontop : core.CommitsOnTop) {c : Nat}
    (hc : s.compressionLatestHeight = some c) (hs : s.Behind) (hnext : block.height = c + 1)
    (h : s.importBlockFromDa Faults.none block = .ok () t) (fails : Faults) :
    (s.halfway t).importBlockFromDa fails block = .ok () t ∨
      ∃ err, (s.halfway t).importBlockFromDa fails block = .error err (s.halfway t) := by
  obtain ⟨changes, chain', database', hp, hcommit, rfl⟩ := whole_of_ok hc hnext h
  obtain ⟨o, ho, hle⟩ := hs c hc
  have hlatest := hp.chain_height hontop ho (by omega)
  generalize hmid : s.halfway _ = mid
  have hmidc : mid.compressionLatestHeight = some c := hmid ▸ hc
  have honchain : ∀ {changes' chain''}, Prepared mid block changes' chain'' →
      changes = changes' ∧ chain'' = mid.onChainDatabase := by
    intro changes' chain'' hp'
    subst hmid
    refine ⟨Except.ok.inj (hp.apply.symm.trans hp'.apply), ?_⟩
    obtain ⟨height, hheight, -, ⟨-, rfl⟩ | ⟨hlt, -⟩⟩ := hp'.fresh
    · rfl
    · have := Option.some.inj (hheight.symm.trans hlatest)
      omega
  have hcases := importBlockFromDa_cases mid fails block
  generalize mid.importBlockFromDa fails block = outcome at hcases ⊢
  cases hcases with
  | failed err => exact Or.inr ⟨err, rfl⟩
  | known height _ skip =>
    rw [not_known hmidc (by omega)] at skip
    contradiction
  | halfway prepared _ err =>
    obtain ⟨-, rfl⟩ := honchain prepared
    exact Or.inr ⟨err, rfl⟩
  | whole prepared _ commit =>
    obtain ⟨rfl, rfl⟩ := honchain prepared
    subst hmid
    obtain rfl := Except.ok.inj (hcommit.symm.trans commit)
    exact Or.inl rfl
  | chainOnly _ below =>
    simp only [hmidc, Option.getD_some] at below
    omega

/-- A call that resumes a failed one ends where that one could have ended. -/
theorem resumed_outcomes (hontop : core.CommitsOnTop) {c : Nat}
    (hc : s.compressionLatestHeight = some c) (hs : s.Behind) (hnext : block.height = c + 1)
    (h : s.importBlockFromDa Faults.none block = .ok () t) (fails : Faults)
    {r : BlockSyncer core} (hr : r = s ∨ r = s.halfway t) :
    r.importBlockFromDa fails block = .ok () t ∨
      ∃ err w, r.importBlockFromDa fails block = .error err w ∧ (w = s ∨ w = s.halfway t) := by
  rcases hr with rfl | rfl
  · rcases import_outcomes hc hnext h fails with hok | ⟨err, herr | herr⟩
    · exact Or.inl hok
    · exact Or.inr ⟨err, _, herr, Or.inl rfl⟩
    · exact Or.inr ⟨err, _, herr, Or.inr rfl⟩
  · rcases halfway_outcomes hontop hc hs hnext h fails with hok | ⟨err, herr⟩
    · exact Or.inl hok
    · exact Or.inr ⟨err, _, herr, Or.inr rfl⟩

theorem Behind.import_again {c : Nat} (hs : s.Behind) (hc : s.compressionLatestHeight = some c)
    (hle : block.height ≤ c) (fails : Faults) : s.importBlockFromDa fails block = .ok () s := by
  obtain ⟨latest, hlatest, hbelow⟩ := hs c hc
  exact importBlockFromDa_known fails hlatest hc (hle.trans hbelow) hle

theorem Behind.halfway {c : Nat} (ht : t.Behind) (hc : s.compressionLatestHeight = some c)
    (htc : t.compressionLatestHeight = some (c + 1)) : (s.halfway t).Behind := by
  intro height hheight
  obtain ⟨latest, hlatest, hle⟩ := ht (c + 1) htc
  obtain rfl : height = c := Option.some.inj (hheight.symm.trans hc)
  exact ⟨latest, hlatest, by omega⟩

theorem import_next (hontop : core.CommitsOnTop) (habove : core.CommitsAbove) {c o : Nat}
    (hc : s.compressionLatestHeight = some c) (ho : core.onChainHeight s.onChainDatabase = some o)
    (hle : c ≤ o) (hnext : block.height = c + 1) {fails : Faults}
    (h : s.importBlockFromDa fails block = .ok () t) :
    t.compressionLatestHeight = some (c + 1) ∧
      core.onChainHeight t.onChainDatabase = some (max o block.height) := by
  obtain ⟨changes, chain', database', hp, hcommit, rfl⟩ := whole_of_ok hc hnext h
  rw [commitCompression_eq hp.apply, hnext] at hcommit
  exact ⟨(habove hcommit).2, hp.chain_height hontop ho (by omega)⟩

theorem Behind.import_next (hontop : core.CommitsOnTop) (habove : core.CommitsAbove) {c : Nat}
    (hs : s.Behind) (hc : s.compressionLatestHeight = some c) (hnext : block.height = c + 1)
    {fails : Faults} (h : s.importBlockFromDa fails block = .ok () t) :
    t.compressionLatestHeight = some (c + 1) ∧ t.Behind := by
  obtain ⟨o, ho, hle⟩ := hs c hc
  obtain ⟨hnow, hchain⟩ := BlockSyncer.import_next hontop habove hc ho hle hnext h
  refine ⟨hnow, fun height hh => ⟨_, hchain, ?_⟩⟩
  have := Option.some.inj (hh.symm.trans hnow)
  omega

theorem importFrom_next (hontop : core.CommitsOnTop) (habove : core.CommitsAbove)
    {feed : Nat → VersionedCompressedBlock} {c n : Nat}
    (hfeed : ∀ h ≤ c + n, (feed h).height = h) (hc : s.compressionLatestHeight = some c)
    (hs : s.Behind) (h : s.importFrom feed (c + 1) n = .ok () t) :
    t.compressionLatestHeight = some (c + n) ∧ t.Behind := by
  induction n generalizing s c with
  | zero =>
    cases h
    exact ⟨hc, hs⟩
  | succ n ih =>
    unfold importFrom at h
    split at h
    · contradiction
    · rename_i u hu
      obtain ⟨huc, hub⟩ := hs.import_next hontop habove hc (hfeed _ (by omega)) hu
      have hnext := ih (fun k hk => hfeed k (by omega)) huc hub h
      rwa [show c + (n + 1) = c + 1 + n by omega]

end BlockSyncer

/-- The delivery of blocks to the syncer, `next` being the height up next. -/
structure Delivery (core : FuelCore) where
  syncer : BlockSyncer core
  next : Nat

/-- One call: what fails in it, and where the delivery resumes if it fails. -/
structure Attempt where
  fails : Faults
  resume : Nat

namespace Delivery
open BlockSyncer

variable {core : FuelCore}

/-- Delivers the blocks of the feed up to height `last`. A delivery that failed
goes on with any height not above the failed one. -/
def step (feed : Nat → VersionedCompressedBlock) (last : Nat) (d : Delivery core) (a : Attempt) :
    Option (Delivery core) :=
  if last < d.next then none
  else
    match d.syncer.importBlockFromDa a.fails (feed d.next) with
    | .ok () s => some ⟨s, d.next + 1⟩
    | .error _ s => if a.resume ≤ d.next then some ⟨s, a.resume⟩ else none

/-- Where a delivery stands against the run without failures: after some number
of its blocks, or halfway through the next one, which is yet to come. -/
def OnTrack (s : BlockSyncer core) (feed : Nat → VersionedCompressedBlock) (c n : Nat)
    (d : Delivery core) : Prop :=
  ∃ j u, j ≤ n ∧ d.next ≤ c + 1 + j ∧ s.importFrom feed (c + 1) j = .ok () u ∧
    (d.syncer = u ∨ ∃ v, s.importFrom feed (c + 1) (j + 1) = .ok () v ∧ j < n ∧
      d.syncer = u.halfway v)

variable {s t : BlockSyncer core} {feed : Nat → VersionedCompressedBlock} {c n : Nat}
  {d e : Delivery core} {a : Attempt}

theorem step_cases (h : step feed (c + n) d a = some e) :
    d.next ≤ c + n ∧
      (d.syncer.importBlockFromDa a.fails (feed d.next) = .ok () e.syncer ∧ e.next = d.next + 1 ∨
        ∃ err, d.syncer.importBlockFromDa a.fails (feed d.next) = .error err e.syncer ∧
          e.next ≤ d.next) := by
  unfold step at h
  split at h
  · contradiction
  · rename_i hlast
    refine ⟨Nat.le_of_not_lt hlast, ?_⟩
    split at h
    · rename_i after hrun
      obtain rfl := Option.some.inj h
      exact Or.inl ⟨hrun, rfl⟩
    · rename_i err after hrun
      split at h
      · rename_i hresume
        obtain rfl := Option.some.inj h
        exact Or.inr ⟨err, hrun, hresume⟩
      · contradiction

theorem OnTrack.step (hontop : core.CommitsOnTop) (habove : core.CommitsAbove)
    (hfeed : ∀ h ≤ c + n, (feed h).height = h)
    (hc : s.compressionLatestHeight = some c) (hs : s.Behind)
    (hall : s.importFrom feed (c + 1) n = .ok () t) (h : OnTrack s feed c n d)
    (hstep : step feed (c + n) d a = some e) : OnTrack s feed c n e := by
  obtain ⟨hlast, hout⟩ := step_cases hstep
  obtain ⟨j, u, hj, hnext, hu, hcase⟩ := h
  have hheight := hfeed d.next hlast
  have hreach : ∀ {k w}, k ≤ n → s.importFrom feed (c + 1) k = .ok () w →
      w.compressionLatestHeight = some (c + k) ∧ w.Behind :=
    fun hk hw => importFrom_next hontop habove (fun h hle => hfeed h (by omega)) hc hs hw
  obtain ⟨huc, hub⟩ := hreach hj hu
  by_cases hagain : d.next ≤ c + j
  · -- a block delivered again: both heights are at or above it
    have hknown : d.syncer.importBlockFromDa a.fails (feed d.next) = .ok () d.syncer := by
      rcases hcase with hd | ⟨v, hv, hjn, hd⟩
      · rw [hd]
        exact hub.import_again huc (by omega) a.fails
      · obtain ⟨hvc, hvb⟩ := hreach hjn hv
        rw [hd]
        exact (hvb.halfway huc hvc).import_again (c := c + j) huc (by omega) a.fails
    rcases hout with ⟨hrun, he⟩ | ⟨err, hrun, -⟩
    · obtain ⟨-, hsame⟩ := EStateM.Result.ok.inj (hknown.symm.trans hrun)
      exact ⟨j, u, hj, by omega, hu, hsame ▸ hcase⟩
    · rw [hknown] at hrun
      contradiction
  · -- the next block: it goes through as it did without failures, or the delivery stays here
    have hat : d.next = c + 1 + j := by omega
    have hjn : j < n := by omega
    obtain ⟨v, hv, -⟩ := importFrom_split (a := j + 1) (b := n - (j + 1))
      (by rwa [show j + 1 + (n - (j + 1)) = n by omega])
    obtain ⟨u', hu', hone⟩ := importFrom_succ hv
    obtain ⟨-, rfl⟩ := EStateM.Result.ok.inj (hu.symm.trans hu')
    rw [← hat] at hone
    have hstate : d.syncer = u ∨ d.syncer = u.halfway v := by
      rcases hcase with hd | ⟨v', hv', -, hd⟩
      · exact Or.inl hd
      · obtain ⟨-, rfl⟩ := EStateM.Result.ok.inj (hv.symm.trans hv')
        exact Or.inr hd
    have hend := resumed_outcomes hontop huc hub (by omega) hone a.fails hstate
    rcases hout with ⟨hrun, he⟩ | ⟨err, hrun, he⟩
    · rcases hend with h | ⟨err, w, h, -⟩
      · obtain ⟨-, hsame⟩ := EStateM.Result.ok.inj (h.symm.trans hrun)
        exact ⟨j + 1, v, hjn, by omega, hv, Or.inl hsame.symm⟩
      · rw [h] at hrun
        contradiction
    · rcases hend with h | ⟨err', w, h, hw⟩
      · rw [h] at hrun
        contradiction
      · obtain ⟨-, hsame⟩ := EStateM.Result.error.inj (h.symm.trans hrun)
        subst hsame
        exact ⟨j, u, hj, by omega, hu, hw.imp_right (fun hw => ⟨v, hv, hjn, hw⟩)⟩

/-- Whatever fails on the way and wherever the delivery resumes, every state is
one of the run without failures, or halfway between two of them, and once all
blocks are imported the state is the one that run ends in, with the compression
data at the last of them. -/
theorem redelivery_converges (core : FuelCore) (hontop : core.CommitsOnTop)
    (habove : core.CommitsAbove) (s t : BlockSyncer core)
    (feed : Nat → VersionedCompressedBlock) (c n first : Nat)
    (hfeed : ∀ h ≤ c + n, (feed h).height = h) (hc : s.compressionLatestHeight = some c)
    (hs : s.Behind) (hall : s.importFrom feed (c + 1) n = .ok () t) (hfirst : first ≤ c + 1) :
    ∀ d, Run (step feed (c + n)) (fun _ _ => True) ⟨s, first⟩ d →
      (∃ j u, j ≤ n ∧ d.next ≤ c + 1 + j ∧ s.importFrom feed (c + 1) j = .ok () u ∧
        u.compressionLatestHeight = some (c + j) ∧
        (d.syncer = u ∨ ∃ v, s.importFrom feed (c + 1) (j + 1) = .ok () v ∧ j < n ∧
          d.syncer = { u with onChainDatabase := v.onChainDatabase })) ∧
      (d.next = c + n + 1 → d.syncer = t ∧ t.compressionLatestHeight = some (c + n)) := by
  intro d run
  have htrack : OnTrack s feed c n d := by
    apply run.invariant ⟨0, s, Nat.zero_le n, hfirst, rfl, Or.inl rfl⟩
    intro d e a h _ hstep
    exact h.step hontop habove hfeed hc hs hall hstep
  obtain ⟨j, u, hj, hnext, hu, hcase⟩ := htrack
  have hheight : u.compressionLatestHeight = some (c + j) :=
    (importFrom_next hontop habove (fun h hle => hfeed h (by omega)) hc hs hu).1
  refine ⟨⟨j, u, hj, hnext, hu, hheight, hcase⟩, fun hdone => ?_⟩
  obtain rfl : j = n := by omega
  obtain ⟨-, rfl⟩ := EStateM.Result.ok.inj (hu.symm.trans hall)
  rcases hcase with hd | ⟨v, -, hlt, -⟩
  · exact ⟨hd, hheight⟩
  · omega

def bareBlock (height : Nat) : VersionedCompressedBlock := ⟨height, 0, [], []⟩

def failsAt (step : SyncStep) : Faults := fun other => if other = step then some "failed" else none

/-- Heights 2 and 3 are delivered to a syncer that stands at height 1. The
first call fails between its commits, the second is for height 1, which is
known, and the call for height 3 fails in its execution once. -/
theorem redelivery_converges_halfway :
    ∃ d : Delivery plainCore, Run (step bareBlock (1 + 2)) (fun _ _ => True)
        ⟨plainSyncer 2 [1], 2⟩ d ∧
      d.next = 4 ∧ d.syncer = plainSyncer 4 [1, 2, 3] := by
  obtain ⟨d, run, hd⟩ : ∃ d, Run (step bareBlock (1 + 2)) (fun _ _ => True)
      ⟨plainSyncer 2 [1], 2⟩ d ∧ d.next = 4 :=
    Run.exists_of_drive [⟨failsAt .commitCompression, 1⟩, ⟨Faults.none, 0⟩, ⟨Faults.none, 0⟩,
      ⟨failsAt .execution, 3⟩, ⟨Faults.none, 0⟩] (by decide)
  refine ⟨d, run, hd, ((redelivery_converges plainCore plainCore_commitsOnTop
    plainCore_commitsAbove (plainSyncer 2 [1]) _ bareBlock 1 2 2
    (fun _ _ => rfl) rfl ?_ rfl (Nat.le_refl _) d run).2 hd).1⟩
  intro height h
  obtain rfl : 1 = height := Option.some.inj h
  exact ⟨1, rfl, Nat.le_refl _⟩

end Delivery
end Watchtower.Syncer
