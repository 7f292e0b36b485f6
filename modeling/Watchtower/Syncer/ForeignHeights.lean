import Mathlib.Data.List.ReduceOption
import Watchtower.Syncer.CommitLog

namespace Watchtower.Syncer
open Lib

/-- One of the two steps of a commit is made to fail. -/
def Faults.FailsCommit (fails : Faults) : Prop :=
  fails .applyCompression ≠ Option.none ∨ fails .commitCompression ≠ Option.none

theorem Faults.attempt_eq {α : Type} {fails : Faults} {step : SyncStep}
    (h : fails step = Option.none) (outcome : Except Error α) :
    fails.attempt step outcome = outcome := by
  rw [Faults.attempt, h]

theorem Faults.not_failsCommit {fails : Faults} :
    ¬ FailsCommit fails ↔
      fails .applyCompression = Option.none ∧ fails .commitCompression = Option.none := by
  simp [FailsCommit]

namespace BlockSyncer

variable {core : FuelCore} {FullBlock : Type} {around : Surroundings FullBlock}
  {s t : BlockSyncer core} {fails : Faults} {block : VersionedCompressedBlock}
  {latest : Option Nat} {i k : Nat} {received : List (Option VersionedCompressedBlock)}

theorem commitCompression_unfailing (h : s.commitCompression fails block = .ok t) :
    ¬ Faults.FailsCommit fails := by
  unfold commitCompression at h
  rintro (happly | hcommit)
  · obtain ⟨err, herr⟩ := Option.ne_none_iff_exists'.mp happly
    simp [Faults.attempt, herr] at h
  · obtain ⟨err, herr⟩ := Option.ne_none_iff_exists'.mp hcommit
    split at h
    · contradiction
    · simp [Faults.attempt, herr] at h

/-- A block above the latest is committed, unless a step fails. -/
theorem commitCompression_accepts (haccepts : core.AcceptsAbove)
    (hfaults : ¬ Faults.FailsCommit fails)
    (hlatest : ∀ height ∈ s.compressionLatestHeight, height < block.height) :
    ∃ t, s.commitCompression fails block = .ok t := by
  obtain ⟨happlies, hcommits⟩ := Faults.not_failsCommit.mp hfaults
  obtain ⟨registry, hwrite⟩ := haccepts.write s.database block.registrations block.time
  have happly : s.applyCompression block =
      .ok ⟨SortedMap.empty.insert block.height block, registry⟩ := by
    rw [applyCompression, hwrite]
    rfl
  obtain ⟨database', hcommit⟩ := haccepts.commit s.database
    ⟨SortedMap.empty.insert block.height block, registry⟩ block.height hlatest
  refine ⟨{ s with database := database' }, ?_⟩
  unfold commitCompression
  rw [Faults.attempt_eq happlies, happly]
  simp only
  rw [Faults.attempt_eq hcommits, commitCompression_eq happly, hcommit]

/-- The heights of compression data there is when the item at place `k` comes. -/
def knownBefore (latest : Option Nat) (received : List (Option VersionedCompressedBlock))
    (k : Nat) : List Nat :=
  latest.toList ++ (received.take k).reduceOption.map VersionedCompressedBlock.height

/-- The sync ends before or at the item at place `k` of those received, the
first of which is item number `i`: the stop signal comes, nothing is answered
although there is compression data, or the block there is not committed, since
a step fails or its height is not above those known. -/
inductive EndsAt (around : Surroundings FullBlock) (latest : Option Nat) (i : Nat)
    (received : List (Option VersionedCompressedBlock)) (k : Nat) : Prop where
  | stopped (stop : around.stopsAt = some (i + k))
  | absent (item : received[k]? = some none) (known : knownBefore latest received k ≠ [])
  | failed (block : VersionedCompressedBlock) (item : received[k]? = some (some block))
      (fails : Faults.FailsCommit (around.fails (i + k)))
  | refused (block : VersionedCompressedBlock) (item : received[k]? = some (some block))
      (height : Nat) (known : height ∈ knownBefore latest received k)
      (below : block.height ≤ height)

/-- Where the loop stands when it passes an item, the rest ends where the whole does. -/
theorem endsAt_succ_none (rest : List (Option VersionedCompressedBlock)) :
    EndsAt around none i (none :: rest) (k + 1) ↔ EndsAt around none (i + 1) rest k := by
  have hplace : i + 1 + k = i + (k + 1) := by omega
  have hknown : knownBefore none (none :: rest) (k + 1) = knownBefore none rest k := rfl
  constructor <;> intro h <;> cases h with
  | stopped stop => exact .stopped (by simpa only [hplace] using stop)
  | absent item known => exact .absent item (by simpa only [hknown] using known)
  | failed block item fails => exact .failed block item (by simpa only [hplace] using fails)
  | refused block item height known below =>
    exact .refused block item height (by simpa only [hknown] using known) below

theorem mem_knownBefore_succ {height : Nat} (rest : List (Option VersionedCompressedBlock)) :
    height ∈ knownBefore latest (some block :: rest) (k + 1) ↔
      height ∈ latest ∨ height ∈ knownBefore (some block.height) rest k := by
  simp [knownBefore, eq_comm]

theorem endsAt_succ_some (hlatest : ∀ height ∈ latest, height < block.height)
    (rest : List (Option VersionedCompressedBlock)) :
    EndsAt around latest i (some block :: rest) (k + 1) ↔
      EndsAt around (some block.height) (i + 1) rest k := by
  have hplace : i + 1 + k = i + (k + 1) := by omega
  have hhead : block.height ∈ knownBefore (some block.height) rest k := by simp [knownBefore]
  constructor
  · intro h
    cases h with
    | stopped stop => exact .stopped (by simpa only [hplace] using stop)
    | failed other item fails => exact .failed other item (by simpa only [hplace] using fails)
    | absent item known => exact .absent item (List.ne_nil_of_mem hhead)
    | refused other item height known below =>
      rcases (mem_knownBefore_succ rest).mp known with hold | hnew
      · exact .refused other item block.height hhead (below.trans (hlatest height hold).le)
      · exact .refused other item height hnew below
  · intro h
    cases h with
    | stopped stop => exact .stopped (by simpa only [hplace] using stop)
    | failed other item fails => exact .failed other item (by simpa only [hplace] using fails)
    | absent item known =>
      exact .absent item (List.ne_nil_of_mem ((mem_knownBefore_succ rest).mpr (.inr hhead)))
    | refused other item height known below =>
      exact .refused other item height ((mem_knownBefore_succ rest).mpr (.inr known)) below

/-- Where it does not end at a block, the block is committed. -/
theorem endsAt_zero_some (habove : core.CommitsAbove) (haccepts : core.AcceptsAbove)
    (hrunning : around.stopsAt ≠ some i) (rest : List (Option VersionedCompressedBlock)) :
    EndsAt around s.compressionLatestHeight i (some block :: rest) 0 ↔
      ∀ t, s.commitCompression (around.fails i) block ≠ .ok t := by
  constructor
  · intro h t hcommit
    cases h with
    | stopped stop => exact hrunning stop
    | absent item => simp at item
    | failed other item fails =>
      exact commitCompression_unfailing hcommit fails
    | refused other item height known below =>
      obtain rfl : block = other := by simpa using item
      have hknown : height ∈ s.compressionLatestHeight := by simpa [knownBefore] using known
      have := (commitCompression_latest habove hcommit).1 height hknown
      omega
  · intro hnone
    by_contra hgoes
    have hfaults : ¬ Faults.FailsCommit (around.fails i) :=
      fun hfails => hgoes (.failed block rfl hfails)
    have hlatest : ∀ height ∈ s.compressionLatestHeight, height < block.height :=
      fun height hheight => Nat.lt_of_not_le fun hle =>
        hgoes (.refused block rfl height (by simpa [knownBefore] using hheight) hle)
    obtain ⟨t, hcommit⟩ := commitCompression_accepts haccepts hfaults hlatest
    exact hnone t hcommit

/-- Where the sync ends at its next item, it commits nothing more. -/
theorem committed_of_ends (habove : core.CommitsAbove) (haccepts : core.AcceptsAbove)
    (hlatest : s.compressionLatestHeight = latest)
    {item : Option VersionedCompressedBlock} {rest : List (Option VersionedCompressedBlock)}
    (hends : EndsAt around latest i (item :: rest) 0) :
    s.committed around latest i (item :: rest) = [] := by
  by_cases hstop : around.stopsAt = some i
  · simp only [committed, if_pos hstop]
  · cases item with
    | none =>
      have hknown : latest.isSome = true := by
        cases hends with
        | stopped stop => exact absurd stop hstop
        | absent item known =>
          apply Option.isSome_iff_ne_none.mpr
          rintro rfl
          exact known rfl
        | failed block item fails => simp at item
        | refused block item height known below => simp at item
      simp only [committed, if_neg hstop, if_pos hknown]
    | some first =>
      rw [← hlatest, endsAt_zero_some habove haccepts hstop] at hends
      cases hcommit : s.commitCompression (around.fails i) first with
      | error err => simp only [committed, if_neg hstop, hcommit]
      | ok t => exact absurd hcommit (hends t)

/-- Where it does not, it commits the item if that is a block, and goes on from
there to the same end. -/
theorem committed_of_goes (habove : core.CommitsAbove) (haccepts : core.AcceptsAbove)
    (hlatest : s.compressionLatestHeight = latest)
    {item : Option VersionedCompressedBlock} {rest : List (Option VersionedCompressedBlock)}
    (hgoes : ¬ EndsAt around latest i (item :: rest) 0) :
    ∃ t : BlockSyncer core,
      s.committed around latest i (item :: rest) =
        (item.map (Prod.mk i)).toList ++
          t.committed around t.compressionLatestHeight (i + 1) rest ∧
      ∀ k, EndsAt around latest i (item :: rest) (k + 1) ↔
        EndsAt around t.compressionLatestHeight (i + 1) rest k := by
  have hstop : around.stopsAt ≠ some i := fun stop => hgoes (.stopped stop)
  cases item with
  | none =>
    obtain rfl : latest = none := by
      by_contra hknown
      obtain ⟨height, rfl⟩ := Option.ne_none_iff_exists'.mp hknown
      exact hgoes (.absent rfl (by simp [knownBefore]))
    refine ⟨s, ?_, fun k => ?_⟩
    · rw [hlatest]
      simp only [committed, if_neg hstop, Option.isSome_none, Bool.false_eq_true, if_false]
      rfl
    · rw [hlatest, endsAt_succ_none]
  | some first =>
    rw [← hlatest, endsAt_zero_some habove haccepts hstop] at hgoes
    push Not at hgoes
    obtain ⟨t, hcommit⟩ := hgoes
    obtain ⟨hbelow, hnow, -⟩ := commitCompression_latest habove hcommit
    refine ⟨t, ?_, fun k => ?_⟩
    · rw [hnow]
      simp only [committed, if_neg hstop, hcommit]
      rfl
    · rw [hnow, endsAt_succ_some (hlatest ▸ hbelow)]

theorem forall_le_succ_iff {P : Nat → Prop} (h : P 0) :
    (∀ j ≤ k + 1, P j) ↔ ∀ j ≤ k, P (j + 1) := by
  constructor
  · intro hall j hj
    exact hall (j + 1) (by omega)
  · intro hall j hj
    cases j with
    | zero => exact h
    | succ j => exact hall j (by omega)

/-- The blocks committed are those received before the sync ends. -/
theorem mem_committed_iff (habove : core.CommitsAbove) (haccepts : core.AcceptsAbove)
    (hlatest : s.compressionLatestHeight = latest) :
    (i + k, block) ∈ s.committed around latest i received ↔
      received[k]? = some (some block) ∧
        ∀ j ≤ k, ¬ EndsAt around latest i received j := by
  induction received generalizing s latest i k with
  | nil => simp [committed]
  | cons item rest ih =>
    by_cases hends : EndsAt around latest i (item :: rest) 0
    · simp only [committed_of_ends habove haccepts hlatest hends, List.not_mem_nil, false_iff,
        not_and]
      intro _ hgoes
      exact hgoes 0 (Nat.zero_le k) hends
    · obtain ⟨t, hcommitted, hlater⟩ := committed_of_goes habove haccepts hlatest hends
      rw [hcommitted, List.mem_append]
      cases k with
      | zero =>
        have hrest : (i + 0, block) ∉ t.committed around t.compressionLatestHeight (i + 1) rest := by
          intro hm
          obtain ⟨j, hj, -⟩ := mem_committed hm
          omega
        have hhere : ∀ j ≤ 0, ¬ EndsAt around latest i (item :: rest) j := by
          intro j hj
          rwa [Nat.le_zero.mp hj]
        rw [or_iff_left hrest, and_iff_left hhere]
        cases item <;> simp [eq_comm]
      | succ k =>
        have hhead : (i + (k + 1), block) ∉ (item.map (Prod.mk i)).toList := by
          cases item <;> simp
        have hplace : i + (k + 1) = i + 1 + k := by omega
        rw [or_iff_right hhead, hplace, ih rfl, List.getElem?_cons_succ, forall_le_succ_iff hends]
        simp only [hlater]

/-- Each block committed has the height requested at its place, hence one of
the range, and compression does not get ahead of the chain. -/
structure CommitsRequested (around : Surroundings FullBlock) (s : BlockSyncer core)
    (target : Nat) : Prop where
  requested : ∀ entry ∈ s.compressionCommitted around target,
    entry.2.height = s.startCompressionHeight target + entry.1
  within : ∀ entry ∈ s.compressionCommitted around target,
    s.startCompressionHeight target ≤ entry.2.height ∧ entry.2.height < target
  behind : (finalState (s.syncCompressionFromGraphql around)).Behind

/-- A block that claims another height than the one requested is committed,
unless the sync ends before it. -/
theorem commits_requested_iff (core : FuelCore) (habove : core.CommitsAbove)
    (haccepts : core.AcceptsAbove) (FullBlock : Type) (around : Surroundings FullBlock)
    (s : BlockSyncer core) (target : Nat) (htarget : s.onChainLatestHeight = .ok target)
    (hmax : target ≤ u32Max) :
    CommitsRequested around s target ↔
      s.Behind ∧ (s.compressionConfig ≤ u32Max → ∀ (k : Nat) block,
        (s.compressionReceived around target)[k]? = some (some block) →
        block.height ≠ s.startCompressionHeight target + k →
        ∃ j ≤ k, EndsAt around s.compressionLatestHeight 0
          (s.compressionReceived around target) j) := by
  have hchain := onChainLatestHeight_ok.mp htarget
  obtain ⟨hsame, hlast, hgrows⟩ := (syncCompression_replays htarget).heights habove
  have hcommitted : ∀ {k block}, (k, block) ∈ s.compressionCommitted around target ↔
      s.compressionConfig ≤ u32Max ∧
        (s.compressionReceived around target)[k]? = some (some block) ∧
        ∀ j ≤ k, ¬ EndsAt around s.compressionLatestHeight 0
          (s.compressionReceived around target) j := by
    intro k block
    rw [mem_compressionCommitted, ← mem_committed_iff habove haccepts rfl, Nat.zero_add]
  constructor
  · intro h
    refine ⟨?_, ?_⟩
    · intro height hheight
      obtain ⟨later, hl, hle⟩ := hgrows height hheight
      obtain ⟨latest, hlatest, hle'⟩ := h.behind later hl
      exact ⟨latest, hsame ▸ hlatest, hle.trans hle'⟩
    · intro hretention k block hk hforeign
      by_contra hgoes
      exact hforeign (h.requested _ (hcommitted.mpr ⟨hretention, hk, by simpa using hgoes⟩))
  · rintro ⟨hbehind, hforeign⟩
    have hrequested : ∀ entry ∈ s.compressionCommitted around target,
        entry.2.height = s.startCompressionHeight target + entry.1 := by
      intro entry hentry
      obtain ⟨hretention, hk, hgoes⟩ := hcommitted.mp hentry
      by_contra hne
      obtain ⟨j, hj, hends⟩ := hforeign hretention entry.1 entry.2 hk hne
      exact hgoes j hj hends
    have hwithin : ∀ entry ∈ s.compressionCommitted around target,
        s.startCompressionHeight target ≤ entry.2.height ∧ entry.2.height < target := by
      intro entry hentry
      have hlt := (received_answers hmax (hcommitted.mp hentry).2.1).1
      have := hrequested entry hentry
      omega
    refine ⟨hrequested, hwithin, ?_⟩
    intro height hheight
    rcases hlast height hheight with hold | ⟨entry, hm, rfl⟩
    · obtain ⟨latest, hlatest, hle⟩ := hbehind height hold
      exact ⟨latest, hsame ▸ hlatest, hle⟩
    · exact ⟨target, hsame ▸ hchain, (hwithin entry hm).2.le⟩

/-- Asked for height 1 and for height 2, the sentry answers with the blocks of
heights 7 and 8. Both are committed, on a chain that ends at height 3. -/
theorem foreign_heights_committed :
    (plainSyncer 4 []).onChainLatestHeight = .ok 3 ∧
    (plainSyncer 4 []).Behind ∧
    ((plainSyncer 4 []).compressionCommitted
      (untroubled (plainSentry (fun height => some (height + 6)))) 3).map
        (fun entry => (entry.1, entry.2.height)) = [(0, 7), (1, 8)] ∧
    ¬ CommitsRequested (untroubled (plainSentry (fun height => some (height + 6))))
      (plainSyncer 4 []) 3 := by
  refine ⟨rfl, fun height h => by contradiction, by decide, ?_⟩
  intro h
  obtain ⟨latest, hlatest, hle⟩ := h.behind 8 (by rfl)
  obtain rfl : 3 = latest := Option.some.inj hlatest
  omega

theorem plainCore_acceptsAbove : plainCore.AcceptsAbove where
  write _ _ _ := ⟨(), rfl⟩
  commit database _ height h := ⟨List.append database [height], if_pos h⟩

/-- After the block of height 3 the sentry answers with it once more, which is refused. -/
theorem commits_requested_of_refused :
    CommitsRequested (untroubled (plainSentry (fun _ => some 3))) (plainSyncer 6 [2]) 5 := by
  apply (commits_requested_iff plainCore plainCore_commitsAbove plainCore_acceptsAbove Unit
    (untroubled (plainSentry (fun _ => some 3))) (plainSyncer 6 [2]) 5 rfl (by decide)).mpr
  have hreceived : (plainSyncer 6 [2]).compressionReceived
      (untroubled (plainSentry (fun _ => some 3))) 5 =
        [some ⟨3, 0, [], []⟩, some ⟨3, 0, [], []⟩] := by decide
  refine ⟨?_, ?_⟩
  · intro height h
    obtain rfl : 2 = height := Option.some.inj h
    exact ⟨5, rfl, by omega⟩
  · intro _ k block hk hforeign
    rw [hreceived] at hk ⊢
    match k with
    | 0 =>
      obtain rfl : _ = block := Option.some.inj (Option.some.inj hk)
      exact absurd (by decide) hforeign
    | 1 => exact ⟨1, Nat.le_refl 1, .refused _ rfl 3 (by decide) (by decide)⟩
    | k + 2 => simp at hk

end BlockSyncer
end Watchtower.Syncer
