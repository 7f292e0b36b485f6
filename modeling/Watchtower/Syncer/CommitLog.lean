import Watchtower.Syncer.Heights
import Watchtower.Syncer.Ranges

namespace Watchtower.Syncer
open Lib

namespace BlockSyncer

variable {core : FuelCore} {FullBlock : Type}

/-- What the loop of `sync_compression_from_graphql` receives. -/
def compressionReceived (around : Surroundings FullBlock) (s : BlockSyncer core)
    (targetCompressionHeight : Nat) : List (Option VersionedCompressedBlock) :=
  delivered ((fetchRanges (s.startCompressionHeight targetCompressionHeight)
    targetCompressionHeight).mapIdx
      (fun k range => (around.sentryAt k).compressedBlocksFor range))

/-- The blocks that the loop commits, each with its place among those
received. The loop is followed to its end. -/
def committed (around : Surroundings FullBlock) (s : BlockSyncer core)
    (latestCompressionHeight : Option Nat) (i : Nat) :
    List (Option VersionedCompressedBlock) → List (Nat × VersionedCompressedBlock)
  | [] => []
  | received :: rest =>
    if around.stopsAt = some i then []
    else
      match received with
      | none =>
        if latestCompressionHeight.isSome then []
        else committed around s latestCompressionHeight (i + 1) rest
      | some block =>
        match s.commitCompression (around.fails i) block with
        | .error _ => []
        | .ok s => (i, block) :: committed around s (some block.height) (i + 1) rest

/-- What a call of `sync_compression_from_graphql` commits: nothing if the
retention does not fit a u32. -/
def compressionCommitted (around : Surroundings FullBlock) (s : BlockSyncer core)
    (targetCompressionHeight : Nat) : List (Nat × VersionedCompressedBlock) :=
  if u32Max < s.compressionConfig then []
  else
    s.committed around s.compressionLatestHeight 0
      (s.compressionReceived around targetCompressionHeight)

/-- The commits of a list, one after the other, lead from one state to the other. -/
inductive Replays (around : Surroundings FullBlock) :
    BlockSyncer core → List (Nat × VersionedCompressedBlock) → BlockSyncer core → Prop where
  | nothing (s : BlockSyncer core) : Replays around s [] s
  | commit {s t u : BlockSyncer core} {i : Nat} {block : VersionedCompressedBlock}
      {log : List (Nat × VersionedCompressedBlock)}
      (first : s.commitCompression (around.fails i) block = .ok t) (rest : Replays around t log u) :
      Replays around s ((i, block) :: log) u

variable {around : Surroundings FullBlock} {s t : BlockSyncer core} {latest : Option Nat} {i : Nat}
  {received : List (Option VersionedCompressedBlock)} {target : Nat}

theorem committed_replays (around : Surroundings FullBlock) (s : BlockSyncer core)
    (latest : Option Nat) (i : Nat) (received : List (Option VersionedCompressedBlock)) :
    Replays around s (s.committed around latest i received)
      (finalState (s.commitReceived around latest i received)) := by
  induction received generalizing s latest i with
  | nil =>
    unfold commitReceived committed
    split <;> exact .nothing s
  | cons item rest ih =>
    unfold commitReceived committed
    split
    · exact .nothing s
    · cases item with
      | none =>
        simp only
        split
        · exact .nothing s
        · exact ih s latest (i + 1)
      | some block =>
        cases hcommit : s.commitCompression (around.fails i) block with
        | error err =>
          simp only [hcommit]
          exact .nothing s
        | ok t =>
          simp only [hcommit]
          exact .commit hcommit (ih t _ _)

theorem commitCompression_latest {fails : Faults} {block : VersionedCompressedBlock}
    (habove : core.CommitsAbove)
    (h : s.commitCompression fails block = .ok t) :
    (∀ height ∈ s.compressionLatestHeight, height < block.height) ∧
      t.compressionLatestHeight = some block.height ∧ t.onChainDatabase = s.onChainDatabase := by
  obtain ⟨changes, database', hcommit, rfl⟩ := commitCompression_ok h
  obtain ⟨hlatest, hnow⟩ := habove hcommit
  exact ⟨hlatest, hnow, rfl⟩

/-- A commit leaves the chain alone, and its height is the latest until the next. -/
theorem Replays.heights (habove : core.CommitsAbove)
    {log : List (Nat × VersionedCompressedBlock)} (h : Replays around s log t) :
    t.onChainDatabase = s.onChainDatabase ∧
      (∀ height ∈ t.compressionLatestHeight, height ∈ s.compressionLatestHeight ∨
        ∃ entry ∈ log, entry.2.height = height) ∧
      ∀ height ∈ s.compressionLatestHeight, ∃ later ∈ t.compressionLatestHeight,
        height ≤ later := by
  induction h with
  | nothing s => exact ⟨rfl, fun height hh => .inl hh, fun height hh => ⟨height, hh, Nat.le_refl _⟩⟩
  | @commit s mid t i block log hfirst _ ih =>
    obtain ⟨hbelow, hnow, hsame⟩ := commitCompression_latest habove hfirst
    obtain ⟨hchain, hlast, hgrows⟩ := ih
    refine ⟨hchain.trans hsame, ?_, ?_⟩
    · intro height hh
      rcases hlast height hh with hmid | ⟨entry, hm, he⟩
      · exact .inr ⟨(i, block), List.mem_cons_self, Option.some.inj (hnow.symm.trans hmid)⟩
      · exact .inr ⟨entry, List.mem_cons_of_mem _ hm, he⟩
    · intro height hh
      obtain ⟨later, hl, hle⟩ := hgrows block.height hnow
      exact ⟨later, hl, (hbelow height hh).le.trans hle⟩

/-- The log is what the call does to the syncer, and all of it. -/
theorem syncCompression_replays (htarget : s.onChainLatestHeight = .ok target) :
    Replays around s (s.compressionCommitted around target)
      (finalState (s.syncCompressionFromGraphql around)) := by
  unfold syncCompressionFromGraphql compressionCommitted
  simp only [htarget]
  split
  · exact .nothing s
  · exact committed_replays around s _ 0 _

theorem mem_compressionCommitted {entry : Nat × VersionedCompressedBlock} :
    entry ∈ s.compressionCommitted around target ↔ s.compressionConfig ≤ u32Max ∧
      entry ∈ s.committed around s.compressionLatestHeight 0
        (s.compressionReceived around target) := by
  unfold compressionCommitted
  split
  · rename_i hover
    simp [hover]
  · rename_i hfits
    simp [Nat.le_of_not_lt hfits]

/-- The answers received are those to the requests for the heights from the
lowest one on, in order. -/
theorem received_answers (hmax : target ≤ u32Max) {k : Nat}
    {item : Option VersionedCompressedBlock}
    (h : (s.compressionReceived around target)[k]? = some item) :
    s.startCompressionHeight target + k < target ∧
      ∃ chunk, (around.sentryAt chunk).Answers (s.startCompressionHeight target + k) item := by
  have hresults : List.Forall₂ (fun range result => ∀ items, result = .ok items →
      List.Forall₂ (fun height item => ∃ chunk, (around.sentryAt chunk).Answers height item)
        range.heights items)
      (fetchRanges (s.startCompressionHeight target) target)
      ((fetchRanges (s.startCompressionHeight target) target).mapIdx
        (fun k range => (around.sentryAt k).compressedBlocksFor range)) := by
    apply forall₂_mapIdx
    intro k hk items hitems
    exact (FuelClient.compressedBlocksFor_answers hitems).imp (fun _ _ ha => ⟨k, ha⟩)
  obtain ⟨left, hpairs, hlen⟩ := delivered_forall₂ hresults
  rw [fetchRanges_heights hmax] at hpairs hlen
  rw [List.length_range'] at hlen
  obtain ⟨hk, hitem⟩ := List.getElem?_eq_some_iff.mp h
  unfold compressionReceived at hk
  have hpair := hpairs.get (by rw [List.length_take, List.length_range']; omega) hk
  simp only [List.get_eq_getElem, List.getElem_take, List.getElem_range', Nat.one_mul] at hpair
  refine ⟨by omega, ?_⟩
  rw [← hitem]
  exact hpair

theorem mem_committed {k : Nat} {block : VersionedCompressedBlock}
    (h : (k, block) ∈ s.committed around latest i received) :
    ∃ j, k = i + j ∧ received[j]? = some (some block) := by
  induction received generalizing s latest i with
  | nil => simp [committed] at h
  | cons item rest ih =>
    unfold committed at h
    split at h
    · simp at h
    · cases item with
      | none =>
        simp only at h
        split at h
        · simp at h
        · obtain ⟨j, hj, hr⟩ := ih h
          exact ⟨j + 1, by omega, hr⟩
      | some first =>
        simp only at h
        split at h
        · simp at h
        · rcases List.mem_cons.mp h with h | h
          · obtain ⟨rfl, rfl⟩ := Prod.mk.inj h
            exact ⟨0, rfl, rfl⟩
          · obtain ⟨j, hj, hr⟩ := ih h
            exact ⟨j + 1, by omega, hr⟩

/-- Once there is compression data the places committed are the next ones. -/
theorem committed_places_of_some (around : Surroundings FullBlock) (s : BlockSyncer core)
    (height i : Nat) (received : List (Option VersionedCompressedBlock)) :
    ∃ n, (s.committed around (some height) i received).map Prod.fst = List.range' i n := by
  induction received generalizing s height i with
  | nil => exact ⟨0, rfl⟩
  | cons item rest ih =>
    unfold committed
    split
    · exact ⟨0, rfl⟩
    · cases item with
      | none => exact ⟨0, rfl⟩
      | some block =>
        simp only
        split
        · exact ⟨0, rfl⟩
        · rename_i t hcommit
          obtain ⟨n, hn⟩ := ih t block.height (i + 1)
          exact ⟨n + 1, by rw [List.map_cons, hn, List.range'_succ]⟩

/-- Before that, answers of nothing are passed over. -/
theorem committed_places_of_none (around : Surroundings FullBlock) (s : BlockSyncer core)
    (i : Nat) (received : List (Option VersionedCompressedBlock)) :
    ∃ k n, (s.committed around none i received).map Prod.fst = List.range' (i + k) n ∧
      ∀ j < k, received[j]? = some none := by
  induction received generalizing i with
  | nil => exact ⟨0, 0, rfl, by simp⟩
  | cons item rest ih =>
    unfold committed
    split
    · exact ⟨0, 0, rfl, by simp⟩
    · cases item with
      | none =>
        obtain ⟨k, n, hplaces, hnone⟩ := ih (i + 1)
        refine ⟨k + 1, n, ?_, ?_⟩
        · rw [← Nat.add_assoc, Nat.add_right_comm]
          exact hplaces
        · intro j hj
          cases j with
          | zero => rfl
          | succ j => exact hnone j (by omega)
      | some block =>
        simp only
        split
        · exact ⟨0, 0, rfl, by simp⟩
        · rename_i t hcommit
          obtain ⟨n, hn⟩ := committed_places_of_some around t block.height (i + 1) rest
          refine ⟨0, n + 1, ?_, by simp⟩
          rw [List.map_cons, hn]
          exact List.range'_succ.symm

/-- The places committed are next to each other, the first of them the first
place, or the first with an answer when there was no compression data. -/
theorem committed_places (around : Surroundings FullBlock) (s : BlockSyncer core)
    (latest : Option Nat) (received : List (Option VersionedCompressedBlock)) :
    ∃ k n, (s.committed around latest 0 received).map Prod.fst = List.range' k n ∧
      (latest.isSome = true → k = 0) ∧ ∀ j < k, received[j]? = some none := by
  cases latest with
  | some height =>
    obtain ⟨n, hplaces⟩ := committed_places_of_some around s height 0 received
    exact ⟨0, n, hplaces, fun _ => rfl, by simp⟩
  | none =>
    obtain ⟨k, n, hplaces, hnone⟩ := committed_places_of_none around s 0 received
    rw [Nat.zero_add] at hplaces
    exact ⟨k, n, hplaces, by simp, hnone⟩

/-- What was committed at a place is what was received there. -/
theorem received_of_place {k : Nat}
    (h : k ∈ (s.committed around latest 0 received).map Prod.fst) :
    ∃ block, (k, block) ∈ s.committed around latest 0 received ∧
      received[k]? = some (some block) := by
  obtain ⟨⟨_, block⟩, hm, rfl⟩ := List.mem_map.mp h
  obtain ⟨j, hj, hr⟩ := mem_committed hm
  rw [Nat.zero_add] at hj
  exact ⟨block, hm, hj ▸ hr⟩

/-- The lowest height that is asked for, where the addition does not saturate. -/
def lowestHeight (s : BlockSyncer core) (target : Nat) : Nat :=
  max (target - s.compressionConfig) (s.compressionLatestHeight.getD 0 + 1)

theorem startCompressionHeight_eq (hmax : target ≤ u32Max)
    (hsome : s.startCompressionHeight target < target) :
    s.startCompressionHeight target = s.lowestHeight target := by
  simp only [startCompressionHeight, lowestHeight, saturatingAdd] at hsome ⊢
  omega

theorem received_lowest (hmax : target ≤ u32Max) {k : Nat}
    {item : Option VersionedCompressedBlock}
    (h : (s.compressionReceived around target)[k]? = some item) :
    s.lowestHeight target + k < target ∧
      ∃ chunk, (around.sentryAt chunk).Answers (s.lowestHeight target + k) item := by
  obtain ⟨hlt, hanswer⟩ := received_answers hmax h
  have hlowest := startCompressionHeight_eq (s := s) hmax (by omega)
  rw [hlowest] at hlt hanswer
  exact ⟨hlt, hanswer⟩

/-- What the heights committed from `a` on, `n` of them, have to do with the
answers. The answer at place `k` is the one for height `lowestHeight + k`. -/
structure LeavesNoHole (around : Surroundings FullBlock) (s : BlockSyncer core) (target a n : Nat) :
    Prop where
  heights : (s.compressionCommitted around target).map (fun entry => entry.2.height) =
    List.range' a n
  answers : ∀ (k : Nat) item, (s.compressionReceived around target)[k]? = some item →
    ∃ chunk, (around.sentryAt chunk).Answers (s.lowestHeight target + k) item
  within : 0 < n → s.lowestHeight target ≤ a ∧ a + n ≤ target
  next : s.compressionLatestHeight.isSome = true → 0 < n → a = s.lowestHeight target
  firstPresent : s.compressionLatestHeight = none → 0 < n →
    (∃ block, (s.compressionReceived around target)[a - s.lowestHeight target]? =
      some (some block)) ∧
    ∀ k, s.lowestHeight target + k < a →
      (s.compressionReceived around target)[k]? = some none
  stops : ∀ (present absent : Nat) block, present < absent →
    (s.compressionReceived around target)[present]? = some (some block) →
    (s.compressionReceived around target)[absent]? = some none →
    ∀ entry ∈ s.compressionCommitted around target,
      entry.2.height < s.lowestHeight target + absent

theorem committed_height (hmax : target ≤ u32Max)
    (hhonest : ∀ chunk, (around.sentryAt chunk).AnswersHeight)
    {entry : Nat × VersionedCompressedBlock}
    (h : entry ∈ s.compressionCommitted around target) :
    entry.2.height = s.lowestHeight target + entry.1 ∧
      s.lowestHeight target + entry.1 < target := by
  obtain ⟨k, hk, hr⟩ := mem_committed (mem_compressionCommitted.mp h).2
  rw [Nat.zero_add] at hk
  obtain ⟨hlt, chunk, hanswer⟩ := received_lowest hmax hr
  rw [hk]
  exact ⟨FuelClient.AnswersHeight.height_eq (hhonest chunk) hanswer, hlt⟩

/-- No matter which answers are there and which fetch or commit fails, the
heights committed are next to each other, from the lowest one on, or from the
first one answered when there was no compression data. -/
theorem compression_sync_leaves_no_hole (s : BlockSyncer core) (around : Surroundings FullBlock)
    (target : Nat) (htarget : s.onChainLatestHeight = .ok target) (hmax : target ≤ u32Max)
    (hretention : s.compressionConfig ≤ u32Max)
    (hhonest : ∀ chunk, (around.sentryAt chunk).AnswersHeight) :
    Replays around s (s.compressionCommitted around target)
      (finalState (s.syncCompressionFromGraphql around)) ∧
    ∃ a n, LeavesNoHole around s target a n := by
  refine ⟨syncCompression_replays htarget, ?_⟩
  have hcommitted : s.compressionCommitted around target =
      s.committed around s.compressionLatestHeight 0 (s.compressionReceived around target) :=
    if_neg (Nat.not_lt.mpr hretention)
  obtain ⟨k, n, hplaces, hfirst, hskipped⟩ := committed_places around s
    s.compressionLatestHeight (s.compressionReceived around target)
  have hmem : ∀ place, place ∈ (s.compressionCommitted around target).map Prod.fst ↔
      k ≤ place ∧ place < k + n := by
    intro place
    rw [hcommitted, hplaces, List.mem_range'_1]
  refine ⟨s.lowestHeight target + k, n, ?_, ?_, ?_, ?_, ?_, ?_⟩
  · rw [← List.map_add_range', ← hplaces, List.map_map, ← hcommitted]
    apply List.map_congr_left
    intro entry hentry
    exact (committed_height hmax hhonest hentry).1
  · intro place item hitem
    exact (received_lowest hmax hitem).2
  · intro hn
    obtain ⟨entry, hm, hplace⟩ := List.mem_map.mp ((hmem (k + n - 1)).mpr (by omega))
    have := (committed_height hmax hhonest hm).2
    omega
  · intro hsome _
    rw [hfirst hsome, Nat.add_zero]
  · intro _ hn
    obtain ⟨block, -, hr⟩ := received_of_place (hcommitted ▸ (hmem k).mpr (by omega))
    refine ⟨⟨block, ?_⟩, fun j hj => hskipped j (by omega)⟩
    rw [Nat.add_sub_cancel_left]
    exact hr
  · intro present absent block hlt hpresent habsent entry hentry
    have hheight := (committed_height hmax hhonest hentry).1
    have hplace := (hmem entry.1).mp (List.mem_map_of_mem hentry)
    -- were it at `absent` or later, `absent` would be a place committed itself
    apply Nat.lt_of_not_le
    intro hle
    have hk : ¬ present < k := fun hp => by simp [hskipped present hp] at hpresent
    obtain ⟨other, -, hr⟩ := received_of_place (hcommitted ▸ (hmem absent).mpr (by omega))
    simp [habsent] at hr

/-- A sentry asked for compressed blocks only, with the height that the block
answered for each height claims. -/
def plainSentry (claims : Nat → Option Nat) : FuelClient Unit where
  chainInfo := .ok ⟨0, 0⟩
  fullBlocks _ := .error "no such block"
  daCompressedBlock height := .ok ((claims height).map (fun claimed => List.replicate claimed 0))
  ofFullBlock _ _ := .error "no such block"
  fromBytes bytes := .ok ⟨bytes.length, 0, [], []⟩

theorem plainSentry_answersHeight {claims : Nat → Option Nat}
    (h : ∀ height claimed, claims height = some claimed → claimed = height) :
    (plainSentry claims).AnswersHeight := by
  intro height bytes block hask hread
  obtain ⟨claimed, hclaims, rfl⟩ := Option.map_eq_some_iff.mp (Except.ok.inj hask)
  obtain rfl := Except.ok.inj hread
  rw [List.length_replicate, h height claimed hclaims]

/-- Nothing fails, and the same sentry answers all along. -/
def untroubled (sentry : FuelClient FullBlock) : Surroundings FullBlock where
  sentry := sentry
  sentryAt _ := sentry
  awaitAtLeastSynced _ := .ok ()
  fails _ := Faults.none
  stopsAt := none

/-- Heights 1 to 4 are asked for, of which only 2 and 3 are answered. -/
theorem compression_sync_leaves_no_hole_of_two :
    ∃ a n, List.range' a n = [2, 3] ∧ LeavesNoHole
      (untroubled (plainSentry (fun height => if height = 2 ∨ height = 3 then some height else none)))
      (plainSyncer 6 []) 5 a n := by
  obtain ⟨-, a, n, h⟩ := compression_sync_leaves_no_hole (plainSyncer 6 [])
    (untroubled (plainSentry (fun height => if height = 2 ∨ height = 3 then some height else none)))
    5 rfl (by decide) (by decide)
    (fun _ => plainSentry_answersHeight (fun height claimed hc => by
      split at hc
      · exact (Option.some.inj hc).symm
      · contradiction))
  refine ⟨a, n, ?_, h⟩
  rw [← h.heights]
  decide

end BlockSyncer
end Watchtower.Syncer
