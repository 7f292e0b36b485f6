import Watchtower.Syncer.CommitLog
import Watchtower.Syncer.FetchPaths

namespace Watchtower.Syncer
open Lib

/-- The sentry has every block up to `tip`, full and compressed, and answers
requests with the blocks asked for. -/
structure FuelClient.Serves {FullBlock : Type} (client : FuelClient FullBlock) (tip : Nat) :
    Prop where
  info : ∃ info, client.chainInfo = .ok info
  blocks : ∀ chainId cursor count, cursor + count ≤ tip →
    ∃ results blocks,
      client.fullBlocks ⟨some (toString cursor), count, .forward⟩ = .ok results ∧
      results.mapM (client.ofFullBlock chainId) = .ok blocks ∧
      blocks.map (fun block => block.entity.height) = List.range' (cursor + 1) count
  compressed : ∀ height, ∃ item, client.Answers height item ∧ (height ≤ tip → item.isSome = true)
  labelled : client.AnswersHeight

namespace BlockSyncer

variable {core : FuelCore} {FullBlock : Type} {around later : Surroundings FullBlock}
  {s t : BlockSyncer core} {tip : Nat}

/-- Nothing but the sentry decides how a call ends. -/
structure Surroundings.Calm (around : Surroundings FullBlock) : Prop where
  relayer : ∀ daHeight, around.awaitAtLeastSynced daHeight = .ok ()
  faultless : ∀ i, around.fails i = Faults.none
  unstopped : around.stopsAt = none

theorem blocksFor_serves {client : FuelClient FullBlock} (h : client.Serves tip)
    {range : HeightRange} (hstart : 0 < range.start) (hstop : range.stop ≤ tip + 1)
    (hlen : range.len ≤ 40) :
    ∃ blocks, client.blocksFor range = .ok blocks ∧
      blocks.map (fun block => block.entity.height) = range.heights := by
  obtain ⟨info, hinfo⟩ := h.info
  by_cases hempty : range.isEmpty = true
  · refine ⟨[], ?_, ?_⟩
    · simp only [FuelClient.blocksFor, hinfo, if_pos hempty]
    · simp only [HeightRange.isEmpty, decide_eq_true_eq] at hempty
      simp only [HeightRange.heights, HeightRange.len, List.map_nil]
      rw [Nat.sub_eq_zero_of_le hempty]
      rfl
  · have hnonempty : range.start < range.stop := by
      simpa [HeightRange.isEmpty] using hempty
    have hsmall : ¬ 2 ^ 31 ≤ range.len := by omega
    obtain ⟨results, blocks, hresults, hread, hheights⟩ :=
      h.blocks info.chainId (range.start - 1) range.len (by
        simp only [HeightRange.len]
        omega)
    refine ⟨blocks, ?_, ?_⟩
    · simp only [FuelClient.blocksFor, hinfo, if_neg hempty, if_neg hsmall, hresults]
      exact hread
    · rw [hheights, Nat.sub_add_cancel hstart]
      rfl

/-- Chunks that all succeed deliver the heights of their ranges. -/
theorem delivered_heights {α : Type} {height : α → Nat} {ranges : List HeightRange}
    {results : List (Except Error (List α))}
    (h : List.Forall₂ (fun range result => ∃ items, result = .ok items ∧
      items.map height = range.heights) ranges results) :
    (delivered results).map height = ranges.flatMap HeightRange.heights := by
  induction h with
  | nil => rfl
  | cons hfirst _ ih =>
    obtain ⟨items, rfl, hitems⟩ := hfirst
    rw [delivered, List.map_append, hitems, ih, List.flatMap_cons]

/-- Blocks that continue the chain are all executed. -/
theorem executeReceived_onTop (hontop : core.CommitsOnTop) (haccepts : core.AcceptsOnTop)
    (hcalm : around.Calm) {o n : Nat} (ho : core.onChainHeight s.onChainDatabase = some o)
    {blocks : List SealedBlock} (i : Nat)
    (hblocks : blocks.map (fun block => block.entity.height) = List.range' (o + 1) n) :
    ∃ chain', s.executeReceived around i blocks = .ok () { s with onChainDatabase := chain' } ∧
      core.onChainHeight chain' = some (o + n) := by
  have hstop : around.stopsAt ≠ some i := by simp [hcalm.unstopped]
  induction blocks generalizing s o n i with
  | nil =>
    have hn : 0 = n := by simpa using congrArg List.length hblocks
    exact ⟨s.onChainDatabase, by simp only [executeReceived, if_neg hstop], by simpa [← hn] using ho⟩
  | cons block rest ih =>
    cases n with
    | zero => simp at hblocks
    | succ n =>
      obtain ⟨hheight, hrest⟩ := List.cons.inj hblocks
      obtain ⟨chain', hcommit⟩ := haccepts s.onChainDatabase block o ho hheight
      obtain ⟨below, hbelow, -, hnow⟩ := hontop.executeAndCommit hcommit
      obtain rfl := Option.some.inj (ho.symm.trans hbelow)
      obtain ⟨last, hrun, hlast⟩ :=
        ih (s := { s with onChainDatabase := chain' }) hnow (i + 1) hrest
          (by simp [hcalm.unstopped])
      refine ⟨last, ?_, ?_⟩
      · simp only [executeReceived, if_neg hstop, hcalm.relayer, hcalm.faultless,
          Faults.attempt_none, hcommit]
        exact hrun
      · rw [hlast]
        congr 1
        omega

/-- The sync goes up to the block below the remote's latest, and no further. -/
theorem syncAsMuchAsPossible_stops_below (hontop : core.CommitsOnTop)
    (haccepts : core.AcceptsOnTop) (hcalm : around.Calm)
    (hserves : ∀ k, (around.sentryAt k).Serves tip) {o : Nat}
    (ho : s.onChainLatestHeight = .ok o) (hmax : o ≤ u32Max) (htipmax : tip ≤ u32Max)
    (htip : around.sentry.lastHeight = .ok tip) :
    ∃ chain', s.syncAsMuchAsPossibleFromGraphql around =
        .ok () { s with onChainDatabase := chain' } ∧
      core.onChainHeight chain' = some (max o (tip - 1)) := by
  have hchain := onChainLatestHeight_ok.mp ho
  have hresults : List.Forall₂ (fun range result => ∃ items, result = .ok items ∧
      items.map (fun block : SealedBlock => block.entity.height) = range.heights)
      (fetchRanges (saturatingAdd o 1) tip)
      ((fetchRanges (saturatingAdd o 1) tip).mapIdx
        (fun k range => (around.sentryAt k).blocksFor range)) := by
    apply forall₂_mapIdx
    intro k hk
    have hrange := List.getElem_mem hk
    have hbounds := fetchRanges_bounds htipmax hrange
    have hpos : 0 < saturatingAdd o 1 := by
      simp only [saturatingAdd, u32Max]
      omega
    exact blocksFor_serves (hserves k) (by omega) (by omega) (fetchRanges_len htipmax hrange).2.1
  have hheights := delivered_heights hresults
  rw [fetchRanges_heights htipmax] at hheights
  have hrange : List.range' (saturatingAdd o 1) (tip - saturatingAdd o 1) =
      List.range' (o + 1) (tip - (o + 1)) := by
    by_cases hlast : o = u32Max
    · rw [Nat.sub_eq_zero_of_le, Nat.sub_eq_zero_of_le]
      · rfl
      · omega
      · simp only [saturatingAdd]
        omega
    · have hsucc : saturatingAdd o 1 = o + 1 := by
        simp only [saturatingAdd]
        omega
      rw [hsucc]
  obtain ⟨chain', hrun, hlast⟩ :=
    executeReceived_onTop hontop haccepts hcalm hchain 0 (hheights.trans hrange)
  refine ⟨chain', ?_, ?_⟩
  · simp only [syncAsMuchAsPossibleFromGraphql, ho, htip]
    exact hrun
  · rw [hlast]
    congr 1
    omega

/-- With nothing left to ask for, the sync of compression data returns at once. -/
theorem syncCompression_idle (hcalm : around.Calm) {target : Nat}
    (htarget : s.onChainLatestHeight = .ok target) (hretention : s.compressionConfig ≤ u32Max)
    (hnone : target ≤ s.startCompressionHeight target) :
    s.syncCompressionFromGraphql around = .ok () s := by
  have hranges : fetchRanges (s.startCompressionHeight target) target = [] := by
    rw [fetchRanges, Nat.sub_eq_zero_of_le hnone]
    rfl
  simp only [syncCompressionFromGraphql, htarget, if_neg (Nat.not_lt.mpr hretention), hranges,
    List.mapIdx_nil, delivered, commitReceived, hcalm.unstopped, reduceCtorEq, if_false]

/-- What is committed lies below the chain's latest block. -/
theorem syncCompression_below (habove : core.CommitsAbove) {target : Nat}
    (htarget : s.onChainLatestHeight = .ok target) (hmax : target ≤ u32Max)
    (hhonest : ∀ chunk, (around.sentryAt chunk).AnswersHeight)
    (h : (finalState (s.syncCompressionFromGraphql around)).compressionLatestHeight =
      some target) : s.compressionLatestHeight = some target := by
  obtain ⟨-, hlast, -⟩ := (syncCompression_replays htarget).heights habove
  rcases hlast target h with hold | ⟨entry, hentry, hheight⟩
  · exact hold
  · have := committed_height hmax hhonest hentry
    omega

/-- The two calls at start-up return, the first with the chain at the remote's
latest block or above it, the second with the compression data at the end of
the chain, unless there is only the genesis block. -/
def ReachesTip (around later : Surroundings FullBlock) (s : BlockSyncer core) (tip : Nat) : Prop :=
  ∃ t u o, s.syncAsMuchAsPossibleFromGraphql around = .ok () t ∧
    t.onChainLatestHeight = .ok o ∧ tip ≤ o ∧
    t.syncCompressionFromGraphql later = .ok () u ∧
    u.onChainLatestHeight = .ok o ∧ (1 ≤ o → u.compressionLatestHeight = some o)

/-- Both syncs leave out the block they are bound for, so the tip is reached
only from the tip. -/
theorem reaches_tip_iff (core : FuelCore) (hontop : core.CommitsOnTop)
    (haccepts : core.AcceptsOnTop) (habove : core.CommitsAbove) (FullBlock : Type)
    (around later : Surroundings FullBlock) (s : BlockSyncer core) (tip o : Nat)
    (hcalm : around.Calm) (hserves : ∀ k, (around.sentryAt k).Serves tip)
    (hcalm' : later.Calm) (hserves' : ∀ k, (later.sentryAt k).Serves tip)
    (ho : s.onChainLatestHeight = .ok o) (hmax : o ≤ u32Max)
    (htip : around.sentry.lastHeight = .ok tip) (htipmax : tip ≤ u32Max) :
    ReachesTip around later s tip ↔
      tip ≤ o ∧ (1 ≤ o → s.compressionLatestHeight = some o) ∧ s.compressionConfig ≤ u32Max := by
  obtain ⟨chain', hsync, hchain⟩ :=
    syncAsMuchAsPossible_stops_below hontop haccepts hcalm hserves ho hmax htipmax htip
  have hreached : BlockSyncer.onChainLatestHeight { s with onChainDatabase := chain' } =
      .ok (max o (tip - 1)) := onChainLatestHeight_ok.mpr hchain
  constructor
  · rintro ⟨t, u, o', ht, ho', hle, hu, -, hcompression⟩
    obtain rfl : t = _ := ((EStateM.Result.ok.inj (hsync.symm.trans ht)).2).symm
    obtain rfl : o' = max o (tip - 1) := Except.ok.inj (ho'.symm.trans hreached)
    have hretention : s.compressionConfig ≤ u32Max := by
      by_contra hbig
      have hbig := Nat.lt_of_not_le hbig
      simp only [syncCompressionFromGraphql, hreached, if_pos hbig, reduceCtorEq] at hu
    have hends : max o (tip - 1) = o := by omega
    refine ⟨by omega, ?_, hretention⟩
    intro hpos
    rw [hends] at hreached hcompression
    have hbefore := syncCompression_below habove hreached hmax
      (fun k => (hserves' k).labelled) (by rw [hu]; exact hcompression hpos)
    exact hbefore
  · rintro ⟨hle, hcompression, hretention⟩
    have hends : max o (tip - 1) = o := by omega
    rw [hends] at hreached
    refine ⟨_, _, o, hsync, hreached, hle, syncCompression_idle hcalm' hreached hretention ?_,
      hreached, hcompression⟩
    cases o with
    | zero => exact Nat.zero_le _
    | succ o =>
      have hnow := hcompression (by omega)
      simp only [compressionLatestHeight] at hnow
      simp only [startCompressionHeight, compressionLatestHeight, hnow, Option.getD_some,
        saturatingAdd]
      omega

theorem plainNode_serves : (FuelClient.plainNode 3).Serves 3 where
  info := ⟨⟨3, 0⟩, rfl⟩
  blocks := by
    intro chainId cursor count hcount
    have hfound : ∀ cursor ≤ 3, FuelClient.plainCursor 3 (toString cursor) = some cursor := by
      decide
    have hwhole : min (cursor + count) 3 - cursor = count := by omega
    refine ⟨List.range' (cursor + 1) count, (List.range' (cursor + 1) count).map
      (fun height => ⟨⟨height, 0, []⟩, []⟩), ?_, ?_, ?_⟩
    · simp only [FuelClient.plainNode, Option.bind_some, hfound cursor (by omega), hwhole]
    · exact List.mapM_pure
    · rw [List.map_map]
      exact List.map_id _
  compressed := by
    intro height
    by_cases hheight : height ≤ 3
    · refine ⟨some ⟨height, 0, [], []⟩, ⟨some (List.replicate height 0), ?_, ?_⟩, fun _ => rfl⟩
      · exact congrArg Except.ok (if_pos hheight)
      · simp [FuelClient.decodeCompressed, FuelClient.plainNode, Except.map]
    · exact ⟨none, ⟨none, congrArg Except.ok (if_neg hheight), rfl⟩, fun h => absurd h hheight⟩
  labelled := by
    intro height bytes block hask hread
    simp only [FuelClient.plainNode, Except.ok.injEq, Option.ite_none_right_eq_some,
      Option.some.injEq] at hask
    obtain ⟨-, rfl⟩ := hask
    rw [← Except.ok.inj hread, List.length_replicate]

theorem plainCore_acceptsOnTop : plainCore.AcceptsOnTop := by
  intro chain block height hheight hnext
  simp only [plainCore, Option.ite_none_right_eq_some, Option.some.injEq] at hheight
  refine ⟨List.append chain [block.entity], if_pos ⟨hheight.1, ?_⟩⟩
  rw [hnext, ← hheight.2]
  exact Nat.sub_add_cancel hheight.1

theorem untroubled_calm (sentry : FuelClient FullBlock) : (untroubled sentry).Calm :=
  ⟨fun _ => rfl, fun _ => rfl, rfl⟩

/-- A chain of the genesis block, next to a remote of height 3, is brought to
height 2, and its compression data to height 1. -/
theorem tip_not_reached :
    (FuelClient.plainNode 3).Serves 3 ∧
    ∃ t u, (plainSyncer 1 []).syncAsMuchAsPossibleFromGraphql
        (untroubled (FuelClient.plainNode 3)) = .ok () t ∧
      t.onChainLatestHeight = .ok 2 ∧
      t.syncCompressionFromGraphql (untroubled (FuelClient.plainNode 3)) = .ok () u ∧
      u.compressionLatestHeight = some 1 ∧
      ¬ ReachesTip (untroubled (FuelClient.plainNode 3)) (untroubled (FuelClient.plainNode 3))
        (plainSyncer 1 []) 3 := by
  refine ⟨plainNode_serves, _, _, rfl, rfl, rfl, rfl, ?_⟩
  rintro ⟨t, u, o, ht, ho, hle, -⟩
  obtain rfl := (EStateM.Result.ok.inj ht).2
  obtain rfl : 2 = o := Except.ok.inj ho
  omega

theorem reaches_tip_from_tip :
    ReachesTip (untroubled (FuelClient.plainNode 3)) (untroubled (FuelClient.plainNode 3))
      (plainSyncer 4 [2, 3]) 3 :=
  (reaches_tip_iff plainCore plainCore_commitsOnTop plainCore_acceptsOnTop
    plainCore_commitsAbove Nat _ _ (plainSyncer 4 [2, 3]) 3 3 (untroubled_calm _)
    (fun _ => plainNode_serves) (untroubled_calm _) (fun _ => plainNode_serves) rfl (by decide)
    rfl (by decide)).mpr ⟨Nat.le_refl 3, fun _ => rfl, by decide⟩

end BlockSyncer
end Watchtower.Syncer
