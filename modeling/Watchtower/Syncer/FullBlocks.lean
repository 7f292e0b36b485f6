import Watchtower.ClientExt.Answers
import Watchtower.Syncer.Archive
import Watchtower.Syncer.StartUp

namespace Watchtower.Syncer
open Lib ClientExt
open ClientExt.SealedBlockWithMetadata (WellFormed tryFromFullBlockAndChainId)

/-- What a block is to the syncer: the heights in its header, and bytes for the rest. -/
structure Rendering (types : FuelTypes) where
  content : Block types.Hash types.Transaction → Bytes
  signature : Consensus types.Hash → Bytes

namespace Rendering

variable {types : FuelTypes} (rendering : Rendering types)

def fuelBlock (block : Block types.Hash types.Transaction) : FuelBlock where
  height := block.header.consensus.height
  daHeight := block.header.application.daHeight
  content := rendering.content block

def sealedBlock (block : ClientExt.SealedBlock types) : SealedBlock where
  entity := rendering.fuelBlock block.entity
  signature := rendering.signature block.consensus

end Rendering

section

variable {types : FuelTypes} {rendering : Rendering types}
  {chain : Nat → SealedBlockWithMetadata types} {writers : Writers types} {chainId tip : Nat}
  {client : FuelClient (FullBlock types)}

/-- The blocks of a chain that goes from height 0 to `tip`. -/
structure IsChain (types : FuelTypes) (chainId tip : Nat)
    (chain : Nat → SealedBlockWithMetadata types) : Prop where
  wellFormed : ∀ h ≤ tip, WellFormed types chainId (chain h)
  height : ∀ h ≤ tip, (chain h).header.consensus.height = h

/-- Full blocks are converted before the syncer sees them. -/
def FuelClient.Converts (client : FuelClient (FullBlock types)) (rendering : Rendering types) :
    Prop :=
  ∀ chainId fullBlock, client.ofFullBlock chainId fullBlock =
    (tryFromFullBlockAndChainId types chainId fullBlock).map
      (fun converted => rendering.sealedBlock converted.block)

/-- The sentry may answer what it likes, under ids that are on the chain. -/
def FuelClient.NamesOnly (client : FuelClient (FullBlock types))
    (chain : Nat → SealedBlockWithMetadata types) (tip : Nat) : Prop :=
  ∀ {request results}, client.fullBlocks request = .ok results →
    ∀ fullBlock ∈ results, ∃ h ≤ tip, fullBlock.header.id = types.headerId (chain h).header

/-- The sentry answers with the chain up to `tip`, a page after each cursor. -/
structure FuelClient.Holds (client : FuelClient (FullBlock types)) (writers : Writers types)
    (chain : Nat → SealedBlockWithMetadata types) (chainId tip : Nat) : Prop where
  info : ∃ latestHeight, client.chainInfo = .ok ⟨latestHeight, chainId⟩
  page : ∀ cursor count, cursor + count ≤ tip →
    client.fullBlocks ⟨some (toString cursor), count, .forward⟩ =
      .ok ((List.range' (cursor + 1) count).map (fun h => (chain h).answer writers))

/-- What is fetched was converted from an answer of the sentry. -/
theorem FuelClient.blocksFor_read {FullBlock : Type} {client : FuelClient FullBlock}
    {range : HeightRange} {blocks : List SealedBlock} {block : SealedBlock}
    (h : client.blocksFor range = .ok blocks) (hm : block ∈ blocks) :
    ∃ chainId request results fullBlock, client.fullBlocks request = .ok results ∧
      fullBlock ∈ results ∧ client.ofFullBlock chainId fullBlock = .ok block := by
  unfold FuelClient.blocksFor at h
  split at h
  · contradiction
  · rename_i info hinfo
    split at h
    · obtain rfl := Except.ok.inj h
      contradiction
    · split at h
      · contradiction
      · split at h
        · contradiction
        · rename_i results hresults
          obtain ⟨fullBlock, hanswered, hread⟩ := exists_mem_of_forall₂ (forall₂_of_mapM_ok h) hm
          exact ⟨info.chainId, _, results, fullBlock, hresults, hanswered, hread⟩

/-- What is fetched from such a sentry is on the chain, at its height. -/
theorem blocksFor_named (hgen : types.Generates) (hfree : types.CollisionFree)
    (hchain : IsChain types chainId tip chain) (hconverts : client.Converts rendering)
    (hnames : client.NamesOnly chain tip) {range : HeightRange} {blocks : List SealedBlock}
    {block : SealedBlock} (h : client.blocksFor range = .ok blocks) (hm : block ∈ blocks) :
    block.entity.height ≤ tip ∧
      block.entity = rendering.fuelBlock (chain block.entity.height).block.entity := by
  obtain ⟨chainId, request, results, fullBlock, hresults, hanswered, hread⟩ :=
    FuelClient.blocksFor_read h hm
  obtain ⟨height, hle, hid⟩ := hnames hresults fullBlock hanswered
  rw [hconverts] at hread
  cases hconverted : tryFromFullBlockAndChainId types chainId fullBlock with
  | error err => simp [hconverted, Except.map] at hread
  | ok converted =>
    have hentity : converted.block.entity = (chain height).block.entity :=
      SealedBlockWithMetadata.entity_eq_of_id hgen hfree (hchain.wellFormed height hle)
        hconverted hid
    simp only [hconverted, Except.map, Except.ok.injEq] at hread
    have hblock : block.entity = rendering.fuelBlock (chain height).block.entity := by
      rw [← hread, Rendering.sealedBlock, hentity]
    have hheight : block.entity.height = height := by
      rw [hblock]
      exact hchain.height height hle
    rw [hheight]
    exact ⟨hle, hblock⟩

/-- And from a sentry that holds the chain come its blocks, with their seals. -/
theorem blocksFor_held (hread : writers.ReadBack) (hchain : IsChain types chainId tip chain)
    (hconverts : client.Converts rendering) (hholds : client.Holds writers chain chainId tip)
    {range : HeightRange} (hstart : 0 < range.start) (hstop : range.stop ≤ tip + 1)
    (hsmall : range.len ≤ 40) :
    client.blocksFor range =
      .ok (range.heights.map (fun h => rendering.sealedBlock (chain h).block)) := by
  obtain ⟨latestHeight, hinfo⟩ := hholds.info
  by_cases hempty : range.isEmpty = true
  · have hheights : range.heights = [] := by
      simp only [HeightRange.isEmpty, decide_eq_true_eq] at hempty
      simp only [HeightRange.heights, HeightRange.len, List.range'_eq_nil_iff]
      omega
    simp only [FuelClient.blocksFor, hinfo, if_pos hempty, hheights, List.map_nil]
  · have hnonempty : range.start < range.stop := by simpa [HeightRange.isEmpty] using hempty
    have hwithin : range.start - 1 + range.len ≤ tip := by
      simp only [HeightRange.len]
      omega
    have hlen : ¬ 2 ^ 31 ≤ range.len := by omega
    simp only [FuelClient.blocksFor, hinfo, if_neg hempty, if_neg hlen, hholds.page _ _ hwithin,
      Nat.sub_add_cancel hstart]
    apply mapM_map_ok
    intro h hh
    have hle : h ≤ tip := by
      have := HeightRange.mem_heights.mp hh
      omega
    rw [hconverts, SealedBlockWithMetadata.converted_of_answer hread (hchain.wellFormed h hle)]
    rfl

end

/-- Blocks executed and committed one after the other. -/
def FuelCore.executeAll (core : FuelCore) (database : core.OnChain) :
    List SealedBlock → Except Error core.OnChain
  | [] => .ok database
  | block :: rest =>
    match core.executeAndCommit database block with
    | .error err => .error err
    | .ok database => core.executeAll database rest

/-- Only blocks that continue the chain can be. -/
theorem FuelCore.executeAll_heights {core : FuelCore} (hontop : core.CommitsOnTop)
    {database database' : core.OnChain} {o : Nat} (ho : core.onChainHeight database = some o)
    {blocks : List SealedBlock} (h : core.executeAll database blocks = .ok database') :
    blocks.map (fun block => block.entity.height) = List.range' (o + 1) blocks.length ∧
      core.onChainHeight database' = some (o + blocks.length) := by
  induction blocks generalizing database o with
  | nil =>
    obtain rfl := Except.ok.inj h
    exact ⟨rfl, ho⟩
  | cons block rest ih =>
    unfold FuelCore.executeAll at h
    split at h
    · contradiction
    · rename_i next hcommit
      obtain ⟨below, hbelow, hheight, hnow⟩ := hontop.executeAndCommit hcommit
      obtain rfl := Option.some.inj (ho.symm.trans hbelow)
      obtain ⟨hheights, hlast⟩ := ih hnow h
      constructor
      · rw [List.map_cons, hheight, hheights, List.length_cons, List.range'_succ]
      · rw [hlast, List.length_cons]
        congr 1
        omega

namespace BlockSyncer

variable {core : FuelCore}

/-- Of the blocks received, the first few are executed, and all of them when
the loop comes to its end. -/
theorem executeReceived_executes {FullBlock : Type} (around : Surroundings FullBlock)
    (s : BlockSyncer core) (i : Nat) (blocks : List SealedBlock) :
    ∃ executed, executed <+: blocks ∧
      core.executeAll s.onChainDatabase executed =
        .ok (finalState (s.executeReceived around i blocks)).onChainDatabase ∧
      ∀ t, s.executeReceived around i blocks = .ok () t → executed = blocks := by
  induction blocks generalizing s i with
  | nil =>
    refine ⟨[], List.prefix_rfl, ?_, fun _ _ => rfl⟩
    unfold executeReceived
    split <;> rfl
  | cons block rest ih =>
    unfold executeReceived
    split
    · exact ⟨[], List.nil_prefix, rfl, fun t ht => by cases ht⟩
    · split
      · exact ⟨[], List.nil_prefix, rfl, fun t ht => by cases ht⟩
      · split
        · exact ⟨[], List.nil_prefix, rfl, fun t ht => by cases ht⟩
        · rename_i onChainDatabase hcommit
          obtain ⟨executed, hfirst, hrun, hall⟩ := ih { s with onChainDatabase } (i + 1)
          refine ⟨block :: executed, (List.prefix_cons_inj block).mpr hfirst, ?_, ?_⟩
          · simp only [FuelCore.executeAll, Faults.attempt_ok hcommit]
            exact hrun
          · intro t ht
            rw [hall t ht]

variable {types : FuelTypes} {rendering : Rendering types}
  {chain : Nat → SealedBlockWithMetadata types} {writers : Writers types} {chainId tip : Nat}
  {around : Surroundings (FullBlock types)} {ranges : List HeightRange}

theorem delivered_named (hgen : types.Generates) (hfree : types.CollisionFree)
    (hchain : IsChain types chainId tip chain)
    (hconverts : ∀ k, (around.sentryAt k).Converts rendering)
    (hnames : ∀ k, (around.sentryAt k).NamesOnly chain tip) {block : SealedBlock}
    (hm : block ∈ delivered
      (ranges.mapIdx (fun k range => (around.sentryAt k).blocksFor range))) :
    block.entity.height ≤ tip ∧
      block.entity = rendering.fuelBlock (chain block.entity.height).block.entity := by
  obtain ⟨items, hitems, hblock⟩ := mem_delivered hm
  obtain ⟨k, hk, hfetched⟩ := List.mem_mapIdx.mp hitems
  exact blocksFor_named hgen hfree hchain (hconverts k) (hnames k) hfetched hblock

theorem delivered_held (hread : writers.ReadBack) (hchain : IsChain types chainId tip chain)
    (hconverts : ∀ k, (around.sentryAt k).Converts rendering)
    (hholds : ∀ k, (around.sentryAt k).Holds writers chain chainId tip) {start stop : Nat}
    (hstart : 0 < start) (hstop : stop ≤ tip + 1) (hmax : stop ≤ u32Max) :
    delivered ((fetchRanges start stop).mapIdx
        (fun k range => (around.sentryAt k).blocksFor range)) =
      (List.range' start (stop - start)).map (fun h => rendering.sealedBlock (chain h).block) := by
  have hresults : (fetchRanges start stop).mapIdx
      (fun k range => (around.sentryAt k).blocksFor range) =
        ((fetchRanges start stop).map (fun range =>
          range.heights.map (fun h => rendering.sealedBlock (chain h).block))).map .ok := by
    rw [List.map_map]
    apply List.ext_getElem (by simp)
    intro k hk hk'
    rw [List.length_mapIdx] at hk
    have hrange := List.getElem_mem hk
    have hbounds := fetchRanges_bounds hmax hrange
    rw [List.getElem_mapIdx, List.getElem_map]
    exact blocksFor_held hread hchain (hconverts k) (hholds k) (by omega) (by omega)
      (fetchRanges_len hmax hrange).2.1
  rw [hresults, ← List.append_nil (List.map _ _), delivered_eq (by simp),
    ← fetchRanges_heights hmax, List.map_flatMap, List.flatMap_def]

/-- No height is left after the last u32, and none before it is passed over. -/
theorem range'_saturating {o stop : Nat} (ho : o ≤ u32Max) (hstop : stop ≤ u32Max) :
    List.range' (saturatingAdd o 1) (stop - saturatingAdd o 1) =
      List.range' (o + 1) (stop - (o + 1)) := by
  by_cases hlast : o = u32Max
  · have hleft : stop - saturatingAdd o 1 = 0 := by
      simp only [saturatingAdd]
      omega
    have hright : stop - (o + 1) = 0 := by omega
    rw [hleft, hright]
    rfl
  · have hsucc : saturatingAdd o 1 = o + 1 := by
      simp only [saturatingAdd]
      omega
    rw [hsucc]

/-- What the sync of blocks executes. Under ids that are on the chain it is the
chain, height by height, whatever else the sentries answer; and if they hold the
chain it is the chain with its seals, all of it when the call succeeds. -/
theorem graphql_executes_the_chain (hgen : types.Generates) (hfree : types.CollisionFree)
    (hread : writers.ReadBack) (hontop : core.CommitsOnTop)
    (hchain : IsChain types chainId tip chain)
    (around : Surroundings (FullBlock types)) (s : BlockSyncer core) (o : Nat)
    (ho : s.onChainLatestHeight = .ok o)
    (hconverts : ∀ k, (around.sentryAt k).Converts rendering) :
    ∃ blocks, core.executeAll s.onChainDatabase blocks =
        .ok (finalState (s.syncAsMuchAsPossibleFromGraphql around)).onChainDatabase ∧
      (finalState (s.syncAsMuchAsPossibleFromGraphql around)).onChainLatestHeight =
        .ok (o + blocks.length) ∧
      ((∀ k, (around.sentryAt k).NamesOnly chain tip) →
        blocks.map SealedBlock.entity = (List.range' (o + 1) blocks.length).map
            (fun h => rendering.fuelBlock (chain h).block.entity) ∧
          (0 < blocks.length → o + blocks.length ≤ tip)) ∧
      ∀ remote, around.sentry.lastHeight = .ok remote → o ≤ u32Max → remote ≤ u32Max →
        remote ≤ tip + 1 → (∀ k, (around.sentryAt k).Holds writers chain chainId tip) →
        blocks = (List.range' (o + 1) blocks.length).map
            (fun h => rendering.sealedBlock (chain h).block) ∧
          ∀ t, s.syncAsMuchAsPossibleFromGraphql around = .ok () t →
            blocks.length = remote - (o + 1) := by
  have honchain := onChainLatestHeight_ok.mp ho
  unfold syncAsMuchAsPossibleFromGraphql
  simp only [ho]
  cases hremote : around.sentry.lastHeight with
  | error err => exact ⟨[], rfl, ho, fun _ => ⟨rfl, nofun⟩, nofun⟩
  | ok remote =>
    obtain ⟨blocks, hfirst, hrun, hall⟩ := executeReceived_executes around s 0
      (delivered ((fetchRanges (saturatingAdd o 1) remote).mapIdx
        (fun k range => (around.sentryAt k).blocksFor range)))
    obtain ⟨hheights, hlatest⟩ := FuelCore.executeAll_heights hontop honchain hrun
    refine ⟨blocks, hrun, onChainLatestHeight_ok.mpr hlatest, ?_, ?_⟩
    · intro hnames
      have hnamed := fun block (hm : block ∈ blocks) =>
        delivered_named hgen hfree hchain hconverts hnames (hfirst.subset hm)
      constructor
      · rw [← hheights, List.map_map]
        exact List.map_congr_left (fun block hm => (hnamed block hm).2)
      · intro hpos
        have hlast : o + blocks.length ∈ blocks.map (fun block => block.entity.height) := by
          rw [hheights, List.mem_range'_1]
          omega
        obtain ⟨block, hm, hheight⟩ := List.mem_map.mp hlast
        exact hheight ▸ (hnamed block hm).1
    · intro found hfound hmax hremoteMax hwithin hholds
      obtain rfl := Except.ok.inj hfound
      have hstart : 0 < saturatingAdd o 1 := by
        simp only [saturatingAdd, u32Max]
        omega
      have hdelivered := delivered_held hread hchain hconverts hholds hstart hwithin hremoteMax
      rw [range'_saturating hmax hremoteMax] at hdelivered
      rw [hdelivered] at hfirst
      have hlen := hfirst.length_le
      simp only [List.length_map, List.length_range'] at hlen
      constructor
      · rw [List.prefix_iff_eq_take] at hfirst
        rw [← List.map_take, List.take_range'_of_length_ge hlen] at hfirst
        exact hfirst
      · intro t ht
        rw [hall t ht, hdelivered, List.length_map, List.length_range']

def plainRendering : Rendering heldTypes where
  content block := block.transactions.map Nat.toUInt8
  signature
    | .genesis _ => []
    | .poa signature => signature

/-- A sentry that holds the blocks up to height 4. -/
def heldNode : FuelClient (FullBlock heldTypes) where
  chainInfo := .ok ⟨4, 0⟩
  fullBlocks request :=
    match request.cursor.bind (FuelClient.plainCursor 4) with
    | some cursor => .ok ((List.range' (cursor + 1) (min (cursor + request.results) 4 - cursor)).map
        (fun h => (heldAt h).answer heldWriters))
    | none => .error "no such cursor"
  daCompressedBlock _ := .ok none
  ofFullBlock chainId fullBlock := (tryFromFullBlockAndChainId heldTypes chainId fullBlock).map
    (fun converted => plainRendering.sealedBlock converted.block)
  fromBytes _ := .error "no compressed blocks"

theorem heldNode_holds : heldNode.Holds heldWriters heldAt 0 4 where
  info := ⟨4, rfl⟩
  page := by
    intro cursor count hcount
    have hfound : ∀ cursor ≤ 4, FuelClient.plainCursor 4 (toString cursor) = some cursor := by
      decide
    have hwhole : min (cursor + count) 4 - cursor = count := by omega
    simp only [heldNode, Option.bind_some, hfound cursor (by omega), hwhole]

theorem heldNode_namesOnly : heldNode.NamesOnly heldAt 4 := by
  intro request results h fullBlock hm
  simp only [heldNode] at h
  split at h
  · obtain rfl := Except.ok.inj h
    obtain ⟨height, hheight, rfl⟩ := List.mem_map.mp hm
    rw [List.mem_range'_1] at hheight
    exact ⟨height, by omega, rfl⟩
  · contradiction

theorem heldAt_isChain : IsChain heldTypes 0 4 heldAt where
  wellFormed h _ := heldAt_wellFormed h 0
  height _ _ := rfl

/-- On top of height 1, blocks 2 and 3 are executed. -/
theorem graphql_executes_the_chain_of_two :
    ∃ t blocks, (plainSyncer 2 []).syncAsMuchAsPossibleFromGraphql (untroubled heldNode) =
        .ok () t ∧
      plainCore.executeAll (plainSyncer 2 []).onChainDatabase blocks = .ok t.onChainDatabase ∧
      blocks = [2, 3].map (fun h => plainRendering.sealedBlock (heldAt h).block) ∧
      blocks.map SealedBlock.entity =
        [2, 3].map (fun h => plainRendering.fuelBlock (heldAt h).block.entity) := by
  have hconverts : ∀ k, ((untroubled heldNode).sentryAt k).Converts plainRendering :=
    fun _ _ _ => rfl
  obtain ⟨blocks, hrun, -, hnamed, hheld⟩ := graphql_executes_the_chain heldTypes_generates
    heldTypes_collisionFree heldWriters_readBack plainCore_commitsOnTop heldAt_isChain
    (untroubled heldNode) (plainSyncer 2 []) 1 rfl hconverts
  obtain ⟨hblocks, hall⟩ :=
    hheld 4 rfl (by decide) (by decide) (by decide) (fun _ => heldNode_holds)
  have hlen : blocks.length = 2 := hall _ rfl
  obtain ⟨hentities, -⟩ := hnamed (fun _ => heldNode_namesOnly)
  rw [hlen] at hblocks hentities
  exact ⟨_, blocks, rfl, hrun, hblocks, hentities⟩

end BlockSyncer
end Watchtower.Syncer
