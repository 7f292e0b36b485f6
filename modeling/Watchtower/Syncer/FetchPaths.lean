import Watchtower.Syncer.Ranges

namespace Watchtower.Syncer
open Lib

namespace FuelClient

variable {FullBlock : Type} {client : FuelClient FullBlock} {tip : Nat} {range : HeightRange}
  {blocks : List SealedBlock} {items : List (Option VersionedCompressedBlock)}

/-- The chain behind the sentry goes from height 0 to `tip`. A page holds the
blocks after its cursor; what is asked for by height is the block of that height. -/
structure HoldsChain (client : FuelClient FullBlock) (tip : Nat) : Prop where
  page : ∀ {cursor count chainId results blocks}, cursor ≤ tip →
    client.fullBlocks ⟨some (toString cursor), count, .forward⟩ = .ok results →
    results.mapM (client.ofFullBlock chainId) = .ok blocks →
    blocks.map (fun block => block.entity.height) =
      List.range' (cursor + 1) (min (cursor + count) tip - cursor)
  compressed : ∀ {height item}, height ≤ tip → client.Answers height item →
    item.map VersionedCompressedBlock.height = some height

/-- What a range is turned into: the page after the height before its first. -/
theorem blocksFor_heights (hchain : client.HoldsChain tip) (hstop : range.stop ≤ tip + 1)
    (hnonempty : range.start < range.stop) (h : client.blocksFor range = .ok blocks) :
    blocks.map (fun block => block.entity.height) =
      List.range' (range.start - 1 + 1) (min (range.start - 1 + range.len) tip -
        (range.start - 1)) := by
  have hempty : ¬ range.isEmpty = true := by simpa [HeightRange.isEmpty] using hnonempty
  unfold blocksFor at h
  split at h
  · contradiction
  · simp only [if_neg hempty] at h
    split at h
    · contradiction
    · split at h
      · contradiction
      · rename_i results hresults
        exact hchain.page (by omega) hresults h

theorem compressedBlocksFor_heights (hchain : client.HoldsChain tip)
    (hstop : range.stop ≤ tip + 1) (h : client.compressedBlocksFor range = .ok items) :
    items.map (fun item => item.map VersionedCompressedBlock.height) = range.heights.map some := by
  have hpairs := compressedBlocksFor_answers h
  have hwithin : ∀ height ∈ range.heights, height ≤ tip := by
    intro height hh
    have := HeightRange.mem_heights.mp hh
    omega
  clear h
  generalize range.heights = heights at hpairs hwithin ⊢
  induction hpairs with
  | nil => rfl
  | cons hanswer _ ih =>
    rw [List.map_cons, List.map_cons, hchain.compressed (hwithin _ List.mem_cons_self) hanswer,
      ih (fun height hh => hwithin height (List.mem_cons_of_mem _ hh))]

/-- Where both fetches succeed, they agree on what the range is, unless it
starts at the height that no cursor comes before. -/
theorem fetch_paths_agree_iff (FullBlock : Type) (client : FuelClient FullBlock) (tip : Nat)
    (hchain : client.HoldsChain tip) (range : HeightRange) (hstop : range.stop ≤ tip + 1)
    (hblocks : client.blocksFor range = .ok blocks)
    (hitems : client.compressedBlocksFor range = .ok items) :
    (blocks.map (fun block => block.entity.height) = List.range' range.start range.len ∧
      items.map (fun item => item.map VersionedCompressedBlock.height) =
        (List.range' range.start range.len).map some) ↔
      range.stop ≤ range.start ∨ 0 < range.start := by
  have hcompressed := compressedBlocksFor_heights hchain hstop hitems
  constructor
  · rintro ⟨hpage, -⟩
    by_contra hzero
    rw [not_or, Nat.not_le, Nat.not_lt, Nat.le_zero] at hzero
    obtain ⟨hnonempty, hstart⟩ := hzero
    have hfirst : 0 ∈ List.range' range.start range.len := by
      rw [List.mem_range'_1, HeightRange.len]
      omega
    rw [← hpage, blocksFor_heights hchain hstop hnonempty hblocks, List.mem_range'_1] at hfirst
    omega
  · intro hcase
    refine ⟨?_, hcompressed⟩
    by_cases hempty : range.stop ≤ range.start
    · have hlen : range.len = 0 := Nat.sub_eq_zero_of_le hempty
      unfold blocksFor at hblocks
      split at hblocks
      · contradiction
      · simp only [HeightRange.isEmpty, hempty, decide_true, if_true, Except.ok.injEq] at hblocks
        rw [← hblocks, hlen]
        rfl
    · have hstart : 0 < range.start := by omega
      have hlen : range.start + range.len = range.stop := by
        simp only [HeightRange.len]
        omega
      rw [blocksFor_heights hchain hstop (by omega) hblocks, Nat.sub_add_cancel hstart]
      congr 1
      omega

/-- The height whose block a page comes after. -/
def plainCursor (tip : Nat) (cursor : String) : Option Nat :=
  (List.range (tip + 1)).find? (fun height => toString height == cursor)

/-- A sentry whose chain goes from height 0 to `tip`; a full block is its height. -/
def plainNode (tip : Nat) : FuelClient Nat where
  chainInfo := .ok ⟨tip, 0⟩
  fullBlocks request :=
    match request.cursor.bind (plainCursor tip) with
    | some cursor => .ok (List.range' (cursor + 1) (min (cursor + request.results) tip - cursor))
    | none => .error "no such cursor"
  daCompressedBlock height := .ok (if height ≤ tip then some (List.replicate height 0) else none)
  ofFullBlock _ height := .ok ⟨⟨height, 0, []⟩, []⟩
  fromBytes bytes := .ok ⟨bytes.length, 0, [], []⟩

theorem plainNode_read {chainId : Nat} {results : List Nat} {blocks : List SealedBlock}
    (h : results.mapM ((plainNode tip).ofFullBlock chainId) = .ok blocks) :
    blocks.map (fun block => block.entity.height) = results := by
  have hpairs := forall₂_of_mapM_ok h
  clear h
  induction hpairs with
  | nil => rfl
  | cons hread _ ih => rw [List.map_cons, ih, ← Except.ok.inj hread]

theorem plainNode_answers {height : Nat} {item : Option VersionedCompressedBlock}
    (hheight : height ≤ tip) (h : (plainNode tip).Answers height item) :
    item = some ⟨height, 0, [], []⟩ := by
  obtain ⟨answer, hask, hdecode⟩ := h
  simp only [plainNode, if_pos hheight, Except.ok.injEq] at hask
  rw [← hask] at hdecode
  simpa [decodeCompressed, plainNode, Except.map, eq_comm] using hdecode

theorem plainNode_holdsChain : (plainNode 3).HoldsChain 3 where
  page := by
    intro cursor count chainId results blocks hcursor hresults hread
    have hfound : ∀ cursor ≤ 3, plainCursor 3 (toString cursor) = some cursor := by decide
    simp only [plainNode, Option.bind_some, hfound cursor hcursor, Except.ok.injEq] at hresults
    rw [plainNode_read hread, hresults]
  compressed := by
    intro height item hheight hanswer
    rw [plainNode_answers hheight hanswer]
    rfl

/-- Of the blocks 0 to 2, the genesis block is not among the full ones. -/
theorem fetch_paths_disagree_at_genesis :
    (plainNode 3).HoldsChain 3 ∧
    ∃ blocks items, (plainNode 3).blocksFor ⟨0, 3⟩ = .ok blocks ∧
      (plainNode 3).compressedBlocksFor ⟨0, 3⟩ = .ok items ∧
      blocks.map (fun block => block.entity.height) = [1, 2, 3] ∧
      items.map (fun item => item.map VersionedCompressedBlock.height) =
        [some 0, some 1, some 2] :=
  ⟨plainNode_holdsChain, _, _, rfl, rfl, rfl, rfl⟩

theorem fetch_paths_agree_above_genesis :
    ∃ blocks items, (plainNode 3).blocksFor ⟨1, 4⟩ = .ok blocks ∧
      (plainNode 3).compressedBlocksFor ⟨1, 4⟩ = .ok items ∧
      blocks.map (fun block => block.entity.height) = [1, 2, 3] ∧
      items.map (fun item => item.map VersionedCompressedBlock.height) =
        [some 1, some 2, some 3] := by
  refine ⟨_, _, rfl, rfl, ?_⟩
  exact (fetch_paths_agree_iff Nat (plainNode 3) 3 plainNode_holdsChain ⟨1, 4⟩ (by decide)
    rfl rfl).mpr (by decide)

end FuelClient
end Watchtower.Syncer
