import Watchtower.Downloader.Sidecars

namespace Watchtower
namespace Downloader
open Lib

variable {Blob : Type} {lib : Libraries Blob} {hashes : List B256}
  {data base added whole : List BlobData} {item : BlobData}

/-- The strings of a sidecar are hex. -/
structure Libraries.WellFormedHex (lib : Libraries Blob) (item : BlobData) : Prop where
  commitment : ∃ c, lib.hexDecode (trimStartMatches0x item.kzgCommitment) = .ok c
  blob : ∃ raw, lib.hexDecode (trimStartMatches0x item.blob) = .ok raw

theorem Libraries.WellFormedHex.readable_iff (h : lib.WellFormedHex item) :
    lib.Readable hashes item ↔ (lib.Asked hashes item → (lib.blobOf item).isSome = true) := by
  obtain ⟨c, hc⟩ := h.commitment
  have hsome : (lib.versionedHashOf item).isSome = true := by
    simp [versionedHashOf, hc, Except.toOption]
  exact ⟨fun hread => hread.content, fun hcontent => ⟨hsome, hcontent⟩⟩

/-- The one error that hex of the right form leaves. -/
theorem Libraries.WellFormedHex.scan_error (h : lib.WellFormedHex item)
    (hread : ¬ lib.Readable hashes item) :
    lib.scan hashes item = .error "Invalid Blob bytes" := by
  obtain ⟨c, hc⟩ := h.commitment
  obtain ⟨raw, hraw⟩ := h.blob
  rw [h.readable_iff, asked_of_commitment hc] at hread
  push Not at hread
  obtain ⟨hasked, hnone⟩ := hread
  have hb : lib.blobOfBytes raw = none := by
    simpa [blobOf, hraw, Except.toOption] using hnone
  simp only [scan, hc, if_pos hasked, hraw, hb]

theorem getBlobs_error (hhex : ∀ item ∈ data, lib.WellFormedHex item)
    (hread : ∃ item ∈ data, ¬ lib.Readable hashes item) :
    getBlobsFromBeaconResponse lib hashes data = .error "Invalid Blob bytes" := by
  induction data with
  | nil => simp at hread
  | cons item rest ih =>
    have hitem := hhex item List.mem_cons_self
    rw [getBlobs_cons]
    by_cases hfirst : lib.Readable hashes item
    · have hrest : ∃ item ∈ rest, ¬ lib.Readable hashes item := by
        obtain ⟨other, hm, hunread⟩ := hread
        rcases List.mem_cons.mp hm with rfl | hm
        · exact absurd hfirst hunread
        · exact ⟨other, hm, hunread⟩
      rw [Libraries.scan_ok_iff.mpr ⟨hfirst, rfl⟩,
        ih (fun other hm => hhex other (List.mem_cons_of_mem _ hm)) hrest]
    · rw [hitem.scan_error hfirst]

/-- Sidecars that are not asked for make no difference. -/
theorem getBlobs_unasked (h : Interleaving base added whole)
    (hhex : ∀ item ∈ whole, lib.WellFormedHex item)
    (hunasked : ∀ item ∈ added, ¬ lib.Asked hashes item) :
    getBlobsFromBeaconResponse lib hashes base = getBlobsFromBeaconResponse lib hashes whole := by
  have hadded : ∀ item ∈ added, lib.Readable hashes item := fun item hm =>
    (hhex item (h.mem_iff.mpr (.inr hm))).readable_iff.mpr (fun ha => absurd ha (hunasked item hm))
  by_cases hread : ∀ item ∈ base, lib.Readable hashes item
  · have hwhole : ∀ item ∈ whole, lib.Readable hashes item := fun item hm =>
      (h.mem_iff.mp hm).elim (hread item) (hadded item)
    have htaken : added.filterMap (lib.taken hashes) = [] := by
      apply List.filterMap_eq_nil_iff.mpr
      intro item hm
      exact if_neg (hunasked item hm)
    have hsame := h.filterMap (lib.taken hashes)
    rw [htaken] at hsame
    rw [getBlobs_ok_iff.mpr ⟨hread, rfl⟩, getBlobs_ok_iff.mpr ⟨hwhole, rfl⟩,
      hsame.whole_eq_left]
  · push Not at hread
    obtain ⟨item, hm, hunread⟩ := hread
    rw [getBlobs_error (fun item hm => hhex item (h.mem_iff.mpr (.inl hm))) ⟨item, hm, hunread⟩,
      getBlobs_error hhex ⟨item, h.mem_iff.mpr (.inl hm), hunread⟩]

theorem getBlobs_eq_iff (h : Interleaving base added whole)
    (hhex : ∀ item ∈ whole, lib.WellFormedHex item) :
    getBlobsFromBeaconResponse lib hashes base = getBlobsFromBeaconResponse lib hashes whole ↔
      (∀ item ∈ added, ¬ lib.Asked hashes item) ∨
        ∃ item ∈ base, lib.Asked hashes item ∧ lib.blobOf item = none := by
  have hbase : ∀ item ∈ base, (¬ lib.Readable hashes item ↔
      lib.Asked hashes item ∧ lib.blobOf item = none) := by
    intro item hm
    rw [(hhex item (h.mem_iff.mpr (.inl hm))).readable_iff]
    simp
  constructor
  · intro heq
    by_cases hread : ∀ item ∈ base, lib.Readable hashes item
    · refine Or.inl (fun item hm hasked => ?_)
      rw [getBlobs_ok_iff.mpr ⟨hread, rfl⟩] at heq
      obtain ⟨hwhole, hblobs⟩ := getBlobs_ok_iff.mp heq.symm
      have hlen := (h.filterMap (lib.taken hashes)).length_eq
      rw [← hblobs] at hlen
      have hnone : added.filterMap (lib.taken hashes) = [] :=
        List.length_eq_zero_iff.mp (by omega)
      have hitem := List.filterMap_eq_nil_iff.mp hnone item hm
      have hsome := (hwhole item (h.mem_iff.mpr (.inr hm))).content hasked
      rw [Libraries.taken, if_pos hasked] at hitem
      simp [hitem] at hsome
    · push Not at hread
      obtain ⟨item, hm, hunread⟩ := hread
      exact Or.inr ⟨item, hm, (hbase item hm).mp hunread⟩
  · rintro (hunasked | ⟨item, hm, hasked⟩)
    · exact getBlobs_unasked h hhex hunasked
    · have hunread := (hbase item hm).mpr hasked
      rw [getBlobs_error (fun item hm => hhex item (h.mem_iff.mpr (.inl hm))) ⟨item, hm, hunread⟩,
        getBlobs_error hhex ⟨item, h.mem_iff.mpr (.inl hm), hunread⟩]

/-- The hashes looked for are those of the target's transactions alone. -/
theorem getBlockTxBlobs_eq {thisBlock thisBlock' : Block} {target : Address}
    {others : List Transaction}
    (h : Interleaving thisBlock.transactions.txns others thisBlock'.transactions.txns)
    (hothers : ∀ tx ∈ others, tx.sender ≠ target) :
    getBlockTxBlobs thisBlock' target = getBlockTxBlobs thisBlock target := by
  apply h.flatMap_left
  intro tx hm
  exact if_neg (fun htx => hothers tx hm htx.1)

/-- What other senders add to a block makes a difference just when the beacon
node lists one of their sidecars under a hash of the target's, unless the call
fails at one of the target's own sidecars anyway. -/
theorem other_senders_unseen_iff {Blob : Type} (lib : Libraries Blob) (d : Downloader Blob)
    (http http' : Downloader.Http) (thisBlock thisBlock' nextBlock nextBlock' : Block)
    (others : List Transaction) (base added whole : List BlobData)
    (htxs : Interleaving thisBlock.transactions.txns others thisBlock'.transactions.txns)
    (hothers : ∀ tx ∈ others, tx.sender ≠ d.targetContract)
    (hdata : Interleaving base added whole) (hhex : ∀ item ∈ whole, lib.WellFormedHex item)
    (hanswer : d.getSidecarsFromNextBlock http nextBlock = .ok (some ⟨base⟩))
    (hanswer' : d.getSidecarsFromNextBlock http' nextBlock' = .ok (some ⟨whole⟩)) :
    (getBlobsFromBeaconResponse lib (getBlockTxBlobs thisBlock d.targetContract) base =
        getBlobsFromBeaconResponse lib (getBlockTxBlobs thisBlock' d.targetContract) whole ∧
      d.processBlock lib http thisBlock nextBlock =
        d.processBlock lib http' thisBlock' nextBlock') ↔
    (∀ item ∈ added, ¬ lib.Asked (getBlockTxBlobs thisBlock d.targetContract) item) ∨
      ∃ item ∈ base, lib.Asked (getBlockTxBlobs thisBlock d.targetContract) item ∧
        lib.blobOf item = none := by
  have hhashes := getBlockTxBlobs_eq htxs hothers
  rw [hhashes]
  constructor
  · rintro ⟨heq, -⟩
    exact (getBlobs_eq_iff hdata hhex).mp heq
  · intro hcase
    have heq := (getBlobs_eq_iff hdata hhex).mpr hcase
    refine ⟨heq, ?_⟩
    simp only [Downloader.processBlock, hanswer, hanswer', hhashes, heq]

/-- A block in which somebody else posts a blob with these hashes too. -/
def sharedBlock (number : Nat) (hashes others : List B256) : Block where
  header := ⟨number, [], [], some []⟩
  transactions := .full [⟨[], 3, some hashes⟩, ⟨[7], 3, some others⟩]

theorem sharedBlock_txs (number : Nat) (hashes others : List B256) :
    Interleaving (plainBlock number hashes).transactions.txns [⟨[7], 3, some others⟩]
      (sharedBlock number hashes others).transactions.txns :=
  .left _ (.right _ .nil)

theorem plainLibraries_hex (item : BlobData) : plainLibraries.WellFormedHex item :=
  ⟨⟨_, rfl⟩, ⟨_, rfl⟩⟩

/-- A copy of the first blob of a bundle, posted by somebody else in the same
block, ends the stream. -/
theorem copied_blob_fatal :
    Interleaving [⟨"3006", "0x70"⟩] [⟨"3006", "0x70"⟩]
      [(⟨"3006", "0x70"⟩ : BlobData), ⟨"3006", "0x70"⟩] ∧
    (∃ d', (Downloader.new ⟨"", "", [], 0, 5⟩ none).processBlock plainLibraries
        (fun _ => .ok ⟨[⟨"3006", "0x70"⟩]⟩) (plainBlock 0 [[1, 0]]) (plainBlock 1 []) =
          .ok () d') ∧
    ∃ d', (Downloader.new ⟨"", "", [], 0, 5⟩ none).processBlock plainLibraries
        (fun _ => .ok ⟨[⟨"3006", "0x70"⟩, ⟨"3006", "0x70"⟩]⟩)
        (sharedBlock 0 [[1, 0]] [[1, 0]]) (plainBlock 1 []) =
          .error "Duplicate blob with index 0" d' :=
  ⟨.left _ (.right _ .nil), ⟨_, rfl⟩, ⟨_, rfl⟩⟩

theorem other_sender_unseen :
    (Downloader.new ⟨"", "", [], 0, 5⟩ none).processBlock plainLibraries
        (fun _ => .ok ⟨[⟨"3006", "0x70"⟩]⟩) (plainBlock 0 [[1, 0]]) (plainBlock 1 []) =
      (Downloader.new ⟨"", "", [], 0, 5⟩ none).processBlock plainLibraries
        (fun _ => .ok ⟨[⟨"3006", "0x70"⟩, ⟨"3006", "0x71"⟩]⟩)
        (sharedBlock 0 [[1, 0]] [[1, 1]]) (plainBlock 1 []) := by
  refine ((other_senders_unseen_iff plainLibraries (Downloader.new ⟨"", "", [], 0, 5⟩ none) _ _
    (plainBlock 0 [[1, 0]]) (sharedBlock 0 [[1, 0]] [[1, 1]]) (plainBlock 1 []) (plainBlock 1 [])
    _ [⟨"3006", "0x70"⟩] [⟨"3006", "0x71"⟩] _ (sharedBlock_txs 0 [[1, 0]] [[1, 1]]) ?_
    (.left _ (.right _ .nil)) (fun item _ => plainLibraries_hex item) rfl rfl).mpr (.inl ?_)).2
  · intro tx hm
    obtain rfl := List.mem_singleton.mp hm
    decide
  · intro item hm
    obtain rfl := List.mem_singleton.mp hm
    decide

end Downloader
end Watchtower
