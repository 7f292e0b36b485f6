import Watchtower.Downloader.Completeness
import Watchtower.Lib.Interleaving

namespace Watchtower
namespace Downloader
open Lib

variable {Blob : Type} {lib : Libraries Blob} {hashes : List B256} {data : List BlobData}
  {item : BlobData} {blobs : List Blob}

/-- The versioned hash of a sidecar's commitment, if that is hex. -/
def Libraries.versionedHashOf (lib : Libraries Blob) (item : BlobData) : Option B256 :=
  (lib.hexDecode (trimStartMatches0x item.kzgCommitment)).toOption.map lib.blobVersionedHash

/-- The blob in a sidecar, if it is hex of the size of a blob. -/
def Libraries.blobOf (lib : Libraries Blob) (item : BlobData) : Option Blob :=
  (lib.hexDecode (trimStartMatches0x item.blob)).toOption.bind lib.blobOfBytes

/-- A sidecar of one of the hashes. -/
def Libraries.Asked (lib : Libraries Blob) (hashes : List B256) (item : BlobData) : Prop :=
  ∃ hash ∈ hashes, lib.versionedHashOf item = some hash

instance (lib : Libraries Blob) (hashes : List B256) (item : BlobData) :
    Decidable (lib.Asked hashes item) :=
  inferInstanceAs (Decidable (∃ hash ∈ hashes, lib.versionedHashOf item = some hash))

/-- A sidecar the scan gets past: it has a hash, and a blob if it is asked for. -/
structure Libraries.Readable (lib : Libraries Blob) (hashes : List B256) (item : BlobData) :
    Prop where
  commitment : (lib.versionedHashOf item).isSome = true
  content : lib.Asked hashes item → (lib.blobOf item).isSome = true

/-- What the scan takes from a sidecar. -/
def Libraries.taken (lib : Libraries Blob) (hashes : List B256) (item : BlobData) : Option Blob :=
  if lib.Asked hashes item then lib.blobOf item else none

theorem Libraries.asked_of_commitment {c : Bytes}
    (h : lib.hexDecode (trimStartMatches0x item.kzgCommitment) = .ok c) :
    lib.Asked hashes item ↔ lib.blobVersionedHash c ∈ hashes := by
  simp [Asked, versionedHashOf, h, Except.toOption]

/-- What the scan comes to at a single sidecar. -/
def Libraries.scan (lib : Libraries Blob) (hashes : List B256) (item : BlobData) :
    Except Error (Option Blob) :=
  match lib.hexDecode (trimStartMatches0x item.kzgCommitment) with
  | .error err => .error err
  | .ok kzgCommitment =>
    if lib.blobVersionedHash kzgCommitment ∈ hashes then
      match lib.hexDecode (trimStartMatches0x item.blob) with
      | .error err => .error err
      | .ok raw =>
        match lib.blobOfBytes raw with
        | none => .error "Invalid Blob bytes"
        | some blob => .ok (some blob)
    else .ok none

theorem getBlobs_cons (lib : Libraries Blob) (hashes : List B256) (item : BlobData)
    (rest : List BlobData) :
    getBlobsFromBeaconResponse lib hashes (item :: rest) =
      match lib.scan hashes item with
      | .error err => .error err
      | .ok out =>
        match getBlobsFromBeaconResponse lib hashes rest with
        | .error err => .error err
        | .ok blobs => .ok (out.toList ++ blobs) := by
  simp only [getBlobsFromBeaconResponse, Libraries.scan]
  cases hc : lib.hexDecode (trimStartMatches0x item.kzgCommitment) with
  | error err => rfl
  | ok c =>
    by_cases hasked : lib.blobVersionedHash c ∈ hashes
    · simp only [if_pos hasked]
      cases hraw : lib.hexDecode (trimStartMatches0x item.blob) with
      | error err => rfl
      | ok raw =>
        cases hb : lib.blobOfBytes raw with
        | none => simp only [hb]
        | some blob =>
          simp only [hb]
          cases getBlobsFromBeaconResponse lib hashes rest <;> rfl
    · simp only [if_neg hasked]
      cases getBlobsFromBeaconResponse lib hashes rest <;> rfl

theorem Libraries.scan_ok_iff {out : Option Blob} :
    lib.scan hashes item = .ok out ↔
      lib.Readable hashes item ∧ out = lib.taken hashes item := by
  cases hc : lib.hexDecode (trimStartMatches0x item.kzgCommitment) with
  | error err =>
    have hnone : lib.versionedHashOf item = none := by simp [versionedHashOf, hc, Except.toOption]
    simp only [scan, hc, reduceCtorEq, false_iff, not_and]
    intro hread
    exact absurd hread.commitment (by simp [hnone])
  | ok c =>
    have hsome : (lib.versionedHashOf item).isSome = true := by
      simp [versionedHashOf, hc, Except.toOption]
    have hasked : lib.Asked hashes item ↔ _ := asked_of_commitment hc
    by_cases hmem : lib.blobVersionedHash c ∈ hashes
    · have hread : lib.Readable hashes item ↔ (lib.blobOf item).isSome = true :=
        ⟨fun h => h.content (hasked.mpr hmem), fun h => ⟨hsome, fun _ => h⟩⟩
      rw [hread, taken, if_pos (hasked.mpr hmem)]
      simp only [scan, hc, if_pos hmem, blobOf]
      cases hraw : lib.hexDecode (trimStartMatches0x item.blob) with
      | error err => simp [Except.toOption]
      | ok raw => cases hb : lib.blobOfBytes raw <;> simp [hb, Except.toOption, eq_comm]
    · have hread : lib.Readable hashes item := ⟨hsome, fun h => absurd (hasked.mp h) hmem⟩
      rw [taken, if_neg (mt hasked.mp hmem)]
      simp [scan, hc, hmem, hread, eq_comm]

/-- The scan succeeds when it gets past every sidecar, and takes the blobs asked for. -/
theorem getBlobs_ok_iff :
    getBlobsFromBeaconResponse lib hashes data = .ok blobs ↔
      (∀ item ∈ data, lib.Readable hashes item) ∧
        blobs = data.filterMap (lib.taken hashes) := by
  induction data generalizing blobs with
  | nil => simp [getBlobsFromBeaconResponse, eq_comm]
  | cons item rest ih =>
    rw [getBlobs_cons, List.forall_mem_cons]
    cases hscan : lib.scan hashes item with
    | error err =>
      have hnot : ¬ lib.Readable hashes item := by
        intro hread
        have := Libraries.scan_ok_iff.mpr ⟨hread, rfl⟩
        simp [hscan] at this
      simp [hnot]
    | ok out =>
      obtain ⟨hread, rfl⟩ := Libraries.scan_ok_iff.mp hscan
      cases hrest : getBlobsFromBeaconResponse lib hashes rest with
      | error err =>
        have hnot : ¬ ∀ item ∈ rest, lib.Readable hashes item := by
          intro hall
          have := ih.mpr ⟨hall, rfl⟩
          simp [hrest] at this
        simp [hnot]
      | ok rest' =>
        obtain ⟨hall, rfl⟩ := ih.mp hrest
        have hcons : (item :: rest).filterMap (lib.taken hashes) =
            (lib.taken hashes item).toList ++ rest.filterMap (lib.taken hashes) := by
          cases h : lib.taken hashes item <;> simp [h]
        simp only [hread, true_and, Except.ok.injEq, hcons]
        exact ⟨fun h => ⟨hall, h.symm⟩, fun h => h.2.symm⟩

/-- Each of the hashes is that of a sidecar. -/
def Listed (lib : Libraries Blob) (hashes : List B256) (data : List BlobData) : Prop :=
  ∀ hash ∈ hashes, ∃ item ∈ data, lib.versionedHashOf item = some hash

/-- Each of the hashes is that of a sidecar whose blob is among these. -/
def Found (lib : Libraries Blob) (hashes : List B256) (data : List BlobData)
    (blobs : List Blob) : Prop :=
  ∀ hash ∈ hashes, ∃ item ∈ data, lib.versionedHashOf item = some hash ∧
    ∃ blob ∈ blobs, lib.blobOf item = some blob

/-- A sidecar that is asked for and there is not dropped. -/
theorem blob_of_listed (h : getBlobsFromBeaconResponse lib hashes data = .ok blobs) {hash : B256}
    (hh : hash ∈ hashes) (hm : item ∈ data) (hhash : lib.versionedHashOf item = some hash) :
    ∃ blob ∈ blobs, lib.blobOf item = some blob := by
  obtain ⟨hread, rfl⟩ := getBlobs_ok_iff.mp h
  have hasked : lib.Asked hashes item := ⟨hash, hh, hhash⟩
  obtain ⟨blob, hb⟩ := Option.isSome_iff_exists.mp ((hread item hm).content hasked)
  refine ⟨blob, List.mem_filterMap.mpr ⟨item, hm, ?_⟩, hb⟩
  rw [Libraries.taken, if_pos hasked, hb]

theorem found_iff_listed (h : getBlobsFromBeaconResponse lib hashes data = .ok blobs) :
    Found lib hashes data blobs ↔ Listed lib hashes data := by
  constructor
  · intro hfound hash hh
    obtain ⟨item, hm, hhash, -⟩ := hfound hash hh
    exact ⟨item, hm, hhash⟩
  · intro hlisted hash hh
    obtain ⟨item, hm, hhash⟩ := hlisted hash hh
    exact ⟨item, hm, hhash, blob_of_listed h hh hm hhash⟩

/-- What `process_block` went through when it goes on to the next block. -/
theorem processBlock_ok {d d' : Downloader Blob} {http : Downloader.Http}
    {thisBlock nextBlock : Block}
    (h : d.processBlock lib http thisBlock nextBlock = .ok () d') :
    d.getSidecarsFromNextBlock http nextBlock = .ok none ∧ d' = d ∨
      ∃ response blobs, d.getSidecarsFromNextBlock http nextBlock = .ok (some response) ∧
        getBlobsFromBeaconResponse lib (getBlockTxBlobs thisBlock d.targetContract)
          response.data = .ok blobs ∧
        d.insertBlobs lib blobs = .ok () d' := by
  unfold Downloader.processBlock at h
  simp only at h
  split at h
  · contradiction
  · rename_i hnone
    exact Or.inl ⟨hnone, ((EStateM.Result.ok.inj h).2).symm⟩
  · rename_i response hresponse
    split at h
    · contradiction
    · rename_i blobs hblobs
      exact Or.inr ⟨response, blobs, hresponse, hblobs, h⟩

/-- The call had the blob of each hash the target posted in the block. -/
def HadAll (lib : Libraries Blob) (d : Downloader Blob) (http : Downloader.Http)
    (thisBlock nextBlock : Block) : Prop :=
  ∀ hash ∈ getBlockTxBlobs thisBlock d.targetContract, ∃ response blobs,
    d.getSidecarsFromNextBlock http nextBlock = .ok (some response) ∧
    getBlobsFromBeaconResponse lib (getBlockTxBlobs thisBlock d.targetContract)
      response.data = .ok blobs ∧
    ∃ item ∈ response.data, lib.versionedHashOf item = some hash ∧
      ∃ blob ∈ blobs, lib.blobOf item = some blob

theorem hadAll_iff {d d' : Downloader Blob} {http : Downloader.Http}
    {thisBlock nextBlock : Block}
    (h : d.processBlock lib http thisBlock nextBlock = .ok () d') :
    HadAll lib d http thisBlock nextBlock ↔
      ∀ hash ∈ getBlockTxBlobs thisBlock d.targetContract, ∃ response,
        d.getSidecarsFromNextBlock http nextBlock = .ok (some response) ∧
        ∃ item ∈ response.data, lib.versionedHashOf item = some hash := by
  constructor
  · intro hall hash hh
    obtain ⟨response, blobs, hresponse, -, item, hm, hhash, -⟩ := hall hash hh
    exact ⟨response, hresponse, item, hm, hhash⟩
  · intro hall hash hh
    obtain ⟨response, hresponse, item, hm, hhash⟩ := hall hash hh
    rcases processBlock_ok h with ⟨hnone, -⟩ | ⟨response', blobs, hsome, hblobs, -⟩
    · simp [hresponse] at hnone
    · obtain rfl : response = response' := by simpa using hresponse.symm.trans hsome
      exact ⟨response, blobs, hresponse, hblobs, item, hm, hhash,
        blob_of_listed hblobs hh hm hhash⟩

/-- A requested blob is missing from a scan that succeeds just when the
response lists no sidecar of it, and `process_block` goes on without it. -/
theorem requested_blobs_found_iff {Blob : Type} (lib : Libraries Blob) :
    (∀ hashes data,
      (∀ blobs, getBlobsFromBeaconResponse lib hashes data = .ok blobs →
        Found lib hashes data blobs) ↔
      (∃ item ∈ data, ¬ lib.Readable hashes item) ∨ Listed lib hashes data) ∧
    ∀ (d d' : Downloader Blob) http thisBlock nextBlock,
      d.processBlock lib http thisBlock nextBlock = .ok () d' →
      (HadAll lib d http thisBlock nextBlock ↔
        ∀ hash ∈ getBlockTxBlobs thisBlock d.targetContract, ∃ response,
          d.getSidecarsFromNextBlock http nextBlock = .ok (some response) ∧
          ∃ item ∈ response.data, lib.versionedHashOf item = some hash) := by
  refine ⟨fun hashes data => ⟨?_, ?_⟩, fun d d' http thisBlock nextBlock h => hadAll_iff h⟩
  · intro hfound
    by_cases hread : ∀ item ∈ data, lib.Readable hashes item
    · have hok := getBlobs_ok_iff.mpr ⟨hread, rfl⟩
      exact Or.inr ((found_iff_listed hok).mp (hfound _ hok))
    · exact Or.inl (by simpa using hread)
  · rintro (⟨item, hm, hunread⟩ | hlisted) blobs hok
    · exact absurd ((getBlobs_ok_iff.mp hok).1 item hm) hunread
    · exact (found_iff_listed hok).mpr hlisted

/-- The beacon node no longer has the sidecars of a block with a blob of the
target. The scan finds nothing wrong, and the block is passed. -/
theorem pruned_blob_passed :
    getBlobsFromBeaconResponse plainLibraries [[1, 0]] [] = .ok [] ∧
    ¬ Found plainLibraries [[1, 0]] [] [] ∧
    ∃ d', (Downloader.new ⟨"", "", [], 0, 5⟩ none).processBlock plainLibraries
        (fun _ => .ok ⟨[]⟩) (plainBlock 0 [[1, 0]]) (plainBlock 1 []) = .ok () d' ∧
      ¬ HadAll plainLibraries (Downloader.new ⟨"", "", [], 0, 5⟩ none) (fun _ => .ok ⟨[]⟩)
        (plainBlock 0 [[1, 0]]) (plainBlock 1 []) := by
  refine ⟨rfl, ?_, _, rfl, ?_⟩
  · intro hfound
    obtain ⟨item, hm, -⟩ := hfound [1, 0] (by decide)
    simp at hm
  · intro hall
    obtain ⟨response, -, hresponse, -, item, hm, -⟩ := hall [1, 0] (by decide)
    obtain rfl : ⟨[]⟩ = response := Option.some.inj (Except.ok.inj hresponse)
    simp at hm

theorem requested_blobs_found_one :
    Found plainLibraries [[1, 0]] [⟨"", "0x99"⟩, ⟨"3006", "0x70"⟩] [(⟨3, 0, false⟩, 6)] := by
  have hok : getBlobsFromBeaconResponse plainLibraries [[1, 0]]
      [⟨"", "0x99"⟩, ⟨"3006", "0x70"⟩] = .ok [(⟨3, 0, false⟩, 6)] := by decide
  refine ((requested_blobs_found_iff plainLibraries).1 _ _).mpr (Or.inr ?_) _ hok
  intro hash hh
  obtain rfl := List.mem_singleton.mp hh
  exact ⟨⟨"3006", "0x70"⟩, by decide, by decide⟩

end Downloader
end Watchtower
