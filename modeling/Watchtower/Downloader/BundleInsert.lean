import Mathlib.Data.List.TakeWhile
import Watchtower.Downloader.BundleBuffer
import Watchtower.Lib.Ordered

namespace Watchtower.Downloader
open Lib

namespace IncompleteBundleBuffers

variable {Blob : Type} {codec : Codec Blob}

theorem binarySearchByKey_split {front back : List (BlobHeader × Blob)} {i : Nat}
    (hf : ∀ e ∈ front, e.1.idx < i) (hb : ∀ e ∈ back, i < e.1.idx) :
    binarySearchByKey (front ++ back) i = .error front.length := by
  have hplace : (front ++ back).takeWhile (fun e => e.1.idx < i) = front :=
    takeWhile_around (by simpa using hf) (fun e he => by simpa using Nat.le_of_lt (hb e he))
  simp only [binarySearchByKey, hplace, List.getElem?_append_right (Nat.le_refl _), Nat.sub_self]
  cases back with
  | nil => rfl
  | cons e back =>
    have := hb e List.mem_cons_self
    simp [Nat.ne_of_gt this]

theorem inPosition_iff {k : Nat} {l : List (BlobHeader × Blob)} :
    inPosition k l = true ↔ ∀ j e, l[j]? = some e → e.1.idx = k + j := by
  induction l generalizing k with
  | nil => simp [inPosition]
  | cons e l ih =>
    simp only [inPosition, Bool.and_eq_true, decide_eq_true_eq, ih]
    constructor
    · intro h j a hj
      obtain ⟨he, hl⟩ := h
      cases j with
      | zero =>
        simp only [List.getElem?_cons_zero, Option.some.injEq] at hj
        exact hj ▸ he
      | succ j =>
        have := hl j a (by simpa using hj)
        omega
    · intro h
      refine ⟨by simpa using h 0 e rfl, fun j a hj => ?_⟩
      have := h (j + 1) a (by simpa using hj)
      omega

/-- All blobs of a bundle: they count from 0, and the last one is marked as such. -/
def Complete (blobs : List (BlobHeader × Blob)) : Prop :=
  (∃ last, blobs.getLast? = some last ∧ last.1.isLast = true) ∧
    blobs.map (fun e => e.1.idx) = List.range blobs.length

theorem Complete.idx_eq {blobs : List (BlobHeader × Blob)} (h : Complete blobs) {j : Nat}
    {e : BlobHeader × Blob} (hj : blobs[j]? = some e) : e.1.idx = j := by
  have hlt := (List.getElem?_eq_some_iff.mp hj).1
  have hat := congrArg (fun l : List Nat => l[j]?) h.2
  simpa only [List.getElem?_map, hj, Option.map_some, List.getElem?_range hlt,
    Option.some.injEq] using hat

/-- The two tests of the source come to that on a list with a blob on it. -/
theorem tests_iff_complete {blobs : List (BlobHeader × Blob)} (hne : blobs ≠ []) :
    (lastIsLast blobs && inPosition 0 blobs) = true ↔ Complete blobs := by
  obtain ⟨last, hlast⟩ := Option.ne_none_iff_exists'.mp (mt List.getLast?_eq_none_iff.mp hne)
  have hmark : lastIsLast blobs = last.1.isLast := by
    simp only [lastIsLast, hlast]
  rw [Bool.and_eq_true, hmark, inPosition_iff]
  constructor
  · intro h
    obtain ⟨hlastIs, hidx⟩ := h
    refine ⟨⟨last, hlast, hlastIs⟩, List.ext_getElem? (fun j => ?_)⟩
    rw [List.getElem?_map]
    cases hj : blobs[j]? with
    | none =>
      have := List.getElem?_eq_none_iff.mp hj
      simp [this]
    | some e =>
      have hlt := (List.getElem?_eq_some_iff.mp hj).1
      simp [hidx j e hj, hlt]
  · intro h
    obtain ⟨other, hother, hmarked⟩ := h.1
    obtain rfl := Option.some.inj (hlast.symm.trans hother)
    refine ⟨hmarked, fun j e hj => ?_⟩
    rw [Nat.zero_add]
    exact h.idx_eq hj

/-- In a list in order of index, the search finds the index or the place for it. -/
theorem binarySearchByKey_cases {blobs : List (BlobHeader × Blob)}
    (h : blobs.Pairwise (fun a b => a.1.idx < b.1.idx)) (i : Nat) :
    (∃ place, binarySearchByKey blobs i = .ok place ∧ ∃ e ∈ blobs, e.1.idx = i) ∨
      ∃ front back, blobs = front ++ back ∧ (∀ e ∈ front, e.1.idx < i) ∧
        ∀ e ∈ back, i < e.1.idx := by
  have hsplit := List.takeWhile_append_dropWhile (p := fun e => e.1.idx < i) (l := blobs)
  have hfront : ∀ e ∈ blobs.takeWhile (fun e => e.1.idx < i), e.1.idx < i := by
    intro e he
    simpa using List.mem_takeWhile_imp he
  cases hback : blobs.dropWhile (fun e => e.1.idx < i) with
  | nil =>
    rw [hback] at hsplit
    exact Or.inr ⟨_, [], hsplit.symm, hfront, by simp⟩
  | cons e back =>
    rw [hback] at hsplit
    have hle : i ≤ e.1.idx := by
      have := List.head_dropWhile_not (fun e : BlobHeader × Blob => e.1.idx < i) (l := blobs)
        (by simp [hback])
      simpa [hback] using this
    rcases Nat.eq_or_lt_of_le hle with heq | hlt
    · refine Or.inl ⟨(blobs.takeWhile (fun e => e.1.idx < i)).length, ?_, e, ?_, heq.symm⟩
      · have hat : blobs[(blobs.takeWhile (fun e => e.1.idx < i)).length]? = some e := by
          have := congrArg (fun l => l[(blobs.takeWhile (fun e => e.1.idx < i)).length]?) hsplit
          simpa only [List.getElem?_append_right (Nat.le_refl _), Nat.sub_self,
            List.getElem?_cons_zero] using this.symm
        simp only [binarySearchByKey, hat, heq.symm, if_true]
      · rw [← hsplit]
        exact List.mem_append_right _ List.mem_cons_self
    · refine Or.inr ⟨_, _, hsplit.symm, hfront, ?_⟩
      intro other hm
      rw [← hsplit] at h
      rcases List.mem_cons.mp hm with rfl | hm
      · exact hlt
      · exact hlt.trans ((keys_around (fun e : BlobHeader × Blob => e.1.idx) h).2 other hm)

/-- What becomes of the blobs of a complete bundle, which is out of the buffers. -/
def handOut (codec : Codec Blob) (blobs : List Blob) (after : IncompleteBundleBuffers Blob) :
    EStateM.Result Error (IncompleteBundleBuffers Blob) Inserted :=
  match codec.decode blobs with
  | .error err => .error err after
  | .ok bytes =>
    match codec.decodeBundle bytes with
    | .error err => .error err after
    | .ok bundle => .ok (.complete bundle) after

theorem handOut_cases (codec : Codec Blob) (blobs : List Blob)
    (after : IncompleteBundleBuffers Blob) :
    (∃ err, handOut codec blobs after = .error err after) ∨
      ∃ bundle, handOut codec blobs after = .ok (.complete bundle) after := by
  unfold handOut
  cases codec.decode blobs with
  | error err => exact Or.inl ⟨err, rfl⟩
  | ok bytes =>
    dsimp only
    cases codec.decodeBundle bytes with
    | error err => exact Or.inl ⟨err, rfl⟩
    | ok bundle => exact Or.inr ⟨bundle, rfl⟩

/-- The blobs there are of a bundle, none if it has not begun. -/
def blobsOf (buffers : IncompleteBundleBuffers Blob) (id : Nat) : List (BlobHeader × Blob) :=
  (buffers.bundleBufferById.get? id).getD []

/-- The place of a blob among those of its bundle, none of which has its index. -/
structure Placed (codec : Codec Blob) (buffers : IncompleteBundleBuffers Blob) (blob : Blob)
    (header : BlobHeader) (front back : List (BlobHeader × Blob)) : Prop where
  read : codec.readHeader blob = .ok header
  split : buffers.blobsOf header.bundleId = front ++ back
  before : ∀ e ∈ front, e.1.idx < header.idx
  behind : ∀ e ∈ back, header.idx < e.1.idx

section insert

variable {buffers : IncompleteBundleBuffers Blob} {blob : Blob} {header : BlobHeader}
  {front back : List (BlobHeader × Blob)}

theorem insert_unreadable {err : Error} (hread : codec.readHeader blob = .error err) :
    insert codec buffers blob = .error err buffers := by
  simp only [insert, hread]

/-- A bundle that has a blob has its entry, so that none is made for the search. -/
theorem insert_duplicate {place : Nat} (hread : codec.readHeader blob = .ok header)
    (hfound : binarySearchByKey (buffers.blobsOf header.bundleId) header.idx = .ok place)
    (hne : buffers.blobsOf header.bundleId ≠ []) :
    insert codec buffers blob =
      .error s!"Duplicate blob with index {header.idx}" buffers := by
  obtain ⟨blobs, hblobs⟩ : ∃ blobs,
      buffers.bundleBufferById.get? header.bundleId = some blobs := by
    apply Option.ne_none_iff_exists'.mp
    intro hnone
    exact hne (by rw [blobsOf, hnone]; rfl)
  rw [blobsOf, hblobs, Option.getD_some] at hfound
  simp only [insert, hread, hblobs, Option.getD_some, hfound, SortedMap.insert_get? hblobs]

theorem insert_incomplete (h : Placed codec buffers blob header front back)
    (hnot : ¬ Complete (front ++ (header, blob) :: back)) :
    insert codec buffers blob = .ok .incomplete
      ⟨buffers.bundleBufferById.insert header.bundleId (front ++ (header, blob) :: back)⟩ := by
  rw [← tests_iff_complete (by simp)] at hnot
  have hblobs : (buffers.bundleBufferById.get? header.bundleId).getD [] = front ++ back := h.split
  simp only [insert, h.read, hblobs, binarySearchByKey_split h.before h.behind, insertIdx_middle,
    if_neg hnot]

theorem insert_complete (h : Placed codec buffers blob header front back)
    (hall : Complete (front ++ (header, blob) :: back)) :
    insert codec buffers blob = handOut codec ((front ++ (header, blob) :: back).map Prod.snd)
      ⟨buffers.bundleBufferById.erase header.bundleId⟩ := by
  rw [← tests_iff_complete (by simp)] at hall
  have hblobs : (buffers.bundleBufferById.get? header.bundleId).getD [] = front ++ back := h.split
  have hsearch := binarySearchByKey_split h.before h.behind
  cases hdecode : codec.decode ((front ++ (header, blob) :: back).map Prod.snd) with
  | error err =>
    simp only [insert, handOut, h.read, hblobs, hsearch, insertIdx_middle, hall, if_true,
      SortedMap.erase_insert, hdecode]
  | ok bytes =>
    cases hbundle : codec.decodeBundle bytes <;>
      simp only [insert, handOut, h.read, hblobs, hsearch, insertIdx_middle, hall, if_true,
        SortedMap.erase_insert, hdecode, hbundle]

end insert

end IncompleteBundleBuffers
end Watchtower.Downloader
