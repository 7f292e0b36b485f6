import Mathlib.Data.List.Perm.Basic
import Watchtower.Downloader.BundleInsert
import Watchtower.Lib.Result

namespace Watchtower.Downloader
open Lib

variable {Blob : Type}

namespace IncompleteBundleBuffers

/-- An entry of the buffers: some blobs of the bundle in order of index, each
behind its header, but not all there are. -/
structure Stored (codec : Codec Blob) (id : Nat) (blobs : List (BlobHeader × Blob)) : Prop where
  nonempty : blobs ≠ []
  ordered : blobs.Pairwise (fun a b => a.1.idx < b.1.idx)
  own : ∀ e ∈ blobs, e.1.bundleId = id
  read : ∀ e ∈ blobs, codec.readHeader e.2 = .ok e.1
  incomplete : ¬ Complete blobs

end IncompleteBundleBuffers

open IncompleteBundleBuffers

/-- The buffers, and the blobs filed under each id since its entry was made, in
order of arrival. -/
structure Filing (Blob : Type) where
  buffers : IncompleteBundleBuffers Blob
  filed : Nat → List Blob

namespace Filing

def empty : Filing Blob := ⟨IncompleteBundleBuffers.empty, fun _ => []⟩

/-- Where the blob went, if the insert did not fail and the bundle still waits
for others. -/
def filedUnder (codec : Codec Blob) (blob : Blob) :
    EStateM.Result Error (IncompleteBundleBuffers Blob) Inserted → Option Nat
  | .ok .incomplete _ => (codec.readHeader blob).toOption.map BlobHeader.bundleId
  | _ => none

/-- One more insert. With an entry goes what is filed under its id. -/
def record (codec : Codec Blob) (x : Filing Blob) (blob : Blob) : Filing Blob :=
  let result := insert codec x.buffers blob
  let after := finalState result
  { buffers := after
    filed := fun id =>
      if (after.bundleBufferById.get? id).isNone then []
      else if filedUnder codec blob result = some id then x.filed id ++ [blob]
      else x.filed id }

def after (codec : Codec Blob) (history : List Blob) : Filing Blob :=
  history.foldl (record codec) empty

/-- Everything an insert can come to. -/
inductive Effect (codec : Codec Blob) (x : Filing Blob) (blob : Blob) : Prop where
  | unreadable (err : Error) (read : codec.readHeader blob = .error err)
      (result : insert codec x.buffers blob = .error err x.buffers)
  | duplicate (header : BlobHeader) (read : codec.readHeader blob = .ok header)
      (there : ∃ e ∈ x.buffers.blobsOf header.bundleId, e.1.idx = header.idx)
      (result : insert codec x.buffers blob =
        .error s!"Duplicate blob with index {header.idx}" x.buffers)
  | incomplete (header : BlobHeader) (front back : List (BlobHeader × Blob))
      (after : IncompleteBundleBuffers Blob)
      (placed : Placed codec x.buffers blob header front back)
      (waits : ¬ Complete (front ++ (header, blob) :: back))
      (result : insert codec x.buffers blob = .ok .incomplete after)
      (own : after.bundleBufferById.get? header.bundleId =
        some (front ++ (header, blob) :: back))
      (others : ∀ id, id ≠ header.bundleId →
        after.bundleBufferById.get? id = x.buffers.bundleBufferById.get? id)
  /-- The blobs that go to `decode` are those filed, and this one. Whatever
  `decode` does with them, the entry is gone. -/
  | complete (header : BlobHeader) (front back : List (BlobHeader × Blob)) (blobs : List Blob)
      (after : IncompleteBundleBuffers Blob)
      (placed : Placed codec x.buffers blob header front back)
      (all : Complete (front ++ (header, blob) :: back))
      (given : blobs.Perm (x.filed header.bundleId ++ [blob]))
      (numbered : ∀ i b, blobs[i]? = some b → ∃ h : BlobHeader,
        codec.readHeader b = .ok h ∧ h.bundleId = header.bundleId ∧ h.idx = i)
      (result : ∀ decode decodeBundle,
        insert ⟨codec.readHeader, decode, decodeBundle⟩ x.buffers blob =
          handOut ⟨codec.readHeader, decode, decodeBundle⟩ blobs after)
      (own : after.bundleBufferById.get? header.bundleId = none)
      (others : ∀ id, id ≠ header.bundleId →
        after.bundleBufferById.get? id = x.buffers.bundleBufferById.get? id)

/-- The entries are as they should be, and hold what was filed. -/
structure Tracked (codec : Codec Blob) (x : Filing Blob) : Prop where
  stored : ∀ id blobs, x.buffers.bundleBufferById.get? id = some blobs → Stored codec id blobs
  filed : ∀ id, ((x.buffers.blobsOf id).map Prod.snd).Perm (x.filed id)

variable {codec : Codec Blob} {x : Filing Blob} {blob : Blob}

theorem tracked_empty (codec : Codec Blob) : Tracked codec (empty : Filing Blob) := by
  refine ⟨fun id blobs h => ?_, fun id => ?_⟩
  · exact absurd h (by simp [empty, IncompleteBundleBuffers.empty])
  · simp [empty, IncompleteBundleBuffers.empty, blobsOf]

theorem record_buffers (codec : Codec Blob) (x : Filing Blob) (blob : Blob) :
    (record codec x blob).buffers = finalState (insert codec x.buffers blob) := rfl

theorem record_filed {id : Nat} {blobs : List (BlobHeader × Blob)}
    (hget : (record codec x blob).buffers.bundleBufferById.get? id = some blobs)
    (hunder : filedUnder codec blob (insert codec x.buffers blob) = some id) :
    (record codec x blob).filed id = x.filed id ++ [blob] := by
  rw [record_buffers] at hget
  simp only [record, hget, hunder, Option.isNone_some, Bool.false_eq_true, if_false, if_true]

theorem record_gone {id : Nat}
    (hget : (record codec x blob).buffers.bundleBufferById.get? id = none) :
    (record codec x blob).filed id = [] := by
  rw [record_buffers] at hget
  simp only [record, hget, Option.isNone_none, if_true]

theorem finalState_handOut (codec : Codec Blob) (blobs : List Blob)
    (after : IncompleteBundleBuffers Blob) : finalState (handOut codec blobs after) = after := by
  rcases handOut_cases codec blobs after with ⟨err, he⟩ | ⟨bundle, he⟩ <;> rw [he] <;> rfl

theorem filedUnder_handOut (codec : Codec Blob) (blob : Blob) (blobs : List Blob)
    (after : IncompleteBundleBuffers Blob) :
    filedUnder codec blob (handOut codec blobs after) = none := by
  rcases handOut_cases codec blobs after with ⟨err, he⟩ | ⟨bundle, he⟩ <;> rw [he] <;> rfl

namespace Tracked

theorem stored_of_mem (h : Tracked codec x) {id : Nat} {e : BlobHeader × Blob}
    (he : e ∈ x.buffers.blobsOf id) : Stored codec id (x.buffers.blobsOf id) := by
  cases hget : x.buffers.bundleBufferById.get? id with
  | none => simp [blobsOf, hget] at he
  | some blobs =>
    rw [blobsOf, hget]
    exact h.stored id blobs hget

theorem ordered (h : Tracked codec x) (id : Nat) :
    (x.buffers.blobsOf id).Pairwise (fun a b => a.1.idx < b.1.idx) := by
  cases hblobs : x.buffers.blobsOf id with
  | nil => exact List.Pairwise.nil
  | cons e rest =>
    rw [← hblobs]
    exact (h.stored_of_mem (e := e) (by simp [hblobs])).ordered

section placed

variable {header : BlobHeader} {front back : List (BlobHeader × Blob)}

/-- With the blob in its place, every blob still stands behind its own header. -/
theorem headers (h : Tracked codec x) (p : Placed codec x.buffers blob header front back)
    {e : BlobHeader × Blob} (he : e ∈ front ++ (header, blob) :: back) :
    e.1.bundleId = header.bundleId ∧ codec.readHeader e.2 = .ok e.1 := by
  rcases List.mem_cons.mp (List.perm_middle.mem_iff.mp he) with rfl | he
  · exact ⟨rfl, p.read⟩
  · rw [← p.split] at he
    have hstored := h.stored_of_mem he
    exact ⟨hstored.own e he, hstored.read e he⟩

theorem stored_placed (h : Tracked codec x) (p : Placed codec x.buffers blob header front back)
    (hnot : ¬ Complete (front ++ (header, blob) :: back)) :
    Stored codec header.bundleId (front ++ (header, blob) :: back) where
  nonempty := by simp
  ordered := by
    have hord := h.ordered header.bundleId
    rw [p.split] at hord
    exact ordered_around (fun e : BlobHeader × Blob => e.1.idx) hord p.before p.behind
  own := fun _ he => (h.headers p he).1
  read := fun _ he => (h.headers p he).2
  incomplete := hnot

theorem given (h : Tracked codec x) (p : Placed codec x.buffers blob header front back) :
    ((front ++ (header, blob) :: back).map Prod.snd).Perm
      (x.filed header.bundleId ++ [blob]) := by
  have hfiled := h.filed header.bundleId
  rw [p.split] at hfiled
  have hmiddle : ((front ++ (header, blob) :: back).map Prod.snd).Perm
      (blob :: (front ++ back).map Prod.snd) := List.perm_middle.map Prod.snd
  exact (hmiddle.trans (hfiled.cons blob)).trans (List.perm_append_singleton _ _).symm

/-- A complete bundle has the blob of every index at that place. -/
theorem numbered (h : Tracked codec x) (p : Placed codec x.buffers blob header front back)
    (hall : Complete (front ++ (header, blob) :: back)) (i : Nat) (b : Blob)
    (hb : ((front ++ (header, blob) :: back).map Prod.snd)[i]? = some b) :
    ∃ h : BlobHeader, codec.readHeader b = .ok h ∧ h.bundleId = header.bundleId ∧ h.idx = i := by
  rw [List.getElem?_map] at hb
  obtain ⟨e, he, rfl⟩ := Option.map_eq_some_iff.mp hb
  obtain ⟨hid, hread⟩ := h.headers p (List.mem_of_getElem? he)
  exact ⟨e.1, hread, hid, hall.idx_eq he⟩

end placed

theorem effect (h : Tracked codec x) (blob : Blob) : Effect codec x blob := by
  cases hread : codec.readHeader blob with
  | error err => exact .unreadable err hread (insert_unreadable hread)
  | ok header =>
    rcases binarySearchByKey_cases (h.ordered header.bundleId) header.idx with
      ⟨place, hfound, e, he, hidx⟩ | ⟨front, back, hsplit, hbefore, hbehind⟩
    · exact .duplicate header hread ⟨e, he, hidx⟩
        (insert_duplicate hread hfound (List.ne_nil_of_mem he))
    · have hplaced : Placed codec x.buffers blob header front back :=
        ⟨hread, hsplit, hbefore, hbehind⟩
      by_cases hall : Complete (front ++ (header, blob) :: back)
      · exact .complete header front back _ _ hplaced hall (h.given hplaced)
          (h.numbered hplaced hall)
          (fun _ _ => insert_complete ⟨hread, hsplit, hbefore, hbehind⟩ hall)
          (SortedMap.get?_erase_self _ _) (fun id hid => SortedMap.get?_erase_of_ne _ hid)
      · exact .incomplete header front back _ hplaced hall (insert_incomplete hplaced hall)
          (SortedMap.get?_insert_self _ _ _) (fun id hid => SortedMap.get?_insert_of_ne _ _ hid)

theorem filed_gone (h : Tracked codec x) {id : Nat}
    (hnone : x.buffers.bundleBufferById.get? id = none) : x.filed id = [] := by
  have hfiled := h.filed id
  rw [blobsOf, hnone] at hfiled
  exact List.nil_perm.mp hfiled

/-- An insert that leaves an entry alone leaves what is filed there alone too. -/
theorem filed_record (h : Tracked codec x) {id : Nat}
    (hsame : (record codec x blob).buffers.bundleBufferById.get? id =
      x.buffers.bundleBufferById.get? id)
    (hunder : filedUnder codec blob (insert codec x.buffers blob) ≠ some id) :
    (record codec x blob).filed id = x.filed id := by
  rw [record_buffers] at hsame
  simp only [record, hsame, if_neg hunder]
  cases hget : x.buffers.bundleBufferById.get? id with
  | none => exact (h.filed_gone hget).symm
  | some blobs => rfl

theorem record_failed (h : Tracked codec x) {err : Error}
    (hresult : insert codec x.buffers blob = .error err x.buffers) :
    Tracked codec (record codec x blob) := by
  have hbuffers : (record codec x blob).buffers = x.buffers := by
    rw [record_buffers, hresult, finalState_error]
  refine ⟨fun id blobs hget => h.stored id blobs (hbuffers ▸ hget), fun id => ?_⟩
  have hunder : filedUnder codec blob (insert codec x.buffers blob) ≠ some id := by
    rw [hresult]
    exact Option.some_ne_none id |>.symm
  rw [h.filed_record (by rw [hbuffers]) hunder, hbuffers]
  exact h.filed id

/-- Entries other than the one the blob belongs to are tracked as before. -/
theorem record_of_own (h : Tracked codec x) (own : Nat)
    (others : ∀ id, id ≠ own → (record codec x blob).buffers.bundleBufferById.get? id =
      x.buffers.bundleBufferById.get? id)
    (hunder : ∀ id, id ≠ own → filedUnder codec blob (insert codec x.buffers blob) ≠ some id)
    (hstored : ∀ blobs, (record codec x blob).buffers.bundleBufferById.get? own = some blobs →
      Stored codec own blobs)
    (hfiled : (((record codec x blob).buffers.blobsOf own).map Prod.snd).Perm
      ((record codec x blob).filed own)) :
    Tracked codec (record codec x blob) := by
  refine ⟨fun id blobs hget => ?_, fun id => ?_⟩
  · by_cases he : id = own
    · subst he
      exact hstored blobs hget
    · exact h.stored id blobs ((others id he).symm.trans hget)
  · by_cases he : id = own
    · subst he
      exact hfiled
    · rw [blobsOf, others id he, h.filed_record (others id he) (hunder id he)]
      exact h.filed id

theorem record (h : Tracked codec x) (blob : Blob) : Tracked codec (record codec x blob) := by
  cases h.effect blob with
  | unreadable err read result => exact h.record_failed result
  | duplicate header read there result => exact h.record_failed result
  | incomplete header front back after placed waits result own others =>
    have hunder : filedUnder codec blob (insert codec x.buffers blob) =
        some header.bundleId := by
      rw [result, filedUnder, placed.read]
      rfl
    have hbuffers : (Filing.record codec x blob).buffers = after := by
      rw [record_buffers, result, finalState_ok]
    refine h.record_of_own header.bundleId (fun id hid => hbuffers ▸ others id hid)
      (fun id hid => ?_) (fun blobs hget => ?_) ?_
    · rw [hunder]
      exact fun he => hid (Option.some.inj he).symm
    · rw [hbuffers, own] at hget
      exact Option.some.inj hget ▸ h.stored_placed placed waits
    · rw [record_filed (hbuffers ▸ own) hunder, hbuffers, blobsOf, own]
      exact h.given placed
  | complete header front back blobs after placed all given numbered result own others =>
    have hresult : insert codec x.buffers blob = handOut codec blobs after := result _ _
    have hbuffers : (Filing.record codec x blob).buffers = after := by
      rw [record_buffers, hresult, finalState_handOut]
    refine h.record_of_own header.bundleId (fun id hid => hbuffers ▸ others id hid)
      (fun id _ => ?_) (fun blobs hget => ?_) ?_
    · rw [hresult, filedUnder_handOut]
      exact Option.some_ne_none id |>.symm
    · rw [hbuffers, own] at hget
      cases hget
    · rw [record_gone (hbuffers ▸ own), hbuffers, blobsOf, own]
      exact List.Perm.nil

end Tracked

theorem tracked_after (codec : Codec Blob) (history : List Blob) :
    Tracked codec (after codec history) := by
  have hrun : ∀ x, Tracked codec x → Tracked codec (history.foldl (record codec) x) := by
    induction history with
    | nil => exact fun x h => h
    | cons blob rest ih => exact fun x h => ih _ (h.record blob)
  exact hrun empty (tracked_empty codec)

/-- After any blobs at all, no entry is empty, out of order, mixed with another
bundle or complete, and one more insert does what one of its exits says. -/
theorem insert_effects (codec : Codec Blob) (history : List Blob) :
    (∀ id blobs, (after codec history).buffers.bundleBufferById.get? id = some blobs →
      Stored codec id blobs) ∧
    ∀ blob, Effect codec (after codec history) blob :=
  ⟨(tracked_after codec history).stored, (tracked_after codec history).effect⟩

end Filing
end Watchtower.Downloader
