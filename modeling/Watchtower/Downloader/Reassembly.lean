import Mathlib.Data.List.Perm.Basic
import Watchtower.Downloader.BundleInsert

namespace Watchtower.Downloader
open Lib

variable {Blob : Type}

/-- A bundle as it is posted: at least one blob, numbered from 0 under one id,
the last and no other marked as such, and the codec turns them back into it. -/
structure PostedBundle (codec : Codec Blob) where
  id : Nat
  blobs : List Blob
  bundle : Bundle
  nonempty : blobs ≠ []
  headers : ∀ i blob, blobs[i]? = some blob →
    codec.readHeader blob = .ok (.v1 ⟨id, i, decide (i + 1 = blobs.length)⟩)
  decodes : ∃ bytes, codec.decode blobs = .ok bytes ∧ codec.decodeBundle bytes = .ok bundle

namespace PostedBundle

variable {codec : Codec Blob}

def header (p : PostedBundle codec) (i : Nat) : BlobHeader :=
  .v1 ⟨p.id, i, decide (i + 1 = p.blobs.length)⟩

/-- The buffer of the bundle were all its blobs there. -/
def entries (p : PostedBundle codec) : List (BlobHeader × Blob) :=
  p.blobs.mapIdx (fun i blob => (p.header i, blob))

theorem entries_getElem? (p : PostedBundle codec) (i : Nat) :
    p.entries[i]? = p.blobs[i]?.map (fun blob => (p.header i, blob)) := by
  simp [entries]

theorem length_entries (p : PostedBundle codec) : p.entries.length = p.blobs.length := by
  simp [entries]

theorem entries_snd (p : PostedBundle codec) : p.entries.map Prod.snd = p.blobs := by
  apply List.ext_getElem?
  intro i
  rw [List.getElem?_map, entries_getElem?]
  cases p.blobs[i]? <;> rfl

theorem mem_entries {p : PostedBundle codec} {e : BlobHeader × Blob} :
    e ∈ p.entries ↔ ∃ i, p.blobs[i]? = some e.2 ∧ e.1 = p.header i := by
  rw [List.mem_iff_getElem?]
  apply exists_congr
  intro i
  rw [entries_getElem?]
  constructor
  · intro h
    obtain ⟨blob, hb, rfl⟩ := Option.map_eq_some_iff.mp h
    exact ⟨hb, rfl⟩
  · intro h
    obtain ⟨hb, he⟩ := h
    rw [hb, Option.map_some, ← he]

theorem entries_ordered (p : PostedBundle codec) :
    p.entries.Pairwise (fun a b => a.1.idx < b.1.idx) := by
  rw [List.pairwise_iff_getElem]
  intro i j hi hj hij
  simpa [entries, header, BlobHeader.idx] using hij

theorem entries_nodup (p : PostedBundle codec) : p.entries.Nodup :=
  p.entries_ordered.imp (fun hlt => by rintro rfl; exact Nat.lt_irrefl _ hlt)

theorem header_inj {p q : PostedBundle codec} {i j : Nat} {blob : Blob}
    (hi : p.blobs[i]? = some blob) (hj : q.blobs[j]? = some blob) : p.id = q.id ∧ i = j := by
  have h := (p.headers i blob hi).symm.trans (q.headers j blob hj)
  simp only [Except.ok.injEq, BlobHeader.v1.injEq, HeaderV1.mk.injEq] at h
  exact ⟨h.1, h.2.1⟩

theorem blobs_nodup (p : PostedBundle codec) : p.blobs.Nodup := by
  rw [List.nodup_iff_injective_get]
  intro i j hij
  have hi : p.blobs[i.val]? = some (p.blobs.get i) := by simp
  have hj : p.blobs[j.val]? = some (p.blobs.get i) := by rw [hij]; simp
  exact Fin.ext (header_inj hi hj).2

/-- A blob belongs to bundles of one id only. -/
theorem id_eq_of_mem {p q : PostedBundle codec} {blob : Blob} (hp : blob ∈ p.blobs)
    (hq : blob ∈ q.blobs) : p.id = q.id := by
  obtain ⟨i, hi⟩ := List.mem_iff_getElem?.mp hp
  obtain ⟨j, hj⟩ := List.mem_iff_getElem?.mp hq
  exact (header_inj hi hj).1

variable [DecidableEq Blob]

/-- The buffer of the bundle once the blobs of `arrived` are there. -/
def stored (p : PostedBundle codec) (arrived : List Blob) : List (BlobHeader × Blob) :=
  p.entries.filter (fun e => e.2 ∈ arrived)

def allIn (p : PostedBundle codec) (arrived : List Blob) : Bool :=
  p.blobs.all (· ∈ arrived)

theorem allIn_iff {p : PostedBundle codec} {arrived : List Blob} :
    p.allIn arrived = true ↔ ∀ blob ∈ p.blobs, blob ∈ arrived := by
  simp [allIn]

theorem stored_eq_entries {p : PostedBundle codec} {arrived : List Blob} :
    p.stored arrived = p.entries ↔ p.allIn arrived = true := by
  rw [stored, List.filter_eq_self, allIn_iff, ← p.entries_snd]
  simp only [List.mem_map, forall_exists_index, and_imp, decide_eq_true_eq]
  exact ⟨fun h blob e he hb => hb ▸ h e he, fun h e he => h e.2 e he rfl⟩

/-- One more blob of the bundle goes to its place in the buffer, between those
of smaller and those of larger index. -/
theorem stored_snoc {p : PostedBundle codec} {arrived : List Blob} {i : Nat} {blob : Blob}
    (hi : p.blobs[i]? = some blob) (hnew : blob ∉ arrived) :
    ∃ front back, p.stored arrived = front ++ back ∧
      p.stored (arrived ++ [blob]) = front ++ (p.header i, blob) :: back ∧
      (∀ e ∈ front, e.1.idx < i) ∧ ∀ e ∈ back, i < e.1.idx := by
  have hmem : (p.header i, blob) ∈ p.entries := mem_entries.mpr ⟨i, hi, rfl⟩
  obtain ⟨front, back, hlong, hshort⟩ := filter_split (p := fun e => e.2 ∈ arrived ++ [blob])
    (q := fun e => e.2 ∈ arrived) p.entries_nodup hmem (by simp) (by simpa using hnew) (by
      intro e he hne
      obtain ⟨h, b⟩ := e
      have hb : b ≠ blob := by
        rintro rfl
        obtain ⟨j, hj, hh⟩ := mem_entries.mp he
        exact hne (by rw [show h = p.header j from hh, (header_inj hj hi).2])
      simp [hb])
  have hord := p.entries_ordered.filter (fun e => e.2 ∈ arrived ++ [blob])
  rw [hlong] at hord
  obtain ⟨hf, hb⟩ := keys_around (fun e : BlobHeader × Blob => e.1.idx) hord
  exact ⟨front, back, hshort, hlong, hf, hb⟩

/-- A blob of another bundle changes nothing here. -/
theorem stored_foreign {p : PostedBundle codec} {arrived : List Blob} {blob : Blob}
    (hb : blob ∉ p.blobs) : p.stored (arrived ++ [blob]) = p.stored arrived := by
  apply List.filter_congr
  intro e he
  obtain ⟨h, b⟩ := e
  have hne : b ≠ blob := by
    rintro rfl
    obtain ⟨j, hj, -⟩ := mem_entries.mp he
    exact hb (List.mem_of_getElem? hj)
  simp [hne]

theorem allIn_foreign {p : PostedBundle codec} {arrived : List Blob} {blob : Blob}
    (hb : blob ∉ p.blobs) : p.allIn (arrived ++ [blob]) = p.allIn arrived := by
  rw [Bool.eq_iff_iff, allIn_iff, allIn_iff]
  apply forall₂_congr
  intro b hm
  have hne : b ≠ blob := fun he => hb (he ▸ hm)
  simp [hne]

theorem stored_nil (p : PostedBundle codec) : p.stored [] = [] := by
  simp [stored]

theorem stored_snoc_ne_nil {p : PostedBundle codec} {blob : Blob} (hb : blob ∈ p.blobs)
    (arrived : List Blob) : p.stored (arrived ++ [blob]) ≠ [] := by
  obtain ⟨i, hi⟩ := List.mem_iff_getElem?.mp hb
  have hm : (p.header i, blob) ∈ p.entries := mem_entries.mpr ⟨i, hi, rfl⟩
  exact List.ne_nil_of_mem (List.mem_filter.mpr ⟨hm, by simp⟩)

theorem stored_sublist (p : PostedBundle codec) (arrived : List Blob) :
    (p.stored arrived).Sublist p.entries := List.filter_sublist

end PostedBundle

namespace IncompleteBundleBuffers
open PostedBundle

variable {codec : Codec Blob}

/-- The two tests together tell exactly whether all entries of the bundle are there. -/
theorem complete_iff {p : PostedBundle codec} {l : List (BlobHeader × Blob)}
    (hl : l.Sublist p.entries) (hne : l ≠ []) :
    (lastIsLast l && inPosition 0 l) = true ↔ l = p.entries := by
  obtain ⟨last, hlast⟩ := Option.ne_none_iff_exists'.mp (mt List.getLast?_eq_none_iff.mp hne)
  have hpos : 0 < l.length := List.length_pos_iff.mpr hne
  have hend : l[l.length - 1]? = some last := by rwa [← List.getLast?_eq_getElem?]
  have hlastIs : lastIsLast l = last.1.isLast := by
    obtain ⟨h, b⟩ := last
    simp [lastIsLast, hlast]
  obtain ⟨i, hi, hh⟩ := mem_entries.mp (hl.subset (List.mem_of_getElem? hend))
  rw [Bool.and_eq_true, inPosition_iff, hlastIs]
  simp only [hh, header, BlobHeader.isLast, decide_eq_true_eq, Nat.zero_add]
  constructor
  · intro h
    obtain ⟨hn, hidx⟩ := h
    have hat : i = l.length - 1 := by
      have := hidx _ last hend
      rwa [hh] at this
    exact hl.eq_of_length (by rw [length_entries]; omega)
  · rintro rfl
    rw [entries_getElem?, length_entries] at hend
    obtain ⟨b, hb, rfl⟩ := Option.map_eq_some_iff.mp hend
    rw [length_entries] at hpos
    refine ⟨?_, ?_⟩
    · have := (header_inj hi hb).2
      omega
    · intro j e hj
      rw [entries_getElem?] at hj
      obtain ⟨b', -, rfl⟩ := Option.map_eq_some_iff.mp hj
      rfl

theorem eq_of_id_eq {family : List (PostedBundle codec)} {p q : PostedBundle codec}
    (hids : (family.map PostedBundle.id).Nodup) (hp : p ∈ family) (hq : q ∈ family)
    (he : p.id = q.id) : p = q :=
  List.inj_on_of_nodup_map hids hp hq he

theorem nodup_flatMap_blobs {family : List (PostedBundle codec)}
    (hids : (family.map PostedBundle.id).Nodup) :
    (family.flatMap PostedBundle.blobs).Nodup := by
  refine List.nodup_flatMap.mpr ⟨fun p _ => p.blobs_nodup, ?_⟩
  exact (List.pairwise_map.mp hids).imp (fun hne _ hp hq => hne (id_eq_of_mem hp hq))

variable [DecidableEq Blob]

/-- The buffers after the blobs of `arrived`: what is there of each bundle that
has begun and is not complete, and nothing else. -/
structure Holds (family : List (PostedBundle codec)) (arrived : List Blob)
    (buffers : IncompleteBundleBuffers Blob) : Prop where
  own : ∀ p ∈ family, buffers.bundleBufferById.get? p.id =
    if p.stored arrived = [] ∨ p.allIn arrived = true then none else some (p.stored arrived)
  foreign : ∀ id, id ∉ family.map PostedBundle.id → buffers.bundleBufferById.get? id = none

theorem holds_empty (family : List (PostedBundle codec)) : Holds family [] empty := by
  refine ⟨fun p _ => ?_, fun _ _ => rfl⟩
  rw [if_pos (Or.inl p.stored_nil)]
  rfl

/-- What inserting a blob of the bundle gives after the blobs of `arrived`. -/
def outcome (p : PostedBundle codec) (arrived : List Blob) (blob : Blob) : Inserted :=
  if p.allIn (arrived ++ [blob]) then .complete p.bundle else .incomplete

variable {family : List (PostedBundle codec)} {p : PostedBundle codec}
  {arrived : List Blob} {blob : Blob} {buffers : IncompleteBundleBuffers Blob}

theorem Holds.pending (h : Holds family arrived buffers) (hp : p ∈ family) (hb : blob ∈ p.blobs)
    (hnew : blob ∉ arrived) :
    (buffers.bundleBufferById.get? p.id).getD [] = p.stored arrived := by
  have hnot : p.allIn arrived ≠ true := fun ha => hnew (allIn_iff.mp ha blob hb)
  rw [h.own p hp]
  by_cases hs : p.stored arrived = [] <;> simp [hs, hnot]

/-- The bundles other than the one written to are held as before. -/
theorem Holds.others (h : Holds family arrived buffers)
    (hids : (family.map PostedBundle.id).Nodup) (hp : p ∈ family) (hb : blob ∈ p.blobs)
    {after : IncompleteBundleBuffers Blob}
    (hown : after.bundleBufferById.get? p.id =
      if p.allIn (arrived ++ [blob]) = true then none else some (p.stored (arrived ++ [blob])))
    (hrest : ∀ id, id ≠ p.id →
      after.bundleBufferById.get? id = buffers.bundleBufferById.get? id) :
    Holds family (arrived ++ [blob]) after := by
  refine ⟨fun q hq => ?_, fun id hid => ?_⟩
  · by_cases he : q.id = p.id
    · obtain rfl := eq_of_id_eq hids hq hp he
      simp only [hown, stored_snoc_ne_nil hb, false_or]
    · have hqb : blob ∉ q.blobs := fun hm => he (id_eq_of_mem hm hb)
      rw [hrest _ he, h.own q hq, stored_foreign hqb, allIn_foreign hqb]
  · have hne : id ≠ p.id := fun he => hid (List.mem_map.mpr ⟨p, hp, he.symm⟩)
    rw [hrest id hne]
    exact h.foreign id hid

/-- A blob that was not there yet is taken in, and its bundle comes out with
the last one. -/
theorem insert_holds (h : Holds family arrived buffers)
    (hids : (family.map PostedBundle.id).Nodup) (hp : p ∈ family) (hb : blob ∈ p.blobs)
    (hnew : blob ∉ arrived) :
    ∃ after, insert codec buffers blob = .ok (outcome p arrived blob) after ∧
      Holds family (arrived ++ [blob]) after := by
  obtain ⟨i, hi⟩ := List.mem_iff_getElem?.mp hb
  obtain ⟨front, back, hshort, hlong, hf, hbk⟩ := stored_snoc hi hnew
  have hplaced : Placed codec buffers blob (p.header i) front back :=
    ⟨p.headers i blob hi, (h.pending hp hb hnew).trans hshort, hf, hbk⟩
  have htest : Complete (front ++ (p.header i, blob) :: back) ↔
      p.allIn (arrived ++ [blob]) = true := by
    rw [← hlong, ← tests_iff_complete (stored_snoc_ne_nil hb arrived),
      complete_iff (p.stored_sublist _) (stored_snoc_ne_nil hb arrived), stored_eq_entries]
  by_cases hall : p.allIn (arrived ++ [blob]) = true
  · obtain ⟨bytes, hdec, hbun⟩ := p.decodes
    have hblobs : (front ++ (p.header i, blob) :: back).map Prod.snd = p.blobs := by
      rw [← hlong, stored_eq_entries.mpr hall, entries_snd]
    have hinsert := insert_complete hplaced (htest.mpr hall)
    simp only [handOut, hblobs, hdec, hbun] at hinsert
    refine ⟨_, by rw [hinsert, outcome, if_pos hall], h.others hids hp hb ?_ (fun id hid => ?_)⟩
    · rw [if_pos hall]
      exact SortedMap.get?_erase_self _ _
    · exact SortedMap.get?_erase_of_ne _ hid
  · have hinsert := insert_incomplete hplaced (mt htest.mp hall)
    refine ⟨_, by rw [hinsert, outcome, if_neg hall], h.others hids hp hb ?_ (fun id hid => ?_)⟩
    · rw [if_neg hall, hlong]
      exact SortedMap.get?_insert_self _ _ _
    · exact SortedMap.get?_insert_of_ne _ _ hid

theorem Holds.buffers_empty (h : Holds family arrived buffers)
    (hall : ∀ p ∈ family, p.allIn arrived = true) : buffers = empty := by
  obtain ⟨m⟩ := buffers
  refine congrArg IncompleteBundleBuffers.mk (SortedMap.ext_get? (fun id => ?_))
  by_cases hid : id ∈ family.map PostedBundle.id
  · obtain ⟨p, hp, rfl⟩ := List.mem_map.mp hid
    exact (h.own p hp).trans (if_pos (Or.inr (hall p hp)))
  · exact h.foreign id hid

/-- One more blob completes its own bundle at most. -/
theorem completed_snoc (hids : (family.map PostedBundle.id).Nodup) (hp : p ∈ family)
    (hb : blob ∈ p.blobs) (hnew : blob ∉ arrived) :
    ((family.filter (fun q => q.allIn arrived)).map PostedBundle.bundle ++
      (outcome p arrived blob).bundle?.toList).Perm
    ((family.filter (fun q => q.allIn (arrived ++ [blob]))).map PostedBundle.bundle) := by
  have hnot : p.allIn arrived = false := by
    by_contra ha
    exact hnew (allIn_iff.mp (by simpa using ha) blob hb)
  have hothers : ∀ q ∈ family, q ≠ p → q.allIn (arrived ++ [blob]) = q.allIn arrived :=
    fun q hq hne => allIn_foreign (fun hm => hne (eq_of_id_eq hids hq hp (id_eq_of_mem hm hb)))
  by_cases hall : p.allIn (arrived ++ [blob]) = true
  · obtain ⟨front, back, hlong, hshort⟩ :=
      filter_split (hids.of_map _) hp hall hnot hothers
    simp only [outcome, hall, if_true, Inserted.bundle?, Option.toList_some, hlong, hshort,
      List.map_append, List.map_cons]
    exact (List.perm_append_singleton _ _).trans List.perm_middle.symm
  · have hsame : family.filter (fun q => q.allIn (arrived ++ [blob])) =
        family.filter (fun q => q.allIn arrived) := by
      apply List.filter_congr
      intro q hq
      by_cases he : q = p
      · subst he
        rw [hnot, Bool.eq_false_iff]
        exact hall
      · exact hothers q hq he
    simp [outcome, hall, Inserted.bundle?, hsame]

def insertAll (codec : Codec Blob) (buffers : IncompleteBundleBuffers Blob) :
    List Blob → EStateM.Result Error (IncompleteBundleBuffers Blob) (List Inserted)
  | [] => .ok [] buffers
  | blob :: rest =>
    match insert codec buffers blob with
    | .error err buffers => .error err buffers
    | .ok inserted buffers =>
      match insertAll codec buffers rest with
      | .error err buffers => .error err buffers
      | .ok later buffers => .ok (inserted :: later) buffers

/-- Blobs of the family, each at most once, all go in. -/
theorem insertAll_holds (hids : (family.map PostedBundle.id).Nodup) {blobs : List Blob}
    (h : Holds family arrived buffers) (hn : (arrived ++ blobs).Nodup)
    (hof : ∀ blob ∈ blobs, ∃ p ∈ family, blob ∈ p.blobs) :
    ∃ outcomes after, insertAll codec buffers blobs = .ok outcomes after ∧
      Holds family (arrived ++ blobs) after ∧ outcomes.length = blobs.length ∧
      (∀ i blob p, blobs[i]? = some blob → p ∈ family → blob ∈ p.blobs →
        outcomes[i]? = some (outcome p (arrived ++ blobs.take i) blob)) ∧
      ((family.filter (fun p => p.allIn arrived)).map PostedBundle.bundle ++
        outcomes.filterMap Inserted.bundle?).Perm
        ((family.filter (fun p => p.allIn (arrived ++ blobs))).map PostedBundle.bundle) := by
  induction blobs generalizing arrived buffers with
  | nil => exact ⟨[], buffers, rfl, by simpa using h, rfl, by simp, by simp⟩
  | cons blob rest ih =>
    obtain ⟨p, hp, hb⟩ := hof blob List.mem_cons_self
    have hnew : blob ∉ arrived := fun hm =>
      (List.nodup_append.mp hn).2.2 blob hm blob List.mem_cons_self rfl
    obtain ⟨mid, hins, hmid⟩ := insert_holds h hids hp hb hnew
    rw [List.append_cons] at hn
    obtain ⟨outcomes, after, hall, hafter, hlen, hat, hdone⟩ :=
      ih hmid hn (fun b hm => hof b (List.mem_cons_of_mem _ hm))
    refine ⟨outcome p arrived blob :: outcomes, after, ?_, ?_, ?_, ?_, ?_⟩
    · simp only [insertAll, hins, hall]
    · rwa [List.append_cons]
    · simp [hlen]
    · intro i b q hi hq hbq
      cases i with
      | zero =>
        obtain rfl : blob = b := by simpa using hi
        obtain rfl := eq_of_id_eq hids hq hp (id_eq_of_mem hbq hb)
        simp
      | succ i =>
        have := hat i b q (by simpa using hi) hq hbq
        simpa using this
    · rw [List.append_cons]
      refine List.Perm.trans ?_ hdone
      refine List.Perm.trans ?_ ((completed_snoc hids hp hb hnew).append_right _)
      cases hb : (outcome p arrived blob).bundle? <;> simp [hb]

/-- Whatever order the blobs of a family of bundles arrive in, no insert fails,
the last missing blob of each bundle and no other hands that bundle out, and
nothing is left over. -/
theorem reassembles_any_order (codec : Codec Blob) (family : List (PostedBundle codec))
    (arrivals : List Blob) (hids : (family.map PostedBundle.id).Nodup)
    (hperm : arrivals.Perm (family.flatMap PostedBundle.blobs)) :
    ∃ outcomes, insertAll codec empty arrivals = .ok outcomes empty ∧
      outcomes.length = arrivals.length ∧
      (∀ i blob p, arrivals[i]? = some blob → p ∈ family → blob ∈ p.blobs →
        outcomes[i]? = some
          (if ∀ other ∈ p.blobs, other = blob ∨ other ∈ arrivals.take i then .complete p.bundle
            else .incomplete)) ∧
      (outcomes.filterMap Inserted.bundle?).Perm (family.map PostedBundle.bundle) := by
  obtain ⟨outcomes, after, hrun, hafter, hlen, hat, hdone⟩ :=
    insertAll_holds hids (holds_empty family)
      (hperm.nodup_iff.mpr (nodup_flatMap_blobs hids))
      (fun blob hm => List.mem_flatMap.mp (hperm.subset hm))
  rw [List.nil_append] at hafter hdone
  have hall : ∀ p ∈ family, p.allIn arrivals = true := fun p hp =>
    allIn_iff.mpr (fun b hm => hperm.symm.subset (List.mem_flatMap.mpr ⟨p, hp, hm⟩))
  have hnone : family.filter (fun p => p.allIn []) = [] := by
    apply List.filter_eq_nil_iff.mpr
    intro p _ ha
    obtain ⟨b, hm⟩ := List.exists_mem_of_ne_nil _ p.nonempty
    exact absurd (allIn_iff.mp ha b hm) List.not_mem_nil
  obtain rfl := hafter.buffers_empty hall
  refine ⟨outcomes, hrun, hlen, fun i blob p hi hp hb => ?_, ?_⟩
  · rw [hat i blob p hi hp hb]
    simp [outcome, allIn, or_comm]
  · rwa [hnone, List.filter_eq_self.mpr hall] at hdone

end IncompleteBundleBuffers

/-- A codec whose blobs show their header, with one byte of the bundle each. -/
def plainCodec : Codec (HeaderV1 × UInt8) where
  readHeader blob := .ok (.v1 blob.1)
  decode blobs := .ok (blobs.map Prod.snd)
  decodeBundle bytes := .ok (.v1 ⟨bytes.map (fun byte => [byte])⟩)

/-- The bundle of the given bytes, one blob and one Fuel block a byte. -/
def plainBundle (id : Nat) (bytes : Bytes) (h : bytes ≠ []) : PostedBundle plainCodec where
  id := id
  blobs := bytes.mapIdx (fun i byte => (⟨id, i, decide (i + 1 = bytes.length)⟩, byte))
  bundle := .v1 ⟨bytes.map (fun byte => [byte])⟩
  nonempty := by simpa using h
  headers := by
    intro i blob hi
    obtain ⟨byte, -, rfl⟩ := Option.map_eq_some_iff.mp (List.getElem?_mapIdx ▸ hi)
    simp [plainCodec]
  decodes := by
    refine ⟨bytes, ?_, rfl⟩
    refine congrArg Except.ok (List.ext_getElem? (fun i => ?_))
    rw [List.getElem?_map, List.getElem?_mapIdx]
    cases bytes[i]? <;> rfl

open IncompleteBundleBuffers in
theorem IncompleteBundleBuffers.reassembles_any_order_two_bundles :
    ∃ outcomes, insertAll plainCodec empty
        [(⟨3, 1, true⟩, 11), (⟨8, 0, true⟩, 20), (⟨3, 0, false⟩, 10)] = .ok outcomes empty ∧
      (outcomes.filterMap Inserted.bundle?).Perm [.v1 ⟨[[10], [11]]⟩, .v1 ⟨[[20]]⟩] := by
  obtain ⟨outcomes, hrun, -, -, hdone⟩ := reassembles_any_order plainCodec
    [plainBundle 3 [10, 11] (by decide), plainBundle 8 [20] (by decide)]
    [(⟨3, 1, true⟩, 11), (⟨8, 0, true⟩, 20), (⟨3, 0, false⟩, 10)] (by decide) (by decide)
  exact ⟨outcomes, hrun, hdone⟩

end Watchtower.Downloader
