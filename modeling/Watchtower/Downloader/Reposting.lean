import Watchtower.Downloader.CatchUp
import Watchtower.Downloader.Genuine

namespace Watchtower.Downloader
open Lib IncompleteBundleBuffers PostedBundle

variable {Blob : Type} {lib : Libraries Blob}

/-- All blobs of one id, in order, are those of the one bundle of that id. -/
theorem eq_blobs_of_complete {family : List (PostedBundle lib.toCodec)} {posted : Blob → Prop}
    (hids : (family.map PostedBundle.id).Nodup)
    (hcovers : ∀ blob, posted blob → ∃ p ∈ family, blob ∈ p.blobs) {id : Nat}
    {entries : List (BlobHeader × Blob)} (hcomplete : Complete entries)
    (hentries : ∀ e ∈ entries, lib.readHeader e.2 = .ok e.1 ∧ e.1.bundleId = id ∧ posted e.2) :
    ∃ p ∈ family, entries.map Prod.snd = p.blobs := by
  have hplace : ∀ (j : Nat) e, entries[j]? = some e →
      ∃ p ∈ family, p.id = id ∧ p.blobs[j]? = some e.2 ∧ e.1 = p.header j := by
    intro j e hj
    obtain ⟨hread, hid, hposted⟩ := hentries e (List.mem_of_getElem? hj)
    obtain ⟨p, hp, hb⟩ := hcovers e.2 hposted
    obtain ⟨i, hi⟩ := List.mem_iff_getElem?.mp hb
    have hheader : e.1 = p.header i := Except.ok.inj (hread.symm.trans (p.headers i e.2 hi))
    obtain rfl : i = j := by
      have hidx := hcomplete.idx_eq hj
      rwa [hheader] at hidx
    refine ⟨p, hp, ?_, hi, hheader⟩
    rw [← hid, hheader]
    rfl
  obtain ⟨last, hlast, hmarked⟩ := hcomplete.1
  rw [List.getLast?_eq_getElem?] at hlast
  obtain ⟨p, hp, hid, hin, hheader⟩ := hplace _ last hlast
  have hlength : entries.length - 1 + 1 = p.blobs.length := by
    rw [hheader] at hmarked
    exact of_decide_eq_true hmarked
  have hpos : entries.length ≠ 0 := by
    intro hzero
    rw [List.length_eq_zero_iff.mp hzero] at hlast
    cases hlast
  refine ⟨p, hp, List.ext_getElem? (fun j => ?_)⟩
  rw [List.getElem?_map]
  cases hj : entries[j]? with
  | none =>
    have hover := List.getElem?_eq_none_iff.mp hj
    rw [List.getElem?_eq_none (by omega)]
    rfl
  | some e =>
    obtain ⟨q, hq, hid', hb, -⟩ := hplace j e hj
    rw [← eq_of_id_eq hids hq hp (hid'.trans hid.symm), hb]
    rfl

/-- Where all blobs are those of a family of bundles, the whole ones are what
they decode to. -/
theorem honest_of_family {family : List (PostedBundle lib.toCodec)}
    {content : PostedBundle lib.toCodec → List VersionedCompressedBlock} {posted : Blob → Prop}
    {feed : Nat → VersionedCompressedBlock} (hids : (family.map PostedBundle.id).Nodup)
    (hcontent : ∀ p ∈ family, Downloader.Decoded lib p.bundle.blocks (content p))
    (hcovers : ∀ blob, posted blob → ∃ p ∈ family, blob ∈ p.blobs)
    (hfeed : ∀ p ∈ family, (∀ blob ∈ p.blobs, posted blob) →
      ∀ block ∈ content p, block = feed block.height) : Honest lib posted feed := by
  intro id entries hcomplete hentries bytes bundle hbytes hbundle raw hraw block hblock
  obtain ⟨p, hp, hblobs⟩ := eq_blobs_of_complete hids hcovers hcomplete hentries
  obtain ⟨bytes', hbytes', hbundle'⟩ := p.decodes
  rw [hblobs] at hbytes
  obtain rfl := Except.ok.inj (hbytes.symm.trans hbytes')
  obtain rfl := Except.ok.inj (hbundle.symm.trans hbundle')
  obtain ⟨found, hfound, hread⟩ := exists_mem_of_forall₂ (hcontent p hp).flip hraw
  obtain rfl := Except.ok.inj (hblock.symm.trans hread)
  refine hfeed p hp (fun blob hb => ?_) block hfound
  rw [← hblobs] at hb
  obtain ⟨e, he, rfl⟩ := List.mem_map.mp hb
  exact (hentries e he).2.2

variable [DecidableEq Blob]

section
variable {codec : Codec Blob} {family : List (PostedBundle codec)} {p : PostedBundle codec}
  {arrived : List Blob} {blob : Blob} {buffers : IncompleteBundleBuffers Blob}

/-- A blob that is there of a bundle that is not complete is refused. -/
theorem insert_again (h : Holds family arrived buffers) (hp : p ∈ family) (hb : blob ∈ p.blobs)
    (hin : blob ∈ arrived) (hwaits : ¬ p.allIn arrived = true) :
    ∃ err, insert codec buffers blob = .error err buffers := by
  obtain ⟨i, hi⟩ := List.mem_iff_getElem?.mp hb
  have hm : (p.header i, blob) ∈ p.stored arrived :=
    List.mem_filter.mpr ⟨mem_entries.mpr ⟨i, hi, rfl⟩, by simpa using hin⟩
  have hheld : buffers.blobsOf (p.header i).bundleId = p.stored arrived := by
    have hget := h.own p hp
    rw [if_neg (not_or.mpr ⟨List.ne_nil_of_mem hm, hwaits⟩)] at hget
    change (buffers.bundleBufferById.get? p.id).getD [] = _
    rw [hget, Option.getD_some]
  have hord : (p.stored arrived).Pairwise (fun a b => a.1.idx < b.1.idx) :=
    p.entries_ordered.sublist (p.stored_sublist arrived)
  rcases binarySearchByKey_cases hord (p.header i).idx with
    ⟨place, hplace, -⟩ | ⟨front, back, hsplit, hfront, hback⟩
  · rw [← hheld] at hplace
    have hne : buffers.blobsOf (p.header i).bundleId ≠ [] := by
      rw [hheld]
      exact List.ne_nil_of_mem hm
    exact ⟨_, insert_duplicate (p.headers i blob hi) hplace hne⟩
  · -- the entry of the blob itself has the index that none is to have
    rw [hsplit] at hm
    rcases List.mem_append.mp hm with hm | hm
    · exact absurd (hfront _ hm) (Nat.lt_irrefl _)
    · exact absurd (hback _ hm) (Nat.lt_irrefl _)

/-- With one blob too many, what comes again is that blob. -/
theorem eq_of_again {seen later : List Blob} {other : Blob}
    (honce : ((seen ++ other :: later).erase blob).Nodup) (hseen : other ∈ seen) :
    other = blob := by
  by_contra hne
  have hle := List.nodup_iff_count_le_one.mp honce other
  rw [List.count_erase_of_ne hne, List.count_append, List.count_cons_self] at hle
  have := List.count_pos_iff.mpr hseen
  omega

end

variable {message : Queue.Failure → Error} {config : Config} {l1 : L1 Blob} {start count : Nat}

/-- In the L1 block after so many, a blob is there again, posted twice or copied by
somebody else under the hash asked for, while its bundle is not whole even with
that block. All else was posted once. -/
structure Reposted (lib : Libraries Blob) (l1 : L1 Blob) (start count : Nat) where
  posting : Posting lib l1 start count
  bundle : PostedBundle lib.toCodec
  blob : Blob
  known : bundle ∈ posting.family
  own : blob ∈ bundle.blobs
  covers : ∀ blob ∈ l1.blobs start (count + 1), ∃ p ∈ posting.family, blob ∈ p.blobs
  again : blob ∈ (l1.blobs start (count + 1)).erase blob
  once : ((l1.blobs start (count + 1)).erase blob).Nodup
  waits : ∃ missing ∈ bundle.blobs, missing ∉ l1.blobs start (count + 1)

namespace Reposted

/-- From a height on below which nothing of the bundle was posted. -/
def since (reposted : Reposted lib l1 0 (start + count))
    (hbefore : ∀ blob ∈ reposted.bundle.blobs, blob ∉ l1.blobs 0 start) :
    Reposted lib l1 start count where
  posting := reposted.posting.since
  bundle := reposted.bundle
  blob := reposted.blob
  known := reposted.known
  own := reposted.own
  covers blob hm := by
    apply reposted.covers
    rw [Nat.add_assoc, l1.blobs_add, Nat.zero_add]
    exact List.mem_append_right _ hm
  again := by
    have hagain := reposted.again
    rw [Nat.add_assoc, l1.blobs_add, Nat.zero_add,
      List.erase_append_right _ (hbefore _ reposted.own)] at hagain
    exact (List.mem_append.mp hagain).resolve_left (hbefore _ reposted.own)
  once := by
    have honce := reposted.once
    rw [Nat.add_assoc, l1.blobs_add, Nat.zero_add,
      List.erase_append_right _ (hbefore _ reposted.own)] at honce
    exact (List.nodup_append.mp honce).2.1
  waits := by
    obtain ⟨missing, hm, hnot⟩ := reposted.waits
    refine ⟨missing, hm, fun hin => hnot ?_⟩
    rw [Nat.add_assoc, l1.blobs_add, Nat.zero_add]
    exact List.mem_append_right _ hin

/-- The Fuel blocks of the other bundles, by height, and nothing at the height
of a block that none of them has. -/
theorem exists_feed (reposted : Reposted lib l1 start count) {m : Nat}
    (honly : ∀ p ∈ reposted.posting.family, ∀ block ∈ reposted.posting.content p,
      block.height = m → p = reposted.bundle) :
    ∃ feed : Nat → VersionedCompressedBlock, (feed m).height ≠ m ∧
      ∀ p ∈ reposted.posting.family, p ≠ reposted.bundle →
        ∀ block ∈ reposted.posting.content p, block = feed block.height := by
  classical
  have hchoice : ∀ h, ∃ chosen : VersionedCompressedBlock,
      (h = m → chosen.height ≠ m) ∧ ∀ p ∈ reposted.posting.family, p ≠ reposted.bundle →
        ∀ block ∈ reposted.posting.content p, block.height = h → block = chosen := by
    intro h
    by_cases hsome : ∃ p ∈ reposted.posting.family, p ≠ reposted.bundle ∧
        ∃ block ∈ reposted.posting.content p, block.height = h
    · obtain ⟨p, hp, hne, block, hm, hheight⟩ := hsome
      refine ⟨block, fun hhm => ?_, fun q hq _ other hother hh => ?_⟩
      · exact absurd (honly p hp block hm (hheight.trans hhm)) hne
      · exact reposted.posting.agree q hq p hp other hother block hm (hh.trans hheight.symm)
    · refine ⟨⟨h + 1, 0, [], []⟩, fun hhm => ?_, fun p hp hne block hm hheight => ?_⟩
      · show h + 1 ≠ m
        omega
      · exact absurd ⟨p, hp, hne, block, hm, hheight⟩ hsome
  choose feed hfeed using hchoice
  exact ⟨feed, (hfeed m).1 rfl, fun p hp hne block hm =>
    (hfeed block.height).2 p hp hne block hm rfl⟩

end Reposted

section
variable {family : List (PostedBundle lib.toCodec)}
  {content : PostedBundle lib.toCodec → List VersionedCompressedBlock}
  {p : PostedBundle lib.toCodec} {blob missing : Blob}

/-- The blobs of an L1 block with one of them again are not all taken in. -/
theorem insertBlobs_again (hids : (family.map PostedBundle.id).Nodup)
    (hcontent : ∀ p ∈ family, Downloader.Decoded lib p.bundle.blocks (content p))
    (hp : p ∈ family) (hb : blob ∈ p.blobs) (hmissing : missing ∈ p.blobs)
    {arrived blobs : List Blob} {d d' : Downloader Blob}
    (h : Consumed config family content arrived d) (hn : arrived.Nodup)
    (hof : ∀ b ∈ blobs, ∃ q ∈ family, b ∈ q.blobs)
    (hagain : blob ∈ (arrived ++ blobs).erase blob) (honce : ((arrived ++ blobs).erase blob).Nodup)
    (hwaits : missing ∉ arrived ++ blobs) : d.insertBlobs lib blobs ≠ .ok () d' := by
  induction blobs generalizing arrived d with
  | nil =>
    rw [List.append_nil] at hagain
    exact absurd hagain hn.not_mem_erase
  | cons other rest ih =>
    by_cases hseen : other ∈ arrived
    · obtain rfl := eq_of_again honce hseen
      have hopen : ¬ p.allIn arrived = true := by
        intro hall
        exact hwaits (List.mem_append_left _ (allIn_iff.mp hall missing hmissing))
      obtain ⟨err, hins⟩ := insert_again h.held hp hb hseen hopen
      simp only [Downloader.insertBlobs, hins]
      exact fun hok => by cases hok
    · intro hrun
      obtain ⟨mid, hfirst, hrest⟩ : ∃ mid, d.insertBlobs lib [other] = .ok () mid ∧
          mid.insertBlobs lib rest = .ok () d' := by
        simp only [Downloader.insertBlobs] at hrun ⊢
        split at hrun
        · contradiction
        · exact ⟨_, rfl, hrun⟩
        · split at hrun
          · contradiction
          · rename_i mid hmid
            exact ⟨mid, by simp only, hrun⟩
      have hn' : (arrived ++ [other]).Nodup := List.nodup_append.mpr
        ⟨hn, List.nodup_singleton _, fun a ha b hbm hab =>
          hseen (List.mem_singleton.mp hbm ▸ hab ▸ ha)⟩
      have hmid := insertBlobs_consumed hids hcontent h hn'
        (fun b hbm => hof b (List.mem_singleton.mp hbm ▸ List.mem_cons_self)) hfirst
      rw [List.append_cons] at hagain honce hwaits
      exact ih hmid hn' (fun b hbm => hof b (List.mem_cons_of_mem _ hbm)) hagain honce hwaits hrest

end

/-- The blobs of the L1 blocks are gone through no further than to the one with
the blob posted again. -/
theorem Reposted.follow_stops (reposted : Reposted lib l1 start count) {this : Block}
    {turns : List Downloader.Turn} {done : Nat} {d d' : Downloader Blob}
    (hdel : Visits lib config this turns
      ((List.range' (start + done) turns.length).map l1.posted))
    (h : Consumed config reposted.posting.family reposted.posting.content
      (l1.blobs start done) d) (hle : done ≤ count) (hrun : d.follow lib this turns = .ok () d') :
    done + turns.length ≤ count ∧ Consumed config reposted.posting.family
      reposted.posting.content (l1.blobs start (done + turns.length)) d' := by
  induction turns generalizing this done d with
  | nil =>
    cases hrun
    exact ⟨hle, h⟩
  | cons turn rest ih =>
    rw [List.length_cons, List.range'_succ, List.map_cons] at hdel
    cases hdel with
    | @cons _ next http _ _ _ offers tail =>
      obtain ⟨blobs, hperm, hproc⟩ := offers.blobs h.beaconUrl h.targetContract
      have hall : (l1.blobs start done ++ blobs).Perm (l1.blobs start (done + 1)) := by
        rw [l1.blobs_succ]
        exact hperm.append_left _
      have hmore : l1.blobs start (done + 1) ⊆ l1.blobs start (count + 1) :=
        l1.blobs_subset start (Nat.succ_le_succ hle)
      have hof : ∀ b ∈ blobs, ∃ q ∈ reposted.posting.family, b ∈ q.blobs := fun b hb =>
        reposted.covers b (hmore (hall.subset (List.mem_append_right _ hb)))
      simp only [Downloader.follow, hproc] at hrun
      split at hrun
      · contradiction
      · rename_i mid hmid
        rcases Nat.lt_or_eq_of_le hle with hlt | rfl
        · have hn : (l1.blobs start (done + 1)).Nodup := by
            have honce := reposted.posting.once
            rw [show count = done + 1 + (count - (done + 1)) by omega,
              l1.blobs_add start (done + 1)] at honce
            exact (List.nodup_append.mp honce).1
          have hmidc := (insertBlobs_consumed reposted.posting.ids reposted.posting.decoded h
            (hall.nodup_iff.mpr hn) hof hmid).perm hall
          rw [Nat.add_assoc] at tail
          rw [List.length_cons, Nat.add_comm rest.length, ← Nat.add_assoc]
          exact ih tail hmidc hlt hrun
        · obtain ⟨missing, hm, hnot⟩ := reposted.waits
          exact absurd hmid (insertBlobs_again reposted.posting.ids reposted.posting.decoded
            reposted.known reposted.own hm h reposted.posting.once hof
            ((hall.erase _).mem_iff.mpr reposted.again) ((hall.erase _).nodup_iff.mpr reposted.once)
            (fun hin => hnot (hall.subset hin)))

namespace Pipeline

variable {x y : Pipeline Blob} {feed : Nat → VersionedCompressedBlock}

/-- The block at hand is never behind the one with the blob posted again. -/
theorem Tracks.stops (h : Tracks lib message config l1 x)
    (reposted : Reposted lib l1 config.daStartBlock count) {block : Block}
    (here : x.Between block) :
    ∃ done ≤ count, block = l1.block (config.daStartBlock + done) ∧
      Consumed config reposted.posting.family reposted.posting.content
        (l1.blobs config.daStartBlock done) (x.downloader.facing none) := by
  obtain ⟨rest, hblock, hdel, hrun⟩ := h.followed here
  rw [← Nat.add_zero config.daStartBlock] at hdel
  obtain ⟨hle, hconsumed⟩ := reposted.follow_stops hdel (new_consumed config none) (Nat.zero_le _)
    hrun
  rw [Nat.zero_add] at hle hconsumed
  exact ⟨rest.length, hle, hblock, hconsumed⟩

/-- So no blobs but those up to that block ever come in. -/
theorem Tracks.fromPosted (h : Tracks lib message config l1 x)
    (reposted : Reposted lib l1 config.daStartBlock count) {e : Event}
    (he : Serving lib config l1 x e) :
    FromPosted lib (· ∈ l1.blobs config.daStartBlock (count + 1)) x e := by
  cases e with
  | answer http =>
    intro thisBlock nextBlock sidecars blobs here hsidecars hblobs blob hm
    rcases he thisBlock nextBlock here with ⟨err, herr⟩ | offers
    · rw [herr] at hsidecars
      contradiction
    · obtain ⟨done, hle, rfl, hconsumed⟩ := h.stops reposted (Or.inr ⟨nextBlock, here⟩)
      obtain ⟨found, out, hperm, hfound, hout⟩ := offers.found hconsumed.beaconUrl
        hconsumed.targetContract
      obtain rfl := Option.some.inj (Except.ok.inj (hsidecars.symm.trans hfound))
      obtain rfl := Except.ok.inj (hblobs.symm.trans hout)
      have hposted := hperm.subset hm
      rw [l1.numbered] at hposted
      apply l1.blobs_subset config.daStartBlock (Nat.succ_le_succ hle)
      rw [l1.blobs_succ]
      exact List.mem_append_right _ hposted
  | queue | relay | read | work | forward | take | drop => trivial

/-- Nothing of the bundle is ever sent. -/
theorem run_untainted_by (reposted : Reposted lib l1 config.daStartBlock count)
    (hfeed : ∀ p ∈ reposted.posting.family, p ≠ reposted.bundle →
      ∀ block ∈ reposted.posting.content p, block = feed block.height)
    (run : Run (Pipeline.step lib message) (Serving lib config l1) (Pipeline.start config) x) :
    Tracks lib message config l1 x ∧
      Untainted lib (· ∈ l1.blobs config.daStartBlock (count + 1)) feed x := by
  have honest : Honest lib (· ∈ l1.blobs config.daStartBlock (count + 1)) feed := by
    apply honest_of_family reposted.posting.ids reposted.posting.decoded reposted.covers
    intro p hp hall
    apply hfeed p hp
    rintro rfl
    obtain ⟨missing, hm, hnot⟩ := reposted.waits
    exact hnot (hall missing hm)
  apply run.invariant (motive := fun x => Tracks lib message config l1 x ∧
    Untainted lib (· ∈ l1.blobs config.daStartBlock (count + 1)) feed x)
  · exact ⟨start_tracks lib message config l1, start_untainted lib _ feed config⟩
  · intro t u e h he hst
    exact ⟨h.1.step he hst, h.2.step honest (h.1.fromPosted reposted he) hst⟩

end Pipeline
end Watchtower.Downloader
