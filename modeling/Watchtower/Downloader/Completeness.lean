import Mathlib.Data.List.ReduceOption
import Watchtower.Downloader.Reorder

namespace Watchtower.Downloader
open Lib IncompleteBundleBuffers

variable {Blob : Type} {lib : Libraries Blob}

/-- The sidecar of a blob under its versioned hash. -/
structure SidecarOf (lib : Libraries Blob) (item : BlobData) (posted : B256 × Blob) : Prop where
  commitment : ∃ c, lib.hexDecode (trimStartMatches0x item.kzgCommitment) = .ok c ∧
    lib.blobVersionedHash c = posted.1
  content : ∃ raw, lib.hexDecode (trimStartMatches0x item.blob) = .ok raw ∧
    lib.blobOfBytes raw = some posted.2

/-- A sidecar that belongs to none of the target's hashes. -/
def Foreign (lib : Libraries Blob) (own : B256 → Prop) (item : BlobData) : Prop :=
  ∃ c, lib.hexDecode (trimStartMatches0x item.kzgCommitment) = .ok c ∧
    ¬ own (lib.blobVersionedHash c)

theorem Foreign.mono {own other : B256 → Prop} {item : BlobData} (h : Foreign lib other item)
    (hle : ∀ {hash}, own hash → other hash) : Foreign lib own item := by
  obtain ⟨c, hc, hno⟩ := h
  exact ⟨c, hc, fun hown => hno (hle hown)⟩

/-- The blob that the scan of the response takes from a sidecar. -/
inductive Scanned (lib : Libraries Blob) (hashes : List B256) (item : BlobData) :
    Option Blob → Prop where
  | own {posted : B256 × Blob} (sidecar : SidecarOf lib item posted) (asked : posted.1 ∈ hashes) :
      Scanned lib hashes item (some posted.2)
  | foreign (other : Foreign lib (· ∈ hashes) item) : Scanned lib hashes item none

theorem getBlobs_scanned {hashes : List B256} {data : List BlobData} {out : List (Option Blob)}
    (h : List.Forall₂ (Scanned lib hashes) data out) :
    getBlobsFromBeaconResponse lib hashes data = .ok out.reduceOption := by
  induction h with
  | nil => rfl
  | cons hitem _ ih =>
    cases hitem with
    | own sidecar asked =>
      obtain ⟨c, hc, hh⟩ := sidecar.commitment
      obtain ⟨raw, hr, hb⟩ := sidecar.content
      simp [getBlobsFromBeaconResponse, hc, hh, asked, hr, hb, ih, List.reduceOption_cons_of_some]
    | foreign other =>
      obtain ⟨c, hc, hno⟩ := other
      simp [getBlobsFromBeaconResponse, hc, hno, ih, List.reduceOption_cons_of_none]

theorem scanned_own {hashes : List B256} {own : List BlobData} {posted : List (B256 × Blob)}
    (h : List.Forall₂ (SidecarOf lib) own posted) (hasked : ∀ p ∈ posted, p.1 ∈ hashes) :
    List.Forall₂ (Scanned lib hashes) own (posted.map (fun p => some p.2)) := by
  induction h with
  | nil => exact .nil
  | cons hitem _ ih =>
    exact .cons (.own hitem (hasked _ List.mem_cons_self))
      (ih (fun p hp => hasked p (List.mem_cons_of_mem _ hp)))

theorem scanned_foreign {hashes : List B256} {foreign : List BlobData}
    (h : ∀ item ∈ foreign, Foreign lib (· ∈ hashes) item) :
    List.Forall₂ (Scanned lib hashes) foreign (foreign.map (fun _ => none)) :=
  List.forall₂_map_right_iff.mpr (List.forall₂_same.mpr (fun item hm => .foreign (h item hm)))

/-- The blobs of the target's transactions in `this` are `posted`, in any order,
and the beacon node answers with the sidecar of each of them once, in any order
and among foreign ones. -/
structure Carries (lib : Libraries Blob) (config : Config) (http : Downloader.Http)
    (this next : Block) (posted : List (B256 × Blob)) : Prop where
  hashes : ∀ hash, this.Posts config.blobContract hash ↔ hash ∈ posted.map Prod.fst
  answer : ∃ root response own foreign, next.header.parentBeaconBlockRoot = some root ∧
    http (sidecarsUrl config.beaconRpcUrl root) = .ok response ∧
    response.data.Perm (own ++ foreign) ∧ List.Forall₂ (SidecarOf lib) own posted ∧
    ∀ item ∈ foreign, Foreign lib (this.Posts config.blobContract) item

/-- The beacon node answers for `this` with the sidecars that there are under the
target's hashes, whoever posted them, in any order, and with foreign ones. -/
structure Offers (lib : Libraries Blob) (config : Config) (http : Downloader.Http)
    (this next : Block) (posted : List (B256 × Blob)) : Prop where
  own : ∀ p ∈ posted, this.Posts config.blobContract p.1
  answer : ∃ root response own foreign, next.header.parentBeaconBlockRoot = some root ∧
    http (sidecarsUrl config.beaconRpcUrl root) = .ok response ∧
    response.data.Perm (own ++ foreign) ∧ List.Forall₂ (SidecarOf lib) own posted ∧
    ∀ item ∈ foreign, Foreign lib (this.Posts config.blobContract) item

theorem Carries.offers {config : Config} {http : Downloader.Http} {this next : Block}
    {posted : List (B256 × Blob)} (h : Carries lib config http this next posted) :
    Offers lib config http this next posted where
  own p hp := (h.hashes p.1).mpr (List.mem_map_of_mem hp)
  answer := h.answer

section
variable {config : Config} {http : Downloader.Http} {this next : Block}
  {posted : List (B256 × Blob)} {d : Downloader Blob}

/-- What the scan of such an answer finds. -/
theorem Offers.found (h : Offers lib config http this next posted)
    (hurl : d.beaconUrl = config.beaconRpcUrl) (htarget : d.targetContract = config.blobContract) :
    ∃ sidecars blobs, blobs.Perm (posted.map Prod.snd) ∧
      d.getSidecarsFromNextBlock http next = .ok (some sidecars) ∧
      getBlobsFromBeaconResponse lib (getBlockTxBlobs this d.targetContract) sidecars.data =
        .ok blobs := by
  obtain ⟨root, response, own, foreign, hroot, hhttp, hperm, hown, hforeign⟩ := h.answer
  obtain ⟨out, hout, hperm'⟩ := List.perm_comp_forall₂ hperm
    (List.rel_append (scanned_own hown (fun p hp => mem_getBlockTxBlobs.mpr (h.own p hp)))
      (scanned_foreign (fun item hm => (hforeign item hm).mono mem_getBlockTxBlobs.mp)))
  refine ⟨response, out.reduceOption, ?_, ?_, ?_⟩
  · have := hperm'.filterMap id
    simpa [List.reduceOption, List.filterMap_map, Function.comp_def] using this
  · simp only [Downloader.getSidecarsFromNextBlock, hroot, hurl, hhttp, Except.map]
  · rw [htarget]
    exact getBlobs_scanned hout

theorem Offers.blobs (h : Offers lib config http this next posted)
    (hurl : d.beaconUrl = config.beaconRpcUrl) (htarget : d.targetContract = config.blobContract) :
    ∃ blobs, blobs.Perm (posted.map Prod.snd) ∧
      d.processBlock lib http this next = d.insertBlobs lib blobs := by
  obtain ⟨sidecars, blobs, hperm, hsidecars, hblobs⟩ := h.found hurl htarget
  exact ⟨blobs, hperm, by simp only [Downloader.processBlock, hsidecars, hblobs]⟩

end

/-- The L1 blocks of the turns, one after the other behind `this`, with what
the target posted in every block but the last. -/
inductive Delivers (lib : Libraries Blob) (config : Config) :
    Block → List Downloader.Turn → List (List (B256 × Blob)) → Prop where
  | nil (this : Block) : Delivers lib config this [] []
  | cons {this next : Block} {http : Downloader.Http} {rest : List Downloader.Turn}
      {posted : List (B256 × Blob)} {later : List (List (B256 × Blob))}
      (carries : Carries lib config http this next posted)
      (tail : Delivers lib config next rest later) :
      Delivers lib config this (⟨.ok next, http⟩ :: rest) (posted :: later)

/-- The same with what the beacon node has under the target's hashes. -/
inductive Visits (lib : Libraries Blob) (config : Config) :
    Block → List Downloader.Turn → List (List (B256 × Blob)) → Prop where
  | nil (this : Block) : Visits lib config this [] []
  | cons {this next : Block} {http : Downloader.Http} {rest : List Downloader.Turn}
      {posted : List (B256 × Blob)} {later : List (List (B256 × Blob))}
      (offers : Offers lib config http this next posted)
      (tail : Visits lib config next rest later) :
      Visits lib config this (⟨.ok next, http⟩ :: rest) (posted :: later)

theorem Delivers.visits {config : Config} {this : Block} {turns : List Downloader.Turn}
    {posted : List (List (B256 × Blob))} (h : Delivers lib config this turns posted) :
    Visits lib config this turns posted := by
  induction h with
  | nil this => exact .nil this
  | cons carries _ ih => exact .cons carries.offers ih

variable [DecidableEq Blob]

/-- The downloader after the blobs of `arrived`: the complete bundles have been
pushed, the blobs of the others are held. -/
structure Consumed (config : Config) (family : List (PostedBundle lib.toCodec))
    (content : PostedBundle lib.toCodec → List VersionedCompressedBlock) (arrived : List Blob)
    (d : Downloader Blob) : Prop where
  held : Holds family arrived d.bundleBuffers
  ordered : ∃ pushed, Downloader.Ordered config.nextFuelBlock pushed d ∧
    ∀ block, block ∈ pushed ↔ ∃ p ∈ family, p.allIn arrived = true ∧ block ∈ content p
  beaconUrl : d.beaconUrl = config.beaconRpcUrl
  targetContract : d.targetContract = config.blobContract

section
variable {config : Config} {family : List (PostedBundle lib.toCodec)}
  {content : PostedBundle lib.toCodec → List VersionedCompressedBlock} {arrived : List Blob}
  {d d' : Downloader Blob}

theorem new_consumed (config : Config) (staysFor : Option Nat) :
    Consumed config family content [] (Downloader.new config staysFor) := by
  refine ⟨holds_empty family,
    ⟨[], Downloader.new_ordered config staysFor, fun block => ?_⟩, rfl, rfl⟩
  constructor
  · intro hm
    exact absurd hm List.not_mem_nil
  · intro h
    obtain ⟨p, -, ha, -⟩ := h
    obtain ⟨b, hm⟩ := List.exists_mem_of_ne_nil _ p.nonempty
    exact absurd (PostedBundle.allIn_iff.mp ha b hm) List.not_mem_nil

/-- The blocks of a bundle join those pushed exactly when its last blob does. -/
theorem pushed_snoc {p : PostedBundle lib.toCodec} {blob : Blob}
    (hids : (family.map PostedBundle.id).Nodup) (hp : p ∈ family) (hb : blob ∈ p.blobs)
    (block : VersionedCompressedBlock) :
    (∃ q ∈ family, q.allIn (arrived ++ [blob]) = true ∧ block ∈ content q) ↔
      (∃ q ∈ family, q.allIn arrived = true ∧ block ∈ content q) ∨
        p.allIn (arrived ++ [blob]) = true ∧ block ∈ content p := by
  constructor
  · intro h
    obtain ⟨q, hq, ha, hm⟩ := h
    by_cases hqp : q = p
    · exact Or.inr (hqp ▸ ⟨ha, hm⟩)
    · have hqb : blob ∉ q.blobs :=
        fun hmem => hqp (eq_of_id_eq hids hq hp (PostedBundle.id_eq_of_mem hmem hb))
      exact Or.inl ⟨q, hq, PostedBundle.allIn_foreign hqb ▸ ha, hm⟩
  · rintro (⟨q, hq, ha, hm⟩ | ⟨ha, hm⟩)
    · refine ⟨q, hq, PostedBundle.allIn_iff.mpr (fun b hbm => ?_), hm⟩
      exact List.mem_append_left _ (PostedBundle.allIn_iff.mp ha b hbm)
    · exact ⟨p, hp, ha, hm⟩

theorem insertBlobs_consumed (hids : (family.map PostedBundle.id).Nodup)
    (hcontent : ∀ p ∈ family, Downloader.Decoded lib p.bundle.blocks (content p))
    {blobs : List Blob} (h : Consumed config family content arrived d)
    (hn : (arrived ++ blobs).Nodup) (hof : ∀ blob ∈ blobs, ∃ p ∈ family, blob ∈ p.blobs)
    (hrun : d.insertBlobs lib blobs = .ok () d') :
    Consumed config family content (arrived ++ blobs) d' := by
  induction blobs generalizing arrived d with
  | nil =>
    cases hrun
    simpa using h
  | cons blob rest ih =>
    obtain ⟨p, hp, hb⟩ := hof blob List.mem_cons_self
    have hnew : blob ∉ arrived := fun hm =>
      (List.nodup_append.mp hn).2.2 blob hm blob List.mem_cons_self rfl
    obtain ⟨after, hins, hheld⟩ := insert_holds h.held hids hp hb hnew
    obtain ⟨pushed, hord, hpushed⟩ := h.ordered
    rw [List.append_cons] at hn ⊢
    have hrest := fun b hm => hof b (List.mem_cons_of_mem _ hm)
    have hord' := hord.withBundles after
    simp only [Downloader.insertBlobs, hins] at hrun
    by_cases hall : p.allIn (arrived ++ [blob]) = true
    · simp only [outcome, hall, if_true] at hrun
      obtain ⟨fresh, -, hend⟩ := Downloader.takeBundle_spec hord' (hcontent p hp)
      split at hrun
      · contradiction
      · rename_i mid hmid
        rw [hmid] at hend
        refine ih ⟨?_, ⟨pushed ++ content p, hend.1, fun block => ?_⟩, ?_, ?_⟩ hn hrest hrun
        · rw [hend.2.bundleBuffers]
          exact hheld
        · rw [List.mem_append, hpushed, pushed_snoc hids hp hb]
          simp [hall]
        · exact hend.2.beaconUrl.trans h.beaconUrl
        · exact hend.2.targetContract.trans h.targetContract
    · simp only [outcome, hall] at hrun
      refine ih ⟨hheld, ⟨pushed, hord', fun block => ?_⟩, h.beaconUrl, h.targetContract⟩ hn hrest
        hrun
      rw [hpushed, pushed_snoc hids hp hb]
      simp [hall]

theorem Consumed.perm {arrived' : List Blob} (h : Consumed config family content arrived d)
    (hperm : arrived.Perm arrived') : Consumed config family content arrived' d := by
  have hin : ∀ p : PostedBundle lib.toCodec, p.allIn arrived = p.allIn arrived' := fun p => by
    simp only [PostedBundle.allIn, hperm.mem_iff]
  have hst : ∀ p : PostedBundle lib.toCodec, p.stored arrived = p.stored arrived' := fun p => by
    simp only [PostedBundle.stored, hperm.mem_iff]
  obtain ⟨pushed, hord, hpushed⟩ := h.ordered
  refine ⟨⟨fun p hp => ?_, h.held.foreign⟩, ⟨pushed, hord, ?_⟩, h.beaconUrl, h.targetContract⟩
  · rw [← hin, ← hst]
    exact h.held.own p hp
  · simpa only [hin] using hpushed

/-- The blobs that were posted, in the order of the blocks. -/
def postedBlobs (posted : List (List (B256 × Blob))) : List Blob :=
  posted.flatten.map Prod.snd

theorem visits_consumed (hids : (family.map PostedBundle.id).Nodup)
    (hcontent : ∀ p ∈ family, Downloader.Decoded lib p.bundle.blocks (content p)) {this : Block}
    {turns : List Downloader.Turn} {posted : List (List (B256 × Blob))}
    (hdel : Visits lib config this turns posted) (h : Consumed config family content arrived d)
    (hn : (arrived ++ postedBlobs posted).Nodup)
    (hof : ∀ blob ∈ postedBlobs posted, ∃ p ∈ family, blob ∈ p.blobs)
    (hrun : d.follow lib this turns = .ok () d') :
    Consumed config family content (arrived ++ postedBlobs posted) d' := by
  induction hdel generalizing arrived d with
  | nil =>
    cases hrun
    simpa [postedBlobs] using h
  | @cons this next http rest posted later offers _ ih =>
    have hsplit : postedBlobs (posted :: later) = posted.map Prod.snd ++ postedBlobs later := by
      simp [postedBlobs]
    rw [hsplit, ← List.append_assoc] at hn ⊢
    rw [hsplit] at hof
    obtain ⟨blobs, hperm, hproc⟩ := offers.blobs h.beaconUrl h.targetContract
    simp only [Downloader.follow, hproc] at hrun
    split at hrun
    · contradiction
    · rename_i mid hmid
      have hmidc : Consumed config family content (arrived ++ blobs) mid := by
        refine insertBlobs_consumed hids hcontent h ?_ ?_ hmid
        · exact (hperm.append_left arrived).nodup_iff.mpr (List.nodup_append.mp hn).1
        · exact fun b hm => hof b (List.mem_append_left _ (hperm.subset hm))
      exact ih (hmidc.perm (hperm.append_left arrived)) hn
        (fun b hm => hof b (List.mem_append_right _ hm)) hrun

theorem follow_consumed (hids : (family.map PostedBundle.id).Nodup)
    (hcontent : ∀ p ∈ family, Downloader.Decoded lib p.bundle.blocks (content p)) {this : Block}
    {turns : List Downloader.Turn} {posted : List (List (B256 × Blob))}
    (hdel : Delivers lib config this turns posted) (h : Consumed config family content arrived d)
    (hn : (arrived ++ postedBlobs posted).Nodup)
    (hof : ∀ blob ∈ postedBlobs posted, ∃ p ∈ family, blob ∈ p.blobs)
    (hrun : d.follow lib this turns = .ok () d') :
    Consumed config family content (arrived ++ postedBlobs posted) d' :=
  visits_consumed hids hcontent hdel.visits h hn hof hrun

end

/-- However the blobs of a family of bundles are spread over L1 blocks,
transactions and sidecars, the Fuel blocks sent are those of all heights up to
the first one that no bundle holds whose blobs are all in the L1 blocks consumed. -/
theorem sends_every_complete_bundle (lib : Libraries Blob) (config : Config)
    (staysFor : Option Nat) (first : Block) (http : Downloader.Http)
    (turns : List Downloader.Turn) (posted : List (List (B256 × Blob)))
    (family : List (PostedBundle lib.toCodec))
    (content : PostedBundle lib.toCodec → List VersionedCompressedBlock) (d : Downloader Blob)
    (hids : (family.map PostedBundle.id).Nodup)
    (hcontent : ∀ p ∈ family, Downloader.Decoded lib p.bundle.blocks (content p))
    (hone : ∀ p ∈ family, ∀ q ∈ family, ∀ a ∈ content p, ∀ b ∈ content q,
      a.height = b.height → a = b)
    (hdel : Delivers lib config first turns posted)
    (honce : (postedBlobs posted).Nodup)
    (hof : ∀ blob ∈ postedBlobs posted, ∃ p ∈ family, blob ∈ p.blobs)
    (hrun : (Downloader.new config staysFor).streamInner lib (⟨.ok first, http⟩ :: turns) =
      .ok () d) :
    ∃ m, IsLeast {h | config.nextFuelBlock ≤ h ∧ ∀ p ∈ family,
        (∀ blob ∈ p.blobs, blob ∈ postedBlobs posted) →
        ∀ block ∈ content p, block.height ≠ h} m ∧
      d.tx.sent.map VersionedCompressedBlock.height =
        List.range' config.nextFuelBlock (m - config.nextFuelBlock) ∧
      ∀ block, block ∈ d.tx.sent ↔ (config.nextFuelBlock ≤ block.height ∧ block.height < m) ∧
        ∃ p ∈ family, (∀ blob ∈ p.blobs, blob ∈ postedBlobs posted) ∧ block ∈ content p := by
  have hend : Consumed config family content (postedBlobs posted) d := by
    have := follow_consumed hids hcontent hdel (new_consumed config staysFor)
      (by simpa using honce) hof hrun
    simpa using this
  obtain ⟨pushed, hord, hpushed⟩ := hend.ordered
  simp only [PostedBundle.allIn_iff] at hpushed
  have hheight : ∀ h, h ∈ d.tx.sent.map VersionedCompressedBlock.height ↔
      config.nextFuelBlock ≤ h ∧ h < d.nextFuelBlock := by
    intro h
    have := hord.next.1.1
    rw [hord.heights, List.mem_range'_1]
    omega
  refine ⟨d.nextFuelBlock, ?_, hord.heights, fun block => ⟨fun hm => ?_, ?_⟩⟩
  · convert hord.next using 5 with h
    constructor
    · intro hno block hm
      obtain ⟨p, hp, ha, hb⟩ := (hpushed block).mp hm
      exact hno p hp ha block hb
    · intro hno p hp ha block hb
      exact hno block ((hpushed block).mpr ⟨p, hp, ha, hb⟩)
  · exact ⟨(hheight _).mp (List.mem_map_of_mem hm), (hpushed block).mp (hord.known block hm)⟩
  · intro h
    obtain ⟨hrange, p, hp, -, hb⟩ := h
    obtain ⟨other, hm, hh⟩ := List.mem_map.mp ((hheight _).mpr hrange)
    obtain ⟨q, hq, -, hbq⟩ := (hpushed other).mp (hord.known other hm)
    rwa [← hone q hq p hp other hbq block hb hh]

def plainBlock (number : Nat) (hashes : List B256) : Block where
  header := ⟨number, [], [], some []⟩
  transactions := .full [⟨[], 3, some hashes⟩]

theorem plainBlock_posts (number : Nat) (hashes : List B256) (hash : B256) :
    (plainBlock number hashes).Posts [] hash ↔ hash ∈ hashes := by
  simp [plainBlock, Block.Posts]

def plainContent (p : PostedBundle plainLibraries.toCodec) : List VersionedCompressedBlock :=
  p.bundle.blocks.filterMap (fun b => (plainLibraries.fromBytes b).toOption)

/-- The second blob of a bundle comes first, and the first one an L1 block
later, behind a foreign sidecar. -/
def twoTurns : List Downloader.Turn :=
  [⟨.ok (plainBlock 1 [[1, 1]]), fun _ => .ok ⟨[⟨"3115", "0x70"⟩]⟩⟩,
    ⟨.ok (plainBlock 2 []), fun _ => .ok ⟨[⟨"", "0x99"⟩, ⟨"0x3006", "0x71"⟩]⟩⟩]

def twoPosted : List (List (B256 × (HeaderV1 × UInt8))) :=
  [[([1, 0], (⟨3, 1, true⟩, 5))], [([1, 1], (⟨3, 0, false⟩, 6))]]

theorem twoTurns_delivers : Delivers plainLibraries ⟨"", "", [], 0, 5⟩ (plainBlock 0 [[1, 0]])
    twoTurns twoPosted := by
  refine .cons ⟨plainBlock_posts 0 [[1, 0]], [], _, [⟨"3115", "0x70"⟩], [], rfl, rfl,
    List.Perm.refl _, ?_, by simp⟩
    (.cons ⟨plainBlock_posts 1 [[1, 1]], [], _, [⟨"0x3006", "0x71"⟩], [⟨"", "0x99"⟩], rfl, rfl,
      List.Perm.swap _ _ _, ?_, ?_⟩ (.nil _))
  · exact .cons ⟨⟨_, rfl, rfl⟩, ⟨_, rfl, rfl⟩⟩ .nil
  · exact .cons ⟨⟨_, rfl, rfl⟩, ⟨_, rfl, rfl⟩⟩ .nil
  · intro item hm
    obtain rfl := List.mem_singleton.mp hm
    exact ⟨_, rfl, by decide⟩

theorem sends_every_complete_bundle_two_turns :
    ∃ d, (Downloader.new ⟨"", "", [], 0, 5⟩ none).streamInner plainLibraries
        (⟨.ok (plainBlock 0 [[1, 0]]), fun _ => .error ""⟩ :: twoTurns) = .ok () d ∧
      d.tx.sent = [⟨5, 0, [], []⟩, ⟨6, 0, [], []⟩] ∧
      IsLeast {h | 5 ≤ h ∧ ∀ p ∈ [plainBundle 3 [6, 5] (by decide)],
        (∀ blob ∈ p.blobs, blob ∈ postedBlobs twoPosted) →
        ∀ block ∈ plainContent p, block.height ≠ h} 7 := by
  obtain ⟨d, hd, hsent⟩ : ∃ d, (Downloader.new ⟨"", "", [], 0, 5⟩ none).streamInner plainLibraries
      (⟨.ok (plainBlock 0 [[1, 0]]), fun _ => .error ""⟩ :: twoTurns) = .ok () d ∧
      d.tx.sent = [⟨5, 0, [], []⟩, ⟨6, 0, [], []⟩] := ⟨_, rfl, rfl⟩
  obtain ⟨m, hm, hheights, -⟩ := sends_every_complete_bundle plainLibraries ⟨"", "", [], 0, 5⟩ none
    (plainBlock 0 [[1, 0]]) (fun _ => .error "") twoTurns twoPosted
    [plainBundle 3 [6, 5] (by decide)] plainContent d (by decide) (fun p hp => by
      obtain rfl := List.mem_singleton.mp hp
      exact .cons rfl (.cons rfl .nil))
    (by decide) twoTurns_delivers (by decide) (by decide) hd
  -- two blocks were sent from height 5 on
  have hcount : 2 = m - 5 := by
    simpa [hsent] using congrArg List.length hheights
  obtain rfl : m = 7 := by omega
  exact ⟨d, hd, hsent, hm⟩

end Watchtower.Downloader
