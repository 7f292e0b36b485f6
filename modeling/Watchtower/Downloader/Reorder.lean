import Mathlib.Data.List.Perm.Basic
import Mathlib.Order.Bounds.Basic
import Watchtower.Downloader.ProcessBlock
import Watchtower.Downloader.Reassembly
import Watchtower.Lib.Ordered

namespace Watchtower
open Lib Downloader

theorem BlockHeight.succ_eq_some {h n : Nat} :
    BlockHeight.succ h = some n ↔ h < u32Max ∧ n = h + 1 := by
  unfold BlockHeight.succ
  split
  · rename_i hlt
    simp only [Option.some.injEq, hlt, true_and]
    exact eq_comm
  · rename_i hge
    simp [hge]

namespace Downloader

theorem Sender.send_ok {tx tx' : Sender} {block : VersionedCompressedBlock}
    (h : tx.send block = .ok tx') : tx' = { tx with sent := tx.sent ++ [block] } := by
  unfold Sender.send at h
  split at h
  · split at h
    · exact (Except.ok.inj h).symm
    · contradiction
  · exact (Except.ok.inj h).symm

variable {Blob : Type} {lib : Libraries Blob} {d d' : Downloader Blob}

/-- What the send loop leaves behind when it sent `fresh`. -/
structure Drained (d : Downloader Blob) (fresh : List VersionedCompressedBlock)
    (d' : Downloader Blob) : Prop where
  next : d'.nextFuelBlock = d.nextFuelBlock + fresh.length
  tx : d'.tx = { d.tx with sent := d.tx.sent ++ fresh }
  missing : d.blockBuffer.blocks.get? d'.nextFuelBlock = none
  kept : ∀ h, d'.blockBuffer.blocks.get? h =
    if h < d'.nextFuelBlock then none else d.blockBuffer.blocks.get? h
  beaconUrl : d'.beaconUrl = d.beaconUrl
  targetContract : d'.targetContract = d.targetContract
  bundleBuffers : d'.bundleBuffers = d.bundleBuffers

/-- The blocks were in the buffer, one height after the other from the next one on. -/
def Handed (d : Downloader Blob) (fresh : List VersionedCompressedBlock) : Prop :=
  ∀ i block, fresh[i]? = some block →
    d.blockBuffer.blocks.get? (d.nextFuelBlock + i) = some block

/-- The state after one round of the loop. -/
def sentHead (d : Downloader Blob) (block : VersionedCompressedBlock) : Downloader Blob :=
  { d with
    blockBuffer := ⟨d.blockBuffer.blocks.erase d.nextFuelBlock⟩
    tx := { d.tx with sent := d.tx.sent ++ [block] }
    nextFuelBlock := d.nextFuelBlock + 1 }

theorem get?_sentHead (d : Downloader Blob) (block : VersionedCompressedBlock)
    {h : Nat} (hne : h ≠ d.nextFuelBlock) :
    (d.sentHead block).blockBuffer.blocks.get? h = d.blockBuffer.blocks.get? h :=
  SortedMap.get?_erase_of_ne _ hne

theorem Handed.cons {block : VersionedCompressedBlock} {fresh : List VersionedCompressedBlock}
    (hget : d.blockBuffer.blocks.get? d.nextFuelBlock = some block)
    (h : Handed (d.sentHead block) fresh) : Handed d (block :: fresh) := by
  intro i b hi
  cases i with
  | zero => exact (Option.some.inj hi : block = b) ▸ hget
  | succ i =>
    have hkey : (d.sentHead block).nextFuelBlock + i = d.nextFuelBlock + (i + 1) := by
      change d.nextFuelBlock + 1 + i = _
      omega
    rw [← h i b (by simpa using hi), hkey, get?_sentHead d block (by omega)]

theorem Drained.cons {block : VersionedCompressedBlock} {fresh : List VersionedCompressedBlock}
    (h : Drained (d.sentHead block) fresh d') : Drained d (block :: fresh) d' := by
  have hnext : d'.nextFuelBlock = d.nextFuelBlock + 1 + fresh.length := h.next
  refine ⟨by rw [hnext, List.length_cons]; omega, ?_, ?_, fun k => ?_, h.beaconUrl,
    h.targetContract, h.bundleBuffers⟩
  · rw [h.tx]
    simp [sentHead]
  · rw [← h.missing, get?_sentHead d block (by omega)]
  · rw [h.kept]
    split
    · rfl
    · exact get?_sentHead d block (by omega)

/-- With nothing below the next height in the buffer, the loop sends what is
there without a gap and stops at the first height missing, or fails on its way. -/
theorem sendReady_spec {rounds : Nat}
    (hle : ∀ k ∈ d.blockBuffer.blocks.keys, d.nextFuelBlock ≤ k)
    (hsize : d.blockBuffer.blocks.size ≤ rounds) :
    ∃ fresh, Handed d fresh ∧ match sendReady rounds d with
      | .ok () d' => Drained d fresh d'
      | .error _ d' => d'.tx.sent = d.tx.sent ++ fresh := by
  induction rounds generalizing d with
  | zero =>
    have hkeys : d.blockBuffer.blocks.keys = [] := SortedMap.size_eq_zero.mp (Nat.le_zero.mp hsize)
    have hnone : ∀ h, d.blockBuffer.blocks.get? h = none :=
      fun h => SortedMap.not_mem_keys.mp (by simp [hkeys])
    exact ⟨[], by simp [Handed], by simp, by simp, hnone _, by simp [hnone], rfl, rfl, rfl⟩
  | succ rounds ih =>
    simp only [sendReady]
    cases hpop : d.blockBuffer.popHeight d.nextFuelBlock with
    | none =>
      have hnone := BlockBuffer.popHeight_eq_none hle hpop
      refine ⟨[], by simp [Handed], by simp, by simp, hnone, fun h => ?_, rfl, rfl, rfl⟩
      split
      · rename_i hlt
        exact SortedMap.not_mem_keys.mp (fun hm => Nat.not_le_of_lt hlt (hle h hm))
      · rfl
    | some popped =>
      obtain ⟨block, rest⟩ := popped
      obtain ⟨hget, -, rfl, hsz⟩ := BlockBuffer.popHeight_eq_some hpop
      replace hsz : d.blockBuffer.blocks.size =
          (d.sentHead block).blockBuffer.blocks.size + 1 := hsz
      simp only
      cases hsend : d.tx.send block with
      | error err => exact ⟨[], by simp [Handed], by simp⟩
      | ok tx =>
        obtain rfl := Sender.send_ok hsend
        have hone : Handed d [block] := Handed.cons hget (by simp [Handed])
        have hle_next : ∀ k ∈ (d.sentHead block).blockBuffer.blocks.keys,
            d.nextFuelBlock + 1 ≤ k := by
          intro k hk
          obtain ⟨hne, hm⟩ := SortedMap.mem_keys_erase.mp hk
          have := hle k hm
          omega
        simp only
        cases hsucc : BlockHeight.succ d.nextFuelBlock with
        | none => exact ⟨[block], hone, rfl⟩
        | some next =>
          obtain ⟨-, rfl⟩ := BlockHeight.succ_eq_some.mp hsucc
          obtain ⟨fresh, hfresh, hend⟩ := ih (d := d.sentHead block)
            (fun k hk => hle_next k hk) (by omega)
          refine ⟨block :: fresh, hfresh.cons hget, ?_⟩
          change match sendReady rounds (d.sentHead block) with
            | .ok () d' => Drained d (block :: fresh) d'
            | .error _ d' => d'.tx.sent = d.tx.sent ++ block :: fresh
          split <;> rename_i hrun <;> rw [hrun] at hend
          · exact hend.cons
          · rw [hend]
            simp [sentHead]

/-- The loop can fail only on a dropped receiver or on the last u32 height. -/
theorem sendReady_ok {rounds : Nat} (hstays : d.tx.staysFor = none)
    (hmax : ∀ k ∈ d.blockBuffer.blocks.keys, k < u32Max) :
    ∃ d', sendReady rounds d = .ok () d' := by
  induction rounds generalizing d with
  | zero => exact ⟨d, rfl⟩
  | succ rounds ih =>
    simp only [sendReady]
    cases hpop : d.blockBuffer.popHeight d.nextFuelBlock with
    | none => exact ⟨d, rfl⟩
    | some popped =>
      obtain ⟨block, rest⟩ := popped
      obtain ⟨hget, -, rfl, -⟩ := BlockBuffer.popHeight_eq_some hpop
      have hlt := hmax _ (SortedMap.mem_keys.mpr ⟨block, hget⟩)
      simp only [Sender.send, hstays, BlockHeight.succ_eq_some.mpr ⟨hlt, rfl⟩]
      exact ih rfl (fun k hk => hmax k (SortedMap.mem_keys_erase.mp hk).2)

/-- The encoded blocks decode to these. -/
def Decoded (lib : Libraries Blob) (encoded : List Bytes)
    (blocks : List VersionedCompressedBlock) : Prop :=
  List.Forall₂ (fun bytes block => lib.fromBytes bytes = .ok block) encoded blocks

/-- The buffer with the blocks pushed one after the other. -/
def pushAll (d : Downloader Blob) (blocks : List VersionedCompressedBlock) : Downloader Blob :=
  { d with blockBuffer := ⟨d.blockBuffer.blocks.fileAll VersionedCompressedBlock.height blocks⟩ }

theorem pushBlocks_decoded {encoded : List Bytes} {blocks : List VersionedCompressedBlock}
    (h : Decoded lib encoded blocks) :
    d.pushBlocks lib encoded = .ok () (d.pushAll blocks) := by
  induction h generalizing d with
  | nil => rfl
  | cons hb _ ih =>
    simp only [pushBlocks, hb, ih]
    rfl

/-- The last block pushed with a height, as things stand after `pushed`. -/
abbrev lastPushed (h : Nat) (pushed : List VersionedCompressedBlock) :
    Option VersionedCompressedBlock :=
  latest VersionedCompressedBlock.height h pushed

/-- The downloader between two bundles, when it started from `start` and
`pushed` is everything pushed so far. -/
structure Ordered (start : Nat) (pushed : List VersionedCompressedBlock)
    (d : Downloader Blob) : Prop where
  next : IsLeast {h | start ≤ h ∧ ∀ block ∈ pushed, block.height ≠ h} d.nextFuelBlock
  heights : d.tx.sent.map VersionedCompressedBlock.height =
    List.range' start (d.nextFuelBlock - start)
  buffered : ∀ h, d.blockBuffer.blocks.get? h =
    if d.nextFuelBlock < h then lastPushed h pushed else none
  known : ∀ block ∈ d.tx.sent, block ∈ pushed

theorem new_ordered (config : Config) (staysFor : Option Nat) :
    Ordered config.nextFuelBlock [] (new config staysFor : Downloader Blob) := by
  refine ⟨⟨⟨Nat.le_refl _, by simp⟩, fun h hh => hh.1⟩, by simp [new], fun h => ?_, by simp [new]⟩
  exact (ite_self none).symm

theorem Ordered.withBundles {start : Nat} {pushed : List VersionedCompressedBlock}
    (h : Ordered start pushed d) (bundleBuffers : IncompleteBundleBuffers Blob) :
    Ordered start pushed { d with bundleBuffers } :=
  ⟨h.next, h.heights, h.buffered, h.known⟩

/-- The downloader when the send loop begins. -/
def pruned (d : Downloader Blob) : Downloader Blob :=
  { d with blockBuffer := d.blockBuffer.pruneBelow d.nextFuelBlock }

variable {start : Nat} {pushed blocks fresh : List VersionedCompressedBlock}

/-- Pruning takes nothing out that could still be sent. -/
theorem Ordered.filled (h : Ordered start pushed d) (k : Nat) :
    (d.pushAll blocks).pruned.blockBuffer.blocks.get? k =
      if d.nextFuelBlock ≤ k then lastPushed k (pushed ++ blocks) else none := by
  change ((d.blockBuffer.blocks.fileAll _ blocks).splitOff d.nextFuelBlock).get? k = _
  have happ : lastPushed k (pushed ++ blocks) = (lastPushed k blocks).or (lastPushed k pushed) :=
    latest_append
  rw [SortedMap.get?_splitOff, SortedMap.get?_fileAll, h.buffered, happ]
  rcases Nat.lt_trichotomy k d.nextFuelBlock with hlt | rfl | hgt
  · simp [Nat.not_le_of_lt hlt]
  · have hnone := latest_eq_none.mpr h.next.1.2
    simp [hnone]
  · simp [hgt, Nat.le_of_lt hgt]

theorem Ordered.filled_le (h : Ordered start pushed d) :
    ∀ k ∈ (d.pushAll blocks).pruned.blockBuffer.blocks.keys, d.nextFuelBlock ≤ k := by
  intro k hk
  obtain ⟨block, hb⟩ := SortedMap.mem_keys.mp hk
  rw [h.filled] at hb
  by_contra hlt
  simp [hlt] at hb

/-- Blocks sent in one go: their heights follow on each other, and each is the
last one pushed with its height. -/
structure InOrder (start : Nat) (pushed fresh : List VersionedCompressedBlock) : Prop where
  heights : fresh.map VersionedCompressedBlock.height = List.range' start fresh.length
  last : ∀ block ∈ fresh, lastPushed block.height pushed = some block

theorem Ordered.fresh_inOrder (h : Ordered start pushed d)
    (hf : Handed (d.pushAll blocks).pruned fresh) :
    InOrder d.nextFuelBlock (pushed ++ blocks) fresh := by
  have hat : ∀ i block, fresh[i]? = some block → block.height = d.nextFuelBlock + i ∧
      lastPushed block.height (pushed ++ blocks) = some block := by
    intro i block hi
    have hg := hf i block hi
    rw [h.filled] at hg
    change (if d.nextFuelBlock ≤ d.nextFuelBlock + i then
      lastPushed (d.nextFuelBlock + i) (pushed ++ blocks) else none) = some block at hg
    rw [if_pos (Nat.le_add_right _ _)] at hg
    have hheight := (mem_of_latest hg).2
    exact ⟨hheight, hheight ▸ hg⟩
  refine ⟨List.ext_getElem? (fun i => ?_), fun block hm => ?_⟩
  · rw [List.getElem?_map]
    cases hi : fresh[i]? with
    | none =>
      have hlen := List.getElem?_eq_none_iff.mp hi
      simp [hlen]
    | some block =>
      obtain ⟨hlen, -⟩ := List.getElem?_eq_some_iff.mp hi
      simp [(hat i block hi).1, hlen]
  · obtain ⟨i, hi⟩ := List.mem_iff_getElem?.mp hm
    exact (hat i block hi).2

theorem Ordered.drained (h : Ordered start pushed d)
    (hf : InOrder d.nextFuelBlock (pushed ++ blocks) fresh)
    (hd : Drained (d.pushAll blocks).pruned fresh d') : Ordered start (pushed ++ blocks) d' := by
  have hnext : d'.nextFuelBlock = d.nextFuelBlock + fresh.length := hd.next
  have hle : d.nextFuelBlock ≤ d'.nextFuelBlock := by omega
  have hstart : start ≤ d.nextFuelBlock := h.next.1.1
  have hmissing : lastPushed d'.nextFuelBlock (pushed ++ blocks) = none := by
    have := hd.missing
    rwa [h.filled, if_pos hle] at this
  have htx : d'.tx.sent = d.tx.sent ++ fresh := by
    rw [hd.tx]
    rfl
  refine ⟨⟨⟨by omega, latest_eq_none.mp hmissing⟩, ?_⟩, ?_, fun k => ?_, fun block hm => ?_⟩
  · intro k h
    obtain ⟨hk, hno⟩ := h
    by_contra hlt
    have hkd : d.nextFuelBlock ≤ k :=
      h.next.2 ⟨hk, fun block hm => hno block (List.mem_append_left _ hm)⟩
    have hm : k ∈ fresh.map VersionedCompressedBlock.height := by
      rw [hf.heights, List.mem_range'_1]
      omega
    obtain ⟨block, hb, rfl⟩ := List.mem_map.mp hm
    exact hno block (mem_of_latest (hf.last block hb)).1 rfl
  · rw [htx, List.map_append, h.heights, hf.heights, range'_extend _ hstart,
      show d.nextFuelBlock - start + fresh.length = d'.nextFuelBlock - start by omega]
  · rw [hd.kept, h.filled]
    rcases Nat.lt_trichotomy k d'.nextFuelBlock with hlt | rfl | hgt
    · simp [hlt, Nat.not_lt_of_gt hlt]
    · simpa using fun _ => hmissing
    · simp [hgt, Nat.not_lt_of_gt hgt, Nat.le_trans hle (Nat.le_of_lt hgt)]
  · rw [htx] at hm
    rcases List.mem_append.mp hm with hm | hm
    · exact List.mem_append_left _ (h.known block hm)
    · exact (mem_of_latest (hf.last block hm)).1

/-- What a complete bundle brings about, whether or not all goes well. -/
theorem takeBundle_spec (h : Ordered start pushed d) {bundle : Bundle}
    (hdec : Decoded lib bundle.blocks blocks) :
    ∃ fresh, InOrder d.nextFuelBlock (pushed ++ blocks) fresh ∧
      match takeBundle lib d bundle with
      | .ok () d' => Ordered start (pushed ++ blocks) d' ∧
          Drained (d.pushAll blocks).pruned fresh d'
      | .error _ d' => d'.tx.sent = d.tx.sent ++ fresh := by
  obtain ⟨fresh, hf, hend⟩ := sendReady_spec (d := (d.pushAll blocks).pruned)
    h.filled_le (Nat.le_refl _)
  refine ⟨fresh, h.fresh_inOrder hf, ?_⟩
  have htake : takeBundle lib d bundle = sendReady (d.pushAll blocks).pruned.blockBuffer.blocks.size
      (d.pushAll blocks).pruned := by
    simp only [takeBundle, pushBlocks_decoded hdec]
    rfl
  rw [htake]
  split <;> rename_i hrun <;> rw [hrun] at hend
  · exact ⟨h.drained (h.fresh_inOrder hf) hend, hend⟩
  · exact hend

theorem takeBundle_ok (h : Ordered start pushed d) {bundle : Bundle}
    (hdec : Decoded lib bundle.blocks blocks) (hstays : d.tx.staysFor = none)
    (hmax : ∀ block ∈ pushed ++ blocks, block.height < u32Max) :
    ∃ d', takeBundle lib d bundle = .ok () d' := by
  simp only [takeBundle, pushBlocks_decoded hdec]
  refine sendReady_ok hstays (fun k hk => ?_)
  obtain ⟨block, hb⟩ := SortedMap.mem_keys.mp hk
  have hfill : (d.pushAll blocks).pruned.blockBuffer.blocks.get? k = some block := hb
  rw [h.filled] at hfill
  split at hfill
  · obtain ⟨hm, rfl⟩ := mem_of_latest hfill
    exact hmax block hm
  · contradiction

/-- The loop of `process_block` over the bundles that blobs completed. -/
def takeBundles (lib : Libraries Blob) (d : Downloader Blob) :
    List Bundle → EStateM.Result Error (Downloader Blob) Unit
  | [] => .ok () d
  | bundle :: rest =>
    match takeBundle lib d bundle with
    | .error err d => .error err d
    | .ok () d => takeBundles lib d rest

/-- The bundles decode to these blocks, bundle by bundle. -/
def Contents (lib : Libraries Blob) (bundles : List Bundle)
    (contents : List (List VersionedCompressedBlock)) : Prop :=
  List.Forall₂ (fun bundle blocks => Decoded lib bundle.blocks blocks) bundles contents

theorem takeBundles_ordered {bundles : List Bundle}
    {contents : List (List VersionedCompressedBlock)} (h : Ordered start pushed d)
    (hdec : Contents lib bundles contents) (hstays : d.tx.staysFor = none)
    (hmax : ∀ block ∈ pushed ++ contents.flatten, block.height < u32Max) :
    ∃ d', takeBundles lib d bundles = .ok () d' ∧ Ordered start (pushed ++ contents.flatten) d' ∧
      d'.tx.staysFor = none := by
  induction hdec generalizing d pushed with
  | nil => exact ⟨d, rfl, by simpa using h, hstays⟩
  | @cons bundle blocks bundles contents hone _ ih =>
    rw [List.flatten_cons, ← List.append_assoc] at hmax ⊢
    obtain ⟨mid, hmid⟩ := takeBundle_ok h hone hstays
      (fun block hm => hmax block (List.mem_append_left _ hm))
    obtain ⟨fresh, -, hend⟩ := takeBundle_spec h hone
    rw [hmid] at hend
    obtain ⟨hord, hdrain⟩ := hend
    obtain ⟨d', hrun, hd', hs'⟩ := ih hord (by rw [hdrain.tx]; exact hstays) hmax
    exact ⟨d', by simp only [takeBundles, hmid, hrun], hd', hs'⟩

/-- Where a height carries one block only, what is sent depends on what was
pushed, not on the order. -/
theorem Ordered.sent_eq {pushed' : List VersionedCompressedBlock} (h : Ordered start pushed d)
    (h' : Ordered start pushed' d') (hsame : pushed'.Perm pushed)
    (hone : ∀ a ∈ pushed, ∀ b ∈ pushed, a.height = b.height → a = b) :
    d'.tx.sent = d.tx.sent := by
  have hnext : d'.nextFuelBlock = d.nextFuelBlock := by
    refine h'.next.unique ?_
    simpa only [hsame.mem_iff] using h.next
  apply eq_of_map_eq (by rw [h.heights, h'.heights, hnext])
  intro a ha b hb
  exact hone a (hsame.subset (h'.known a ha)) b (h.known b hb)

theorem Contents.take {bundles : List Bundle} {contents : List (List VersionedCompressedBlock)}
    (h : Contents lib bundles contents) (k : Nat) :
    Contents lib (bundles.take k) (contents.take k) := List.forall₂_take k h

theorem Ordered.ahead (h : Ordered start pushed d) :
    ∀ k ∈ d.blockBuffer.blocks.keys, d.nextFuelBlock < k := by
  intro k hk
  obtain ⟨block, hb⟩ := SortedMap.mem_keys.mp hk
  rw [h.buffered] at hb
  by_contra hle
  simp [hle] at hb

/-- After each of the bundles, the blocks sent are those of all heights up to
the first one missing, and only higher ones wait. Each block sent is the last
one pushed with its height by then, and no order of the bundles changes what is
sent in the end where a height carries one block only. -/
theorem reorders_exactly (lib : Libraries Blob) (config : Config) (bundles : List Bundle)
    (contents : List (List VersionedCompressedBlock)) (hdec : Contents lib bundles contents)
    (hmax : ∀ block ∈ contents.flatten, block.height < u32Max) :
    (∀ k ≤ bundles.length, ∃ d, takeBundles lib (new config none) (bundles.take k) = .ok () d ∧
      IsLeast {h | config.nextFuelBlock ≤ h ∧
        ∀ block ∈ (contents.take k).flatten, block.height ≠ h} d.nextFuelBlock ∧
      d.tx.sent.map VersionedCompressedBlock.height =
        List.range' config.nextFuelBlock (d.nextFuelBlock - config.nextFuelBlock) ∧
      ∀ h ∈ d.blockBuffer.blocks.keys, d.nextFuelBlock < h) ∧
    (∀ k bundle d d', bundles[k]? = some bundle →
      takeBundles lib (new config none) (bundles.take k) = .ok () d →
      takeBundle lib d bundle = .ok () d' →
      ∃ fresh, d'.tx.sent = d.tx.sent ++ fresh ∧ ∀ block ∈ fresh,
        lastPushed block.height (contents.take (k + 1)).flatten = some block) ∧
    ((∀ a ∈ contents.flatten, ∀ b ∈ contents.flatten, a.height = b.height → a = b) →
      ∃ sent, ∀ other : List Bundle, other.Perm bundles →
        ∃ d, takeBundles lib (new config none) other = .ok () d ∧ d.tx.sent = sent) := by
  have hall : ∀ {other : List Bundle} {contents' : List (List VersionedCompressedBlock)},
      Contents lib other contents' → (∀ block ∈ contents'.flatten, block ∈ contents.flatten) →
      ∃ d, takeBundles lib (new config none) other = .ok () d ∧
        Ordered config.nextFuelBlock contents'.flatten d := by
    intro other contents' hc hsub
    obtain ⟨d, hrun, hord, -⟩ := takeBundles_ordered (new_ordered config none) hc rfl
      (fun block hm => hmax block (hsub block (by simpa using hm)))
    exact ⟨d, hrun, by simpa using hord⟩
  have htake : ∀ k, ∀ block ∈ (contents.take k).flatten, block ∈ contents.flatten := by
    intro k block hm
    obtain ⟨blocks, hb, hm⟩ := List.mem_flatten.mp hm
    exact List.mem_flatten.mpr ⟨blocks, List.mem_of_mem_take hb, hm⟩
  refine ⟨fun k _ => ?_, ?_, fun hone => ?_⟩
  · obtain ⟨d, hrun, hord⟩ := hall (hdec.take k) (htake k)
    exact ⟨d, hrun, hord.next, hord.heights, hord.ahead⟩
  · intro k bundle d d' hk hbefore hrun
    obtain ⟨e, hrun', hord⟩ := hall (hdec.take k) (htake k)
    obtain rfl : e = d := by
      rw [hbefore] at hrun'
      exact ((EStateM.Result.ok.inj hrun').2).symm
    obtain ⟨hklt, rfl⟩ := List.getElem?_eq_some_iff.mp hk
    have hkc : k < contents.length := hdec.length_eq ▸ hklt
    have hone : Decoded lib bundles[k].blocks contents[k] :=
      (List.forall₂_iff_get.mp hdec).2 k hklt hkc
    obtain ⟨fresh, hf, hend⟩ := takeBundle_spec hord hone
    rw [hrun] at hend
    refine ⟨fresh, by rw [hend.2.tx]; rfl, fun block hm => ?_⟩
    have := hf.last block hm
    rwa [List.take_succ_eq_append_getElem hkc, List.flatten_append, List.flatten_singleton]
  · obtain ⟨d, -, hord⟩ := hall hdec (fun _ hm => hm)
    refine ⟨d.tx.sent, fun other hperm => ?_⟩
    obtain ⟨contents', hc, hperm'⟩ := List.perm_comp_forall₂ hperm hdec
    obtain ⟨d', hrun, hord'⟩ := hall hc (fun _ hm => hperm'.flatten.subset hm)
    exact ⟨d', hrun, hord.sent_eq hord' hperm'.flatten hone⟩

/-- Blobs and blocks of one byte each: a block is its height, a blob is its
header and its byte, a digit stands for a byte, and hashing changes nothing. -/
def plainLibraries : Libraries (HeaderV1 × UInt8) where
  toCodec := plainCodec
  sha256 := id
  hexDecode s := .ok (s.toList.map (fun c => (c.toNat - 48).toUInt8))
  blobOfBytes
    | [id, i, isLast, byte] => some (⟨id.toNat, i.toNat, isLast = 1⟩, byte)
    | _ => none
  fromBytes
    | [height] => .ok ⟨height.toNat, 0, [], []⟩
    | _ => .error "Hit the end of buffer, expected more data"

theorem reorders_exactly_two_bundles :
    ∃ d, takeBundles plainLibraries (new ⟨"", "", [], 0, 1⟩ none)
        [.v1 ⟨[[3], [0], [2]]⟩, .v1 ⟨[[1]]⟩] = .ok () d ∧
      d.tx.sent.map VersionedCompressedBlock.height = [1, 2, 3] ∧ d.nextFuelBlock = 4 ∧
      ∀ h ∈ d.blockBuffer.blocks.keys, 4 < h := by
  obtain ⟨d, hrun, -, hsent, hahead⟩ := (reorders_exactly plainLibraries ⟨"", "", [], 0, 1⟩
    [.v1 ⟨[[3], [0], [2]]⟩, .v1 ⟨[[1]]⟩]
    [[⟨3, 0, [], []⟩, ⟨0, 0, [], []⟩, ⟨2, 0, [], []⟩], [⟨1, 0, [], []⟩]]
    (.cons (.cons rfl (.cons rfl (.cons rfl .nil))) (.cons (.cons rfl .nil) .nil))
    (by decide)).1 2 (by decide)
  obtain ⟨e, hend, hnext⟩ : ∃ e, takeBundles plainLibraries (new ⟨"", "", [], 0, 1⟩ none)
      [.v1 ⟨[[3], [0], [2]]⟩, .v1 ⟨[[1]]⟩] = .ok () e ∧ e.nextFuelBlock = 4 := ⟨_, rfl, rfl⟩
  obtain ⟨-, rfl⟩ := EStateM.Result.ok.inj (hrun.symm.trans hend)
  rw [hnext] at hsent hahead
  exact ⟨d, hrun, hsent, hnext, hahead⟩

end Downloader
end Watchtower
