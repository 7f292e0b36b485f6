import Mathlib.Data.List.Chain
import Watchtower.Downloader.Stream

namespace Watchtower.Downloader
open Lib

/-- The child names its parent, and the beacon block that carries the parent. -/
def ChildOf (beaconRoot : Block → B256) (parent child : Block) : Prop :=
  child.header.parentHash = parent.header.hash ∧
    ∀ root ∈ child.header.parentBeaconBlockRoot, root = beaconRoot parent

instance (beaconRoot : Block → B256) (parent child : Block) :
    Decidable (ChildOf beaconRoot parent child) :=
  inferInstanceAs (Decidable (_ ∧ _))

/-- A canonical chain: each block under its own number, on top of the one before. -/
structure Chain (beaconRoot : Block → B256) where
  blocks : List Block
  numbered : blocks.map Block.number = List.range blocks.length
  linked : blocks.IsChain (ChildOf beaconRoot)

namespace Chain

variable {beaconRoot : Block → B256} {chain : Chain beaconRoot}

theorem number_of_at {h : Nat} {block : Block} (hb : chain.blocks[h]? = some block) :
    block.number = h := by
  have hlt := (List.getElem?_eq_some_iff.mp hb).1
  have hmap : (chain.blocks.map Block.number)[h]? = some block.number := by simp [hb]
  rw [chain.numbered, List.getElem?_range hlt] at hmap
  exact (Option.some.inj hmap).symm

theorem exists_parent {h : Nat} {child : Block} (hc : chain.blocks[h + 1]? = some child) :
    ∃ parent, chain.blocks[h]? = some parent ∧ ChildOf beaconRoot parent child := by
  obtain ⟨hlt, rfl⟩ := List.getElem?_eq_some_iff.mp hc
  exact ⟨chain.blocks[h], List.getElem?_eq_getElem (by omega),
    List.isChain_iff_getElem.mp chain.linked h hlt⟩

/-- What stands on a chain stands on every longer one. -/
theorem stands {longer : Chain beaconRoot} (hle : chain.blocks <+: longer.blocks) {h : Nat}
    {block : Block} (hb : chain.blocks[h]? = some block) : longer.blocks[h]? = some block := by
  obtain ⟨rest, hrest⟩ := hle
  rw [← hrest, List.getElem?_append_left (List.getElem?_eq_some_iff.mp hb).1]
  exact hb

end Chain

/-- The pipeline before a node whose canonical chain may change at any time. The
blocks it answered are noted with the chain they came from. -/
structure World (beaconRoot : Block → B256) (Blob : Type) where
  pipeline : Pipeline Blob
  chain : Chain beaconRoot
  answers : List (Chain beaconRoot × Block)

namespace World

variable {beaconRoot : Block → B256} {Blob : Type}

def start (config : Config) (chain : Chain beaconRoot) : World beaconRoot Blob where
  pipeline := .start config
  chain := chain
  answers := []

inductive Event (beaconRoot : Block → B256) where
  | reorganise (chain : Chain beaconRoot)
  | pipeline (e : Pipeline.Event)

/-- The task the node answers without an error, and what it answers. -/
def answered : Pipeline.Event → Option (Nat × Option Block)
  | .queue (.answer i (.ok found)) => some (i, found)
  | _ => none

/-- The blocks a step brings back from the node: one or none. -/
def blocksOf (e : Pipeline.Event) : List Block := ((answered e).bind Prod.snd).toList

def step (lib : Libraries Blob) (message : Queue.Failure → Error) (w : World beaconRoot Blob) :
    Event beaconRoot → Option (World beaconRoot Blob)
  | .reorganise chain => some { w with chain }
  | .pipeline e => (w.pipeline.step lib message e).map (fun pipeline =>
      { w with pipeline, answers := w.answers ++ (blocksOf e).map (w.chain, ·) })

/-- An answer for a height is an error or what the chain has there right now. -/
def Truthful (w : World beaconRoot Blob) : Event beaconRoot → Prop
  | .pipeline e => ∀ out ∈ answered e, ∀ task ∈ w.pipeline.queue.pending[out.1]?,
      out.2 = w.chain.blocks[task.height]?
  | .reorganise _ => True

instance (w : World beaconRoot Blob) : (e : Event beaconRoot) → Decidable (w.Truthful e)
  | .pipeline e => inferInstanceAs (Decidable (∀ out ∈ answered e,
      ∀ task ∈ w.pipeline.queue.pending[out.1]?, out.2 = w.chain.blocks[task.height]?))
  | .reorganise _ => inferInstanceAs (Decidable True)

/-- What was on the chain stays on it. -/
def Extends (w : World beaconRoot Blob) : Event beaconRoot → Prop
  | .pipeline _ => True
  | .reorganise chain => w.chain.blocks <+: chain.blocks

instance (w : World beaconRoot Blob) : (e : Event beaconRoot) → Decidable (w.Extends e)
  | .pipeline _ => inferInstanceAs (Decidable True)
  | .reorganise chain => inferInstanceAs (Decidable (w.chain.blocks <+: chain.blocks))

/-- The chain only grows. -/
def Growing (w : World beaconRoot Blob) (e : Event beaconRoot) : Prop :=
  w.Truthful e ∧ w.Extends e

instance (w : World beaconRoot Blob) (e : Event beaconRoot) : Decidable (w.Growing e) :=
  inferInstanceAs (Decidable (_ ∧ _))

variable {lib : Libraries Blob} {message : Queue.Failure → Error} {config : Config}
  {chain : Chain beaconRoot} {w : World beaconRoot Blob}

/-- A block given for a height stood there on one of the chains noted. -/
def Given (log : List (Chain beaconRoot × Block)) (h : Nat) (out : Answer) : Prop :=
  ∀ block, out = .ok (some block) → ∃ chain, (chain, block) ∈ log ∧ chain.blocks[h]? = some block

theorem given_faithful (log : List (Chain beaconRoot × Block)) : Queue.Faithful (Given log) := by
  intro h block hg
  obtain ⟨chain, -, hat⟩ := hg block rfl
  exact Chain.number_of_at hat

/-- A truthful step of the queue is one that the notes account for. -/
theorem admitted_of_truthful {e : Queue.Event} (ht : w.Truthful (.pipeline (.queue e)))
    {log : List (Chain beaconRoot × Block)}
    (hlog : ∀ entry ∈ (blocksOf (.queue e)).map (w.chain, ·), entry ∈ log) :
    Queue.Admitted (Given log) w.pipeline.queue e := by
  cases e with
  | answer i response =>
    intro task htask block hout
    obtain rfl := getBlock_eq_ok.mp hout
    refine ⟨w.chain, hlog _ ?_, ?_⟩
    · simp [blocksOf, answered]
    · exact (ht (i, some block) rfl task htask).symm
  | join | advance | hangUp => trivial

/-- The download queue runs against answers that are all noted. -/
theorem queue_run (run : Run (step lib message) Truthful (start config chain) w)
    {log : List (Chain beaconRoot × Block)} (hlog : ∀ entry ∈ w.answers, entry ∈ log) :
    Run Queue.step (Queue.Admitted (Given log)) (Queue.startFrom config.daStartBlock)
      w.pipeline.queue := by
  induction run with
  | start => exact .start
  | next _ ht hst ih =>
    rename_i e _
    cases e with
    | reorganise chain =>
      cases hst
      exact ih hlog
    | pipeline e =>
      obtain ⟨pipeline, hp, rfl⟩ := Option.map_eq_some_iff.mp hst
      have hsplit := List.forall_mem_append.mp hlog
      rcases (Pipeline.step_cases hp).queue_cases with hsame | ⟨q, rfl, hq⟩
      · rw [hsame]
        exact ih hsplit.1
      · exact (ih hsplit.1).next (admitted_of_truthful ht hsplit.2) hq

theorem pipeline_sound (run : Run (step lib message) Truthful (start config chain) w) :
    Pipeline.Sound message w.pipeline := by
  apply run.invariant (motive := fun w => Pipeline.Sound message w.pipeline)
    (Pipeline.start_sound config)
  intro w w' e h _ hst
  cases e with
  | reorganise chain =>
    cases hst
    exact h
  | pipeline e =>
    obtain ⟨pipeline, hp, rfl⟩ := Option.map_eq_some_iff.mp hst
    exact h.step (Pipeline.step_cases hp)

/-- Two blocks handed over together have consecutive numbers, and each stood on
the chain when it was answered. -/
theorem handed_given (run : Run (step lib message) Truthful (start config chain) w)
    {thisBlock nextBlock : Block} (hstage : w.pipeline.stage = .fetch thisBlock nextBlock) :
    nextBlock.number = thisBlock.number + 1 ∧
    (∃ chain, (chain, thisBlock) ∈ w.answers ∧
      chain.blocks[thisBlock.number]? = some thisBlock) ∧
    ∃ chain, (chain, nextBlock) ∈ w.answers ∧
      chain.blocks[thisBlock.number + 1]? = some nextBlock := by
  have hsound := pipeline_sound run
  obtain ⟨earlier, rest, hsent⟩ := hsound.sent_of_reads (by rw [hstage]; rfl)
  rw [hstage] at hsent
  have horder := Queue.run_inOrder (given_faithful w.answers) (queue_run run (fun _ hm => hm))
  have hat : ∀ i block, w.pipeline.queue.sent[i]? = some block →
      block.number = config.daStartBlock + i := by
    intro i block hi
    have hlt := (List.getElem?_eq_some_iff.mp hi).1
    have hmap : (w.pipeline.queue.sent.map Block.number)[i]? = some block.number := by simp [hi]
    rw [horder.numbers, List.getElem?_range' hlt] at hmap
    simpa [eq_comm] using hmap
  have hthis := hat earlier.length thisBlock (by simp [hsent, Stage.reads])
  have hnext := hat (earlier.length + 1) nextBlock (by simp [hsent, Stage.reads])
  have hnumber : nextBlock.number = thisBlock.number + 1 := by omega
  refine ⟨hnumber, horder.given thisBlock ?_ thisBlock rfl, ?_⟩
  · simp [hsent, Stage.reads]
  · rw [← hnumber]
    exact horder.given nextBlock (by simp [hsent, Stage.reads]) nextBlock rfl

/-- While the chain only grows, what was answered stays on it. -/
theorem answers_stand (run : Run (step lib message) Growing (start config chain) w) :
    ∀ entry ∈ w.answers, entry.1.blocks <+: w.chain.blocks := by
  apply run.invariant (motive := fun w => ∀ entry ∈ w.answers, entry.1.blocks <+: w.chain.blocks)
    (by simp [start])
  intro w w' e h hgrow hst
  cases e with
  | reorganise chain =>
    cases hst
    exact fun entry hm => (h entry hm).trans hgrow.2
  | pipeline e =>
    obtain ⟨pipeline, hp, rfl⟩ := Option.map_eq_some_iff.mp hst
    intro entry hm
    rcases List.mem_append.mp hm with hm | hm
    · exact h entry hm
    · obtain ⟨block, -, rfl⟩ := List.mem_map.mp hm
      exact List.prefix_rfl

/-- The sidecars asked for are those of the block that `next_block` is a child of. -/
theorem getSidecars_of_child {parent nextBlock : Block} (h : ChildOf beaconRoot parent nextBlock)
    (d : Downloader Blob) (http : Downloader.Http)
    (hroot : nextBlock.header.parentBeaconBlockRoot ≠ none) :
    d.getSidecarsFromNextBlock http nextBlock =
      (http (Downloader.sidecarsUrl d.beaconUrl (beaconRoot parent))).map some := by
  obtain ⟨root, hsome⟩ := Option.ne_none_iff_exists'.mp hroot
  obtain rfl := h.2 root hsome
  rw [Downloader.getSidecarsFromNextBlock, hsome]

/-- Blocks handed over together have consecutive numbers, and the second is a
child of whatever stood at the number of the first when the second was answered:
of the first itself unless the chain was reorganised there in between, and always
when the chain only grows. -/
theorem handed_blocks_linked (lib : Libraries Blob) (message : Queue.Failure → Error)
    (config : Config) (chain : Chain beaconRoot) {w : World beaconRoot Blob}
    {thisBlock nextBlock : Block} (hstage : w.pipeline.stage = .fetch thisBlock nextBlock) :
    (Run (step lib message) Truthful (start config chain) w →
      nextBlock.number = thisBlock.number + 1 ∧
      (∃ source, (source, thisBlock) ∈ w.answers ∧
        source.blocks[thisBlock.number]? = some thisBlock) ∧
      ∃ source parent, (source, nextBlock) ∈ w.answers ∧
        source.blocks[nextBlock.number]? = some nextBlock ∧
        source.blocks[thisBlock.number]? = some parent ∧ ChildOf beaconRoot parent nextBlock ∧
        (nextBlock.header.parentHash = thisBlock.header.hash ↔
          parent.header.hash = thisBlock.header.hash)) ∧
    (Run (step lib message) Growing (start config chain) w →
      ChildOf beaconRoot thisBlock nextBlock ∧
      w.chain.blocks[thisBlock.number]? = some thisBlock ∧
      ∀ http, nextBlock.header.parentBeaconBlockRoot ≠ none →
        w.pipeline.downloader.getSidecarsFromNextBlock http nextBlock =
          (http (Downloader.sidecarsUrl w.pipeline.downloader.beaconUrl
            (beaconRoot thisBlock))).map some) := by
  refine ⟨fun run => ?_, fun run => ?_⟩
  · obtain ⟨hnumber, hthis, source, hnext, hat⟩ := handed_given run hstage
    obtain ⟨parent, hparent, hchild⟩ := Chain.exists_parent hat
    exact ⟨hnumber, hthis, source, parent, hnext, hnumber ▸ hat, hparent, hchild,
      by rw [hchild.1]⟩
  · obtain ⟨-, ⟨source, hmem, hthis⟩, source', hmem', hnext⟩ :=
      handed_given (run.mono (fun _ _ h => h.1)) hstage
    have hthis' := Chain.stands (answers_stand run _ hmem) hthis
    have hnext' := Chain.stands (answers_stand run _ hmem') hnext
    obtain ⟨parent, hparent, hchild⟩ := Chain.exists_parent hnext'
    obtain rfl : thisBlock = parent := Option.some.inj (hthis'.symm.trans hparent)
    exact ⟨hchild, hthis', fun http hroot => getSidecars_of_child hchild _ http hroot⟩

/-- A beacon root for each L1 block. -/
def plainRoot (block : Block) : B256 := 7 :: block.header.hash

def genesis : Block := ⟨⟨0, [0], [], none⟩, .full []⟩

/-- A block of height 1 that is not to stay. -/
def orphan : Block := ⟨⟨1, [1], [0], some (plainRoot genesis)⟩, .full []⟩

/-- The block that stays, with a blob of the target. -/
def replacement : Block :=
  ⟨⟨1, [2], [0], some (plainRoot genesis)⟩, .full [⟨[], 3, some [[1, 0]]⟩]⟩

def onTop : Block := ⟨⟨2, [3], [2], some (plainRoot replacement)⟩, .full []⟩

def forked : Chain plainRoot := ⟨[genesis, orphan], by decide, by decide⟩

def short : Chain plainRoot := ⟨[genesis, replacement], by decide, by decide⟩

def grown : Chain plainRoot := ⟨[genesis, replacement, onTop], by decide, by decide⟩

/-- The chain changes between the answers for the heights 1 and 2. -/
def changes (block : Block) : List (Event plainRoot) :=
  List.flatten [(Queue.advances 9).map (.pipeline ∘ .queue),
    [.pipeline (.queue (.answer 0 (.ok (some block)))), .reorganise grown],
    [.pipeline (.queue (.answer 1 (.ok (some onTop)))), .pipeline (.queue (.join 0))],
    [.pipeline (.queue .advance), .pipeline .read],
    (Queue.advances 3).map (.pipeline ∘ .queue),
    [.pipeline (.queue (.join 0)), .pipeline (.queue .advance), .pipeline .read]]

theorem handed_blocks_linked_grown :
    ∃ w : World plainRoot (HeaderV1 × UInt8),
      Run (step plainLibraries (fun _ => "")) Growing (start ⟨"", "", [], 1, 0⟩ short) w ∧
      w.pipeline.stage = .fetch replacement onTop ∧ ChildOf plainRoot replacement onTop := by
  obtain ⟨w, run, hstage⟩ : ∃ w : World plainRoot (HeaderV1 × UInt8),
      Run (step plainLibraries (fun _ => "")) Growing
        (start ⟨"", "", [], 1, 0⟩ short) w ∧
      w.pipeline.stage = .fetch replacement onTop :=
    Run.exists_of_drive (changes replacement) (by decide)
  exact ⟨w, run, hstage, ((handed_blocks_linked plainLibraries (fun _ => "")
    ⟨"", "", [], 1, 0⟩ short hstage).2 run).1⟩

/-- A block and the child of another are handed over together, and the blob that
stands in the canonical block is not asked for. -/
theorem handed_across_reorganisation :
    (∃ w : World plainRoot (HeaderV1 × UInt8),
      Run (step plainLibraries (fun _ => "")) Truthful
        (start ⟨"", "", [], 1, 0⟩ forked) w ∧
      w.pipeline.stage = .fetch orphan onTop ∧
      w.chain.blocks[orphan.number]? = some replacement) ∧
    onTop.header.parentHash ≠ orphan.header.hash ∧ ¬ ChildOf plainRoot orphan onTop ∧
    getBlockTxBlobs replacement [] = [[1, 0]] ∧
    getBlobsFromBeaconResponse plainLibraries (getBlockTxBlobs orphan [])
      [⟨"0011", "0x70"⟩] = .ok [] :=
  ⟨Run.exists_of_drive (changes orphan) (by decide), by decide, by decide, by decide, by decide⟩

end World
end Watchtower.Downloader
