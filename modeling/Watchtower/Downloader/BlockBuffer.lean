import Watchtower.Lib.Latest
import Watchtower.Types

namespace Watchtower.Downloader
open Lib

structure BlockBuffer where
  blocks : SortedMap Nat VersionedCompressedBlock
  deriving DecidableEq

namespace BlockBuffer

def empty : BlockBuffer := ⟨.empty⟩

def push (buffer : BlockBuffer) (block : VersionedCompressedBlock) : BlockBuffer :=
  ⟨buffer.blocks.insert block.height block⟩

/-- Drops every block below the high water mark. -/
def pruneBelow (buffer : BlockBuffer) (height : Nat) : BlockBuffer :=
  ⟨buffer.blocks.splitOff height⟩

/-- Takes the first block out, if it is the one of the given height. -/
def popHeight (buffer : BlockBuffer) (height : Nat) :
    Option (VersionedCompressedBlock × BlockBuffer) :=
  match buffer.blocks.first? with
  | some (k, block) => if k = height then some (block, ⟨buffer.blocks.erase k⟩) else none
  | none => none

theorem popHeight_eq_some {buffer rest : BlockBuffer} {height : Nat}
    {block : VersionedCompressedBlock} (h : buffer.popHeight height = some (block, rest)) :
    buffer.blocks.get? height = some block ∧ (∀ k ∈ buffer.blocks.keys, height ≤ k) ∧
      rest = ⟨buffer.blocks.erase height⟩ ∧ buffer.blocks.size = rest.blocks.size + 1 := by
  unfold popHeight at h
  split at h
  · rename_i k b hf
    split at h
    · rename_i hk
      subst hk
      simp only [Option.some.injEq, Prod.mk.injEq] at h
      obtain ⟨rfl, rfl⟩ := h
      obtain ⟨hb, hle⟩ := SortedMap.first?_eq_some.mp hf
      exact ⟨hb, hle, rfl, SortedMap.size_erase_first hf⟩
    · contradiction
  · contradiction

/-- With nothing kept below the height asked for, the block is either handed
out or not there. -/
theorem popHeight_eq_none {buffer : BlockBuffer} {height : Nat}
    (hle : ∀ k ∈ buffer.blocks.keys, height ≤ k) (h : buffer.popHeight height = none) :
    buffer.blocks.get? height = none := by
  cases hg : buffer.blocks.get? height with
  | none => rfl
  | some block =>
    have hf := SortedMap.first?_eq_some.mpr ⟨hg, hle⟩
    simp [popHeight, hf] at h

end BlockBuffer
end Watchtower.Downloader
