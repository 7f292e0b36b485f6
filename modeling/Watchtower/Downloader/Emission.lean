import Watchtower.Downloader.Reorder
import Watchtower.Lib.Result

namespace Watchtower.Downloader
open Lib

/-- Items of the stream: blocks of all heights from `start` on, and at most one
error, which is the last. -/
def InSequence (start : Nat) : List (Except Error VersionedCompressedBlock) → Prop
  | [] => True
  | .ok block :: rest => block.height = start ∧ InSequence (start + 1) rest
  | .error _ :: rest => rest = []

theorem inSequence_append {start : Nat} {blocks : List VersionedCompressedBlock}
    {tail : List (Except Error VersionedCompressedBlock)}
    (h : blocks.map VersionedCompressedBlock.height = List.range' start blocks.length)
    (ht : InSequence (start + blocks.length) tail) :
    InSequence start (blocks.map .ok ++ tail) := by
  induction blocks generalizing start with
  | nil => exact ht
  | cons block blocks ih =>
    simp only [List.map_cons, List.length_cons, List.range'_succ, List.cons.injEq] at h
    refine ⟨h.1, ih h.2 ?_⟩
    rwa [List.length_cons, ← Nat.add_assoc, Nat.add_right_comm] at ht

theorem InSequence.left {start : Nat} {items rest : List (Except Error VersionedCompressedBlock)}
    (h : InSequence start (items ++ rest)) : InSequence start items := by
  induction items generalizing start with
  | nil => trivial
  | cons item items ih =>
    cases item with
    | ok block => exact ⟨h.1, ih h.2⟩
    | error err => exact (List.append_eq_nil_iff.mp h).1

theorem InSequence.next {start : Nat} {blocks : List VersionedCompressedBlock}
    {block : VersionedCompressedBlock} (h : InSequence start (blocks.map .ok ++ [.ok block])) :
    block.height = start + blocks.length := by
  induction blocks generalizing start with
  | nil => exact h.1
  | cons first blocks ih =>
    have := ih h.2
    rw [List.length_cons]
    omega

/-- Nothing comes behind an error. -/
theorem InSequence.right_nil {start : Nat}
    {items rest : List (Except Error VersionedCompressedBlock)} {err : Error}
    (h : InSequence start (items ++ rest)) (hm : .error err ∈ items) : rest = [] := by
  induction items generalizing start with
  | nil => cases hm
  | cons item items ih =>
    cases item with
    | ok block => exact ih h.2 (by simpa using hm)
    | error err => exact (List.append_eq_nil_iff.mp h).2

variable {Blob : Type} {start : Nat} {pushed : List VersionedCompressedBlock}
  {d : Downloader Blob}

end Watchtower.Downloader
