import Watchtower.Lib.Result
import Watchtower.Syncer.FuelCore

namespace Watchtower.Syncer
open Lib

/-- A `Range<u32>`: from `start` up to but not including `stop`. -/
structure HeightRange where
  start : Nat
  stop : Nat
  deriving DecidableEq

namespace HeightRange

def len (range : HeightRange) : Nat := range.stop - range.start

def isEmpty (range : HeightRange) : Bool := decide (range.stop ≤ range.start)

def heights (range : HeightRange) : List Nat := List.range' range.start range.len

end HeightRange

inductive PageDirection where
  | forward
  | backward
  deriving DecidableEq

structure PaginationRequest where
  cursor : Option String
  results : Nat
  direction : PageDirection
  deriving DecidableEq

structure ChainInfo where
  latestHeight : Nat
  chainId : Nat
  deriving DecidableEq

/-- The sentry behind the GraphQL client, at the time it is asked, with the
readers of what it answers: `try_from_full_block_and_chain_id` and `postcard`. -/
structure FuelClient (FullBlock : Type) where
  chainInfo : Except Error ChainInfo
  fullBlocks : PaginationRequest → Except Error (List FullBlock)
  daCompressedBlock : Nat → Except Error (Option Bytes)
  ofFullBlock : Nat → FullBlock → Except Error SealedBlock
  fromBytes : Bytes → Except Error VersionedCompressedBlock

namespace FuelClient

variable {FullBlock : Type} (client : FuelClient FullBlock)

def lastHeight : Except Error Nat :=
  client.chainInfo.map ChainInfo.latestHeight

/-- A length over `i32::MAX` panics. -/
def blocksFor (range : HeightRange) : Except Error (List SealedBlock) :=
  match client.chainInfo with
  | .error err => .error err
  | .ok info =>
    if range.isEmpty then .ok []
    else if 2 ^ 31 ≤ range.len then .error "Should be a valid i32"
    else
      match client.fullBlocks ⟨some (toString (range.start - 1)), range.len, .forward⟩ with
      | .error err => .error err
      | .ok results => results.mapM (client.ofFullBlock info.chainId)

def decodeCompressed : Option Bytes → Except Error (Option VersionedCompressedBlock)
  | none => .ok none
  | some bytes => (client.fromBytes bytes).map some

/-- One request for each height, all at once. -/
def compressedBlocksFor (range : HeightRange) :
    Except Error (List (Option VersionedCompressedBlock)) :=
  if range.isEmpty then .ok []
  else
    match range.heights.mapM client.daCompressedBlock with
    | .error err => .error err
    | .ok compressedBlocks => compressedBlocks.mapM client.decodeCompressed

/-- The sentry answers a request for a height with nothing or with a block of
that height. -/
def AnswersHeight : Prop :=
  ∀ {height bytes block}, client.daCompressedBlock height = .ok (some bytes) →
    client.fromBytes bytes = .ok block → block.height = height

end FuelClient

/-- What the sentry makes of a request for the compressed block of a height. -/
def FuelClient.Answers {FullBlock : Type} (client : FuelClient FullBlock) (height : Nat)
    (item : Option VersionedCompressedBlock) : Prop :=
  ∃ answer, client.daCompressedBlock height = .ok answer ∧
    client.decodeCompressed answer = .ok item

theorem FuelClient.AnswersHeight.height_eq {FullBlock : Type} {client : FuelClient FullBlock}
    (h : client.AnswersHeight) {height : Nat} {block : VersionedCompressedBlock}
    (hanswer : client.Answers height (some block)) : block.height = height := by
  obtain ⟨answer, hask, hdecode⟩ := hanswer
  cases answer with
  | none => simp [FuelClient.decodeCompressed] at hdecode
  | some bytes =>
    simp only [FuelClient.decodeCompressed] at hdecode
    cases hb : client.fromBytes bytes with
    | error err => simp [hb, Except.map] at hdecode
    | ok decoded =>
      simp only [hb, Except.map, Except.ok.injEq, Option.some.injEq] at hdecode
      exact hdecode ▸ h hask hb

/-- The compressed blocks of a range come in the order of its heights, one
answer for each. -/
theorem FuelClient.compressedBlocksFor_answers {FullBlock : Type} {client : FuelClient FullBlock}
    {range : HeightRange} {items : List (Option VersionedCompressedBlock)}
    (h : client.compressedBlocksFor range = .ok items) :
    List.Forall₂ client.Answers range.heights items := by
  unfold FuelClient.compressedBlocksFor at h
  split at h
  · rename_i hempty
    have hheights : range.heights = [] := by
      simp only [HeightRange.isEmpty, decide_eq_true_eq] at hempty
      simp only [HeightRange.heights, HeightRange.len, List.range'_eq_nil_iff]
      omega
    rw [hheights, ← Except.ok.inj h]
    exact .nil
  · split at h
    · contradiction
    · rename_i answers hanswers
      have hlen := length_of_mapM_ok hanswers
      have hlen' := length_of_mapM_ok h
      apply List.forall₂_iff_get.mpr
      refine ⟨by omega, ?_⟩
      intro k hk hk'
      have hmid : k < answers.length := hlen ▸ hk
      exact ⟨answers[k], (forall₂_of_mapM_ok hanswers).get hk hmid,
        (forall₂_of_mapM_ok h).get hmid hk'⟩

end Watchtower.Syncer
