import Mathlib.Logic.Encodable.Basic
import Watchtower.Lib.Result
import Watchtower.Types

namespace Watchtower.ClientExt
open Lib

/-- The part of a header that the producer fixes, with what is `generated`
from the rest of the block beside it. -/
structure ApplicationHeader (Generated : Type) where
  daHeight : Nat
  consensusParametersVersion : Nat
  stateTransitionBytecodeVersion : Nat
  generated : Generated
  deriving DecidableEq

structure ConsensusHeader (Hash Generated : Type) where
  prevRoot : Hash
  height : Nat
  time : Nat
  generated : Generated
  deriving DecidableEq

/-- `txIdCommitment` is there with fault proving only. -/
structure GeneratedApplicationFields (Hash : Type) where
  transactionsCount : Nat
  messageReceiptCount : Nat
  transactionsRoot : Hash
  messageOutboxRoot : Hash
  eventInboxRoot : Hash
  txIdCommitment : Option Hash
  deriving DecidableEq

structure GeneratedConsensusFields (Hash : Type) where
  applicationHash : Hash
  deriving DecidableEq

structure PartialBlockHeader (Hash : Type) where
  application : ApplicationHeader Unit
  consensus : ConsensusHeader Hash Unit
  deriving DecidableEq

structure BlockHeader (Hash : Type) where
  application : ApplicationHeader (GeneratedApplicationFields Hash)
  consensus : ConsensusHeader Hash (GeneratedConsensusFields Hash)
  deriving DecidableEq

structure Block (Hash Transaction : Type) where
  header : BlockHeader Hash
  transactions : List Transaction
  deriving DecidableEq

/-- A header as the sentry answers it. Its other roots and counts are not read. -/
structure Header (Hash : Type) where
  id : Hash
  daHeight : Nat
  consensusParametersVersion : Nat
  stateTransitionBytecodeVersion : Nat
  eventInboxRoot : Hash
  height : Nat
  prevRoot : Hash
  time : Nat
  deriving DecidableEq

inductive TransactionStatus (Receipt : Type) where
  | success (receipts : List Receipt)
  | other
  deriving DecidableEq

structure TransactionResponse (TransactionType Receipt : Type) where
  transaction : TransactionType
  status : TransactionStatus Receipt
  deriving DecidableEq

structure Genesis (Hash : Type) where
  chainConfigHash : Hash
  coinsRoot : Hash
  contractsRoot : Hash
  messagesRoot : Hash
  transactionsRoot : Hash
  deriving DecidableEq

/-- The consensus data of a block, as the client reads it. -/
inductive ClientConsensus (Hash : Type) where
  | genesis (genesis : Genesis Hash)
  | poa (signature : Bytes)
  | unknown
  deriving DecidableEq

inductive Consensus (Hash : Type) where
  | genesis (genesis : Genesis Hash)
  | poa (signature : Bytes)
  deriving DecidableEq

/-- What the conversion of a block takes from fuel-core: the readers of the
client, and how headers and blocks are put together. -/
structure FuelTypes where
  Hash : Type
  Opaque : Type
  TransactionType : Type
  Transaction : Type
  Receipt : Type
  SchemaConsensus : Type
  hashEq : DecidableEq Hash
  toResponse : Opaque → Except Error (TransactionResponse TransactionType Receipt)
  toTransaction : TransactionType → Except Error Transaction
  messageId : Receipt → Option Hash
  toConsensus : SchemaConsensus → ClientConsensus Hash
  transactionsRoot : List Transaction → Hash
  messageOutboxRoot : List Hash → Hash
  /-- The chain id is read with fault proving only. -/
  generate : Nat → PartialBlockHeader Hash → List Transaction → List Hash → Hash →
    Except Error (BlockHeader Hash)
  headerId : BlockHeader Hash → Hash
  tryFromExecuted : BlockHeader Hash → List Transaction → Option (Block Hash Transaction)

instance (types : FuelTypes) : DecidableEq types.Hash := types.hashEq

/-- A block as a sentry answers it. -/
structure FullBlock (types : FuelTypes) where
  header : Header types.Hash
  consensus : types.SchemaConsensus
  transactions : List types.Opaque

structure SealedBlock (types : FuelTypes) where
  entity : Block types.Hash types.Transaction
  consensus : Consensus types.Hash

structure SealedBlockWithMetadata (types : FuelTypes) where
  block : SealedBlock types
  receipts : List (Option (List types.Receipt))

namespace SealedBlockWithMetadata

variable {types : FuelTypes}

def receiptsOf {TransactionType Receipt : Type}
    (tx : TransactionResponse TransactionType Receipt) : Option (List Receipt) :=
  match tx.status with
  | .success receipts => some receipts
  | .other => none

/-- The ids of the messages in the receipts of what succeeded. -/
def messagesOf (types : FuelTypes) (receipts : List (Option (List types.Receipt))) :
    List types.Hash :=
  receipts.reduceOption.flatMap (fun receipt => receipt.filterMap types.messageId)

def partialHeader {Hash : Type} (header : Header Hash) : PartialBlockHeader Hash where
  application := {
    daHeight := header.daHeight
    consensusParametersVersion := header.consensusParametersVersion
    stateTransitionBytecodeVersion := header.stateTransitionBytecodeVersion
    generated := () }
  consensus := {
    prevRoot := header.prevRoot
    height := header.height
    time := header.time
    generated := () }

def consensusOf {Hash : Type} : ClientConsensus Hash → Except Error (Consensus Hash)
  | .genesis genesis => .ok (.genesis genesis)
  | .poa signature => .ok (.poa signature)
  | .unknown => .error "Unknown consensus type"

def tryFromFullBlockAndChainId (types : FuelTypes) (chainId : Nat) (fullBlock : FullBlock types) :
    Except Error (SealedBlockWithMetadata types) :=
  match fullBlock.transactions.mapM types.toResponse with
  | .error err => .error err
  | .ok responses =>
    let receipts := responses.map receiptsOf
    let messages := messagesOf types receipts
    match responses.mapM (fun tx => types.toTransaction tx.transaction) with
    | .error err => .error err
    | .ok transactions =>
      match types.generate chainId (partialHeader fullBlock.header) transactions messages
        fullBlock.header.eventInboxRoot with
      | .error err => .error err
      | .ok header =>
        if types.headerId header ≠ fullBlock.header.id then .error "Header id mismatch"
        else
          match types.tryFromExecuted header transactions with
          | none => .error "Failed to create block from transactions"
          | some entity =>
            match consensusOf (types.toConsensus fullBlock.consensus) with
            | .error err => .error err
            | .ok consensus => .ok ⟨⟨entity, consensus⟩, receipts⟩

end SealedBlockWithMetadata

/-- What a header keeps of the partial header it was generated from. -/
def BlockHeader.known {Hash : Type} (header : BlockHeader Hash) : PartialBlockHeader Hash where
  application := { header.application with generated := () }
  consensus := { header.consensus with generated := () }

namespace FuelTypes

/-- `generate` and `try_from_executed` put together what they are given: the
header has the fields handed in and the roots and counts of the rest, the block
has that header and the transactions. -/
structure Generates (types : FuelTypes) : Prop where
  known : ∀ {chainId partialHeader transactions messages inboxRoot header},
    types.generate chainId partialHeader transactions messages inboxRoot = .ok header →
    header.known = partialHeader
  generated : ∀ {chainId partialHeader transactions messages inboxRoot header},
    types.generate chainId partialHeader transactions messages inboxRoot = .ok header →
    header.application.generated.transactionsCount = transactions.length ∧
    header.application.generated.messageReceiptCount = messages.length ∧
    header.application.generated.transactionsRoot = types.transactionsRoot transactions ∧
    header.application.generated.messageOutboxRoot = types.messageOutboxRoot messages ∧
    header.application.generated.eventInboxRoot = inboxRoot
  executed : ∀ {header transactions block},
    types.tryFromExecuted header transactions = some block → block = ⟨header, transactions⟩

/-- No two headers share an id, and no two lists of transactions a root. -/
structure CollisionFree (types : FuelTypes) : Prop where
  headerId : Function.Injective types.headerId
  transactionsRoot : Function.Injective types.transactionsRoot

end FuelTypes

/-- Hashes kept as the terms that were hashed. -/
inductive Digest where
  | nothing
  | word (value : Nat)
  | node (left right : Digest)
  deriving DecidableEq

def Digest.ofList : List Digest → Digest
  | [] => .nothing
  | digest :: digests => .node digest (ofList digests)

theorem Digest.ofList_injective : Function.Injective Digest.ofList := by
  intro one other h
  induction one generalizing other with
  | nil => cases other <;> simp_all [Digest.ofList]
  | cons digest digests ih =>
    cases other with
    | nil => simp [Digest.ofList] at h
    | cons digest' digests' =>
      simp only [Digest.ofList, Digest.node.injEq] at h
      rw [h.1, ih h.2]

def Digest.ofHeader (header : BlockHeader Digest) : Digest :=
  ofList [
    word header.application.daHeight,
    word header.application.consensusParametersVersion,
    word header.application.stateTransitionBytecodeVersion,
    word header.application.generated.transactionsCount,
    word header.application.generated.messageReceiptCount,
    header.application.generated.transactionsRoot,
    header.application.generated.messageOutboxRoot,
    header.application.generated.eventInboxRoot,
    ofList header.application.generated.txIdCommitment.toList,
    header.consensus.prevRoot,
    word header.consensus.height,
    word header.consensus.time,
    header.consensus.generated.applicationHash]

theorem Digest.ofHeader_injective : Function.Injective Digest.ofHeader := by
  intro one other h
  have hfields := Digest.ofList_injective h
  simp only [List.cons.injEq, Digest.word.injEq] at hfields
  obtain ⟨h1, h2, h3, h4, h5, h6, h7, h8, h9, h10, h11, h12, h13, -⟩ := hfields
  have hcommitment : one.application.generated.txIdCommitment =
      other.application.generated.txIdCommitment := by
    have hlist := Digest.ofList_injective h9
    cases hone : one.application.generated.txIdCommitment <;>
      cases hother : other.application.generated.txIdCommitment <;> simp_all
  obtain ⟨⟨_, _, _, ⟨_, _, _, _, _, _⟩⟩, ⟨_, _, _, ⟨_⟩⟩⟩ := one
  obtain ⟨⟨_, _, _, ⟨_, _, _, _, _, _⟩⟩, ⟨_, _, _, ⟨_⟩⟩⟩ := other
  simp_all

/-- A sentry whose transactions are numbers, answered with their receipts. -/
def plainTypes : FuelTypes where
  Hash := Digest
  Opaque := Nat × Option (List Nat)
  TransactionType := Nat
  Transaction := Nat
  Receipt := Nat
  SchemaConsensus := Bytes
  hashEq := inferInstance
  toResponse := fun answered => .ok {
    transaction := answered.1
    status := match answered.2 with
      | some receipts => .success receipts
      | none => .other }
  toTransaction := .ok
  messageId := fun receipt => if receipt = 0 then none else some (.word receipt)
  toConsensus := .poa
  transactionsRoot := fun transactions => Digest.ofList (transactions.map .word)
  messageOutboxRoot := Digest.ofList
  generate := fun _ partialHeader transactions messages inboxRoot => .ok {
    application := { partialHeader.application with
      generated := {
        transactionsCount := transactions.length
        messageReceiptCount := messages.length
        transactionsRoot := Digest.ofList (transactions.map .word)
        messageOutboxRoot := Digest.ofList messages
        eventInboxRoot := inboxRoot
        txIdCommitment := none } }
    consensus := { partialHeader.consensus with
      generated := {
        applicationHash := Digest.ofList
          [Digest.ofList (transactions.map .word), Digest.ofList messages, inboxRoot] } } }
  headerId := Digest.ofHeader
  tryFromExecuted := fun header transactions =>
    if header.application.generated.transactionsRoot = Digest.ofList (transactions.map .word) then
      some ⟨header, transactions⟩
    else none

theorem plainTypes_generates : plainTypes.Generates := by
  constructor
  · intro _ _ _ _ _ header h
    obtain rfl := Except.ok.inj h
    rfl
  · intro _ _ _ _ _ header h
    obtain rfl := Except.ok.inj h
    exact ⟨rfl, rfl, rfl, rfl, rfl⟩
  · intro header transactions block h
    by_cases hroot : header.application.generated.transactionsRoot =
        Digest.ofList (transactions.map .word)
    · exact (Option.some.inj ((if_pos hroot).symm.trans h)).symm
    · exact absurd ((if_neg hroot).symm.trans h) (by simp)

theorem plainTypes_collisionFree : plainTypes.CollisionFree := by
  constructor
  · exact Digest.ofHeader_injective
  · intro one other h
    exact List.map_injective_iff.mpr (fun _ _ hw => Digest.word.inj hw)
      (Digest.ofList_injective h)

/-- Two transactions, the second of which sends a message. What the signature
and the other receipts are, the id does not say. -/
def plainFullBlock (signature : Bytes) (receipts : Option (List Nat)) : FullBlock plainTypes where
  header := {
    id := Digest.ofHeader {
      application := {
        daHeight := 3
        consensusParametersVersion := 1
        stateTransitionBytecodeVersion := 2
        generated := {
          transactionsCount := 2
          messageReceiptCount := 1
          transactionsRoot := Digest.ofList [.word 10, .word 11]
          messageOutboxRoot := Digest.ofList [.word 5]
          eventInboxRoot := .word 8
          txIdCommitment := none } }
      consensus := {
        prevRoot := .word 7
        height := 4
        time := 100
        generated := {
          applicationHash := Digest.ofList
            [Digest.ofList [.word 10, .word 11], Digest.ofList [.word 5], .word 8] } } }
    daHeight := 3
    consensusParametersVersion := 1
    stateTransitionBytecodeVersion := 2
    eventInboxRoot := .word 8
    height := 4
    prevRoot := .word 7
    time := 100 }
  consensus := signature
  transactions := [(10, receipts), (11, some [5])]

namespace SealedBlockWithMetadata

variable {types : FuelTypes} {chainId : Nat} {fullBlock : FullBlock types}
  {converted : SealedBlockWithMetadata types}

/-- What a conversion that succeeds went through. -/
structure Converted (types : FuelTypes) (chainId : Nat) (fullBlock : FullBlock types)
    (converted : SealedBlockWithMetadata types)
    (responses : List (TransactionResponse types.TransactionType types.Receipt))
    (header : BlockHeader types.Hash) (transactions : List types.Transaction) : Prop where
  answered : fullBlock.transactions.mapM types.toResponse = .ok responses
  read : responses.mapM (fun tx => types.toTransaction tx.transaction) = .ok transactions
  receipts : converted.receipts = responses.map receiptsOf
  generated : types.generate chainId (partialHeader fullBlock.header) transactions
    (messagesOf types converted.receipts) fullBlock.header.eventInboxRoot = .ok header
  claimed : types.headerId header = fullBlock.header.id
  executed : types.tryFromExecuted header transactions = some converted.block.entity

theorem converted_of_ok
    (h : tryFromFullBlockAndChainId types chainId fullBlock = .ok converted) :
    ∃ responses header transactions,
      Converted types chainId fullBlock converted responses header transactions := by
  unfold tryFromFullBlockAndChainId at h
  split at h
  · contradiction
  · rename_i responses hresponses
    simp only at h
    split at h
    · contradiction
    · rename_i transactions htransactions
      split at h
      · contradiction
      · rename_i header hheader
        split at h
        · contradiction
        · rename_i hid
          split at h
          · contradiction
          · rename_i entity hentity
            split at h
            · contradiction
            · obtain rfl := Except.ok.inj h
              exact ⟨responses, header, transactions, hresponses, htransactions, rfl, hheader,
                not_not.mp hid, hentity⟩

namespace Converted

variable {responses : List (TransactionResponse types.TransactionType types.Receipt)}
  {header : BlockHeader types.Hash} {transactions : List types.Transaction}

theorem entity (h : Converted types chainId fullBlock converted responses header transactions)
    (hgen : types.Generates) : converted.block.entity = ⟨header, transactions⟩ :=
  hgen.executed h.executed

theorem transactionsRoot
    (h : Converted types chainId fullBlock converted responses header transactions)
    (hgen : types.Generates) :
    header.application.generated.transactionsRoot = types.transactionsRoot transactions :=
  (hgen.generated h.generated).2.2.1

end Converted

/-- One entry of receipts stands for each transaction, at its place. -/
structure InOrder (types : FuelTypes) (fullBlock : FullBlock types)
    (converted : SealedBlockWithMetadata types) : Prop where
  whole : converted.block.entity.transactions.length = fullBlock.transactions.length
  receipts : converted.receipts.length = converted.block.entity.transactions.length
  placed : ∀ (k : Nat) answered, fullBlock.transactions[k]? = some answered →
    ∃ response transaction, types.toResponse answered = .ok response ∧
      types.toTransaction response.transaction = .ok transaction ∧
      converted.block.entity.transactions[k]? = some transaction ∧
      converted.receipts[k]? = some (receiptsOf response)

theorem inOrder_of_ok (hgen : types.Generates)
    (h : tryFromFullBlockAndChainId types chainId fullBlock = .ok converted) :
    InOrder types fullBlock converted := by
  obtain ⟨responses, header, transactions, hc⟩ := converted_of_ok h
  have hresponses := length_of_mapM_ok hc.answered
  have htransactions := length_of_mapM_ok hc.read
  constructor
  · rw [hc.entity hgen, htransactions, hresponses]
  · rw [hc.entity hgen, hc.receipts, List.length_map, htransactions]
  · intro k answered hk
    obtain ⟨response, hresponse, hto⟩ := getElem?_of_mapM_ok hc.answered hk
    obtain ⟨transaction, htransaction, hread⟩ := getElem?_of_mapM_ok hc.read hresponse
    refine ⟨response, transaction, hto, hread, ?_, ?_⟩
    · rw [hc.entity hgen]
      exact htransaction
    · rw [hc.receipts, List.getElem?_map, hresponse, Option.map_some]

theorem claimed_of_ok (hgen : types.Generates)
    (h : tryFromFullBlockAndChainId types chainId fullBlock = .ok converted) :
    types.headerId converted.block.entity.header = fullBlock.header.id := by
  obtain ⟨responses, header, transactions, hc⟩ := converted_of_ok h
  rw [hc.entity hgen, hc.claimed]

/-- The transactions of a converted block are the ones its header commits to. -/
theorem root_of_ok (hgen : types.Generates)
    (h : tryFromFullBlockAndChainId types chainId fullBlock = .ok converted) :
    converted.block.entity.header.application.generated.transactionsRoot =
      types.transactionsRoot converted.block.entity.transactions := by
  obtain ⟨responses, header, transactions, hc⟩ := converted_of_ok h
  rw [hc.entity hgen]
  exact hc.transactionsRoot hgen

/-- A claimed id leaves a sentry one choice of header and of transactions. -/
theorem header_id_binds_block (hgen : types.Generates) (hfree : types.CollisionFree)
    (chainId : Nat) :
    (∀ fullBlock converted, tryFromFullBlockAndChainId types chainId fullBlock = .ok converted →
      types.headerId converted.block.entity.header = fullBlock.header.id ∧
      InOrder types fullBlock converted) ∧
    (∀ first second one other, tryFromFullBlockAndChainId types chainId first = .ok one →
      tryFromFullBlockAndChainId types chainId second = .ok other →
      first.header.id = second.header.id →
      one.block.entity.header = other.block.entity.header ∧
      one.block.entity.transactions = other.block.entity.transactions) := by
  constructor
  · intro fullBlock converted h
    exact ⟨claimed_of_ok hgen h, inOrder_of_ok hgen h⟩
  · intro first second one other hone hother hid
    have hheader : one.block.entity.header = other.block.entity.header := by
      apply hfree.headerId
      rw [claimed_of_ok hgen hone, claimed_of_ok hgen hother, hid]
    refine ⟨hheader, ?_⟩
    apply hfree.transactionsRoot
    rw [← root_of_ok hgen hone, ← root_of_ok hgen hother, hheader]

theorem header_id_binds_block_plain :
    ∃ one other, tryFromFullBlockAndChainId plainTypes 0 (plainFullBlock [1] none) = .ok one ∧
      tryFromFullBlockAndChainId plainTypes 0 (plainFullBlock [2] (some [0])) = .ok other ∧
      one.receipts = [none, some [(5 : Nat)]] ∧
      other.receipts = [some [(0 : Nat)], some [(5 : Nat)]] ∧
      one.block.entity.header = other.block.entity.header ∧
      one.block.entity.transactions = other.block.entity.transactions := by
  refine ⟨_, _, rfl, rfl, rfl, rfl, ?_⟩
  exact (header_id_binds_block plainTypes_generates plainTypes_collisionFree 0).2
    (plainFullBlock [1] none) (plainFullBlock [2] (some [0])) _ _ rfl rfl rfl

end SealedBlockWithMetadata
end Watchtower.ClientExt
