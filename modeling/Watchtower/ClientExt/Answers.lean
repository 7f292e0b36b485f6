import Watchtower.ClientExt.FullBlock

namespace Watchtower.ClientExt
open Lib SealedBlockWithMetadata

/-- How a sentry writes down a transaction with the receipts it succeeded with,
and the consensus data of a block. -/
structure Writers (types : FuelTypes) where
  transaction : types.Transaction → Option (List types.Receipt) → types.Opaque
  consensus : Consensus types.Hash → types.SchemaConsensus

/-- The client reads back what was written. -/
structure Writers.ReadBack {types : FuelTypes} (writers : Writers types) : Prop where
  transaction : ∀ transaction receipts, ∃ response,
    types.toResponse (writers.transaction transaction receipts) = .ok response ∧
    types.toTransaction response.transaction = .ok transaction ∧ receiptsOf response = receipts
  consensus : ∀ consensus,
    consensusOf (types.toConsensus (writers.consensus consensus)) = .ok consensus

namespace SealedBlockWithMetadata

variable {types : FuelTypes} {writers : Writers types} {chainId : Nat} {fullBlock : FullBlock types}
  {held converted : SealedBlockWithMetadata types}

def header (held : SealedBlockWithMetadata types) : BlockHeader types.Hash :=
  held.block.entity.header

def transactions (held : SealedBlockWithMetadata types) : List types.Transaction :=
  held.block.entity.transactions

/-- What a sentry that holds the block answers. -/
def answer (writers : Writers types) (held : SealedBlockWithMetadata types) : FullBlock types where
  header := {
    id := types.headerId held.header
    daHeight := held.header.application.daHeight
    consensusParametersVersion := held.header.application.consensusParametersVersion
    stateTransitionBytecodeVersion := held.header.application.stateTransitionBytecodeVersion
    eventInboxRoot := held.header.application.generated.eventInboxRoot
    height := held.header.consensus.height
    prevRoot := held.header.consensus.prevRoot
    time := held.header.consensus.time }
  consensus := writers.consensus held.block.consensus
  transactions := List.zipWith writers.transaction held.transactions held.receipts

/-- A block whose header is the one its transactions and the messages in its
receipts make, with an entry of receipts for each transaction. -/
structure WellFormed (types : FuelTypes) (chainId : Nat) (held : SealedBlockWithMetadata types) :
    Prop where
  receipts : held.receipts.length = held.transactions.length
  generated : types.generate chainId held.header.known held.transactions
    (messagesOf types held.receipts) held.header.application.generated.eventInboxRoot =
      .ok held.header
  executed : types.tryFromExecuted held.header held.transactions = some held.block.entity

theorem WellFormed.transactionsRoot (h : WellFormed types chainId held) (hgen : types.Generates) :
    held.header.application.generated.transactionsRoot =
      types.transactionsRoot held.transactions :=
  (hgen.generated h.generated).2.2.1

/-- Transactions and receipts written one beside the other are read apart again. -/
theorem read_back (hread : writers.ReadBack) {transactions : List types.Transaction}
    {receipts : List (Option (List types.Receipt))}
    (hlen : receipts.length = transactions.length) :
    ∃ responses,
      (List.zipWith writers.transaction transactions receipts).mapM types.toResponse =
        .ok responses ∧
      responses.mapM (fun tx => types.toTransaction tx.transaction) = .ok transactions ∧
      responses.map receiptsOf = receipts := by
  induction transactions generalizing receipts with
  | nil =>
    obtain rfl := List.length_eq_zero_iff.mp hlen
    exact ⟨[], rfl, rfl, rfl⟩
  | cons transaction transactions ih =>
    cases receipts with
    | nil => contradiction
    | cons receipt receipts =>
      obtain ⟨response, hresponse, htransaction, hreceipt⟩ := hread.transaction transaction receipt
      obtain ⟨responses, hresponses, htransactions, hreceipts⟩ := ih (Nat.succ.inj hlen)
      refine ⟨response :: responses, ?_, ?_, ?_⟩
      · rw [List.zipWith_cons_cons]
        exact mapM_cons_of_ok hresponse hresponses
      · exact mapM_cons_of_ok htransaction htransactions
      · rw [List.map_cons, hreceipt, hreceipts]

/-- A block that is held and well formed comes through as it is. -/
theorem converted_of_answer (hread : writers.ReadBack) (h : WellFormed types chainId held) :
    tryFromFullBlockAndChainId types chainId (held.answer writers) = .ok held := by
  obtain ⟨responses, hresponses, htransactions, hreceipts⟩ := read_back hread h.receipts
  have hpartial : partialHeader (held.answer writers).header = held.header.known := rfl
  have hinbox : (held.answer writers).header.eventInboxRoot =
      held.header.application.generated.eventInboxRoot := rfl
  have hid : (held.answer writers).header.id = types.headerId held.header := rfl
  have hconsensus : consensusOf (types.toConsensus (held.answer writers).consensus) =
      .ok held.block.consensus := hread.consensus held.block.consensus
  unfold tryFromFullBlockAndChainId
  rw [show (held.answer writers).transactions.mapM types.toResponse = .ok responses from hresponses]
  simp only [htransactions, hreceipts, hpartial, hinbox, h.generated, hid, ne_eq, not_true_eq_false,
    if_false, h.executed, hconsensus]

/-- And nothing else comes through. -/
theorem wellFormed_of_ok (hgen : types.Generates)
    (h : tryFromFullBlockAndChainId types chainId fullBlock = .ok converted) :
    WellFormed types chainId converted := by
  obtain ⟨responses, header, transactions, hc⟩ := converted_of_ok h
  have hentity := hc.entity hgen
  have hheader : converted.header = header := by rw [SealedBlockWithMetadata.header, hentity]
  have htransactions : converted.transactions = transactions := by
    rw [SealedBlockWithMetadata.transactions, hentity]
  have hinbox := (hgen.generated hc.generated).2.2.2.2
  constructor
  · exact (inOrder_of_ok hgen h).receipts
  · rw [hheader, htransactions, hgen.known hc.generated, hinbox]
    exact hc.generated
  · rw [hheader, htransactions]
    exact hc.executed

/-- The header answered is the one the block has. -/
theorem header_of_ok (hgen : types.Generates)
    (h : tryFromFullBlockAndChainId types chainId fullBlock = .ok converted) :
    (converted.answer writers).header = fullBlock.header := by
  obtain ⟨responses, header, transactions, hc⟩ := converted_of_ok h
  have hheader : converted.header = header := by
    rw [SealedBlockWithMetadata.header, hc.entity hgen]
  have hknown : header.known = partialHeader fullBlock.header := hgen.known hc.generated
  have hinbox := (hgen.generated hc.generated).2.2.2.2
  have hid := hc.claimed
  cases hanswered : fullBlock.header
  simp_all [answer, partialHeader, BlockHeader.known]

/-- Whatever comes under the id of a well-formed block is that block, up to its
seal and its receipts. -/
theorem entity_eq_of_id (hgen : types.Generates) (hfree : types.CollisionFree) {otherId : Nat}
    (hheld : WellFormed types chainId held)
    (h : tryFromFullBlockAndChainId types otherId fullBlock = .ok converted)
    (hid : fullBlock.header.id = types.headerId held.header) :
    converted.block.entity = held.block.entity := by
  have hheader : converted.header = held.header :=
    hfree.headerId (by rw [SealedBlockWithMetadata.header, claimed_of_ok hgen h, hid])
  have htransactions : converted.transactions = held.transactions := by
    apply hfree.transactionsRoot
    rw [← (wellFormed_of_ok hgen h).transactionsRoot hgen, ← hheld.transactionsRoot hgen, hheader]
  rw [hgen.executed (wellFormed_of_ok hgen h).executed, hgen.executed hheld.executed, hheader,
    htransactions]

/-- The conversion takes exactly the well-formed blocks that a sentry may hold,
and gives them back; what it takes says no other thing in its header than a
sentry that holds the block would; and no other block comes under its id. -/
theorem conversion_round_trip (hgen : types.Generates) (hfree : types.CollisionFree)
    (hread : writers.ReadBack) (chainId : Nat) :
    (∀ held, WellFormed types chainId held ↔
      tryFromFullBlockAndChainId types chainId (held.answer writers) = .ok held) ∧
    (∀ fullBlock converted, tryFromFullBlockAndChainId types chainId fullBlock = .ok converted →
      WellFormed types chainId converted ∧
      (converted.answer writers).header = fullBlock.header) ∧
    ∀ held fullBlock converted, WellFormed types chainId held →
      tryFromFullBlockAndChainId types chainId fullBlock = .ok converted →
      fullBlock.header.id = (held.answer writers).header.id →
      converted.block.entity = held.block.entity ∧
      converted.receipts.length = held.receipts.length := by
  refine ⟨?_, ?_, ?_⟩
  · intro held
    exact ⟨converted_of_answer hread, wellFormed_of_ok hgen⟩
  · intro fullBlock converted h
    exact ⟨wellFormed_of_ok hgen h, header_of_ok hgen h⟩
  · intro held fullBlock converted hheld h hid
    have hentity := entity_eq_of_id hgen hfree hheld h hid
    refine ⟨hentity, ?_⟩
    rw [(wellFormed_of_ok hgen h).receipts, hheld.receipts, SealedBlockWithMetadata.transactions,
      hentity]
    rfl

end SealedBlockWithMetadata

/-- The types of before, with consensus data of both kinds. -/
def heldTypes : FuelTypes :=
  { plainTypes with
    SchemaConsensus := Consensus Digest
    toConsensus := fun
      | .genesis genesis => .genesis genesis
      | .poa signature => .poa signature }

theorem heldTypes_generates : heldTypes.Generates where
  known {chainId} _ _ _ _ _ h :=
    @FuelTypes.Generates.known _ plainTypes_generates chainId _ _ _ _ _ h
  generated {chainId} _ _ _ _ _ h :=
    @FuelTypes.Generates.generated _ plainTypes_generates chainId _ _ _ _ _ h
  executed h := plainTypes_generates.executed h

theorem heldTypes_collisionFree : heldTypes.CollisionFree :=
  ⟨plainTypes_collisionFree.headerId, plainTypes_collisionFree.transactionsRoot⟩

def heldWriters : Writers heldTypes where
  transaction := fun transaction receipts => (transaction, receipts)
  consensus := id

theorem heldWriters_readBack : heldWriters.ReadBack where
  transaction := by
    intro transaction receipts
    refine ⟨_, rfl, rfl, ?_⟩
    cases receipts <;> rfl
  consensus := by
    intro consensus
    cases consensus <;> rfl

/-- A block of one transaction that sends one message. -/
def heldAt (height : Nat) : SealedBlockWithMetadata heldTypes where
  block := {
    entity := {
      header := {
        application := {
          daHeight := 3
          consensusParametersVersion := 1
          stateTransitionBytecodeVersion := 2
          generated := {
            transactionsCount := 1
            messageReceiptCount := 1
            transactionsRoot := Digest.ofList [.word height]
            messageOutboxRoot := Digest.ofList [.word 5]
            eventInboxRoot := .nothing
            txIdCommitment := none } }
        consensus := {
          prevRoot := .word height
          height := height
          time := 100
          generated := {
            applicationHash := Digest.ofList
              [Digest.ofList [.word height], Digest.ofList [.word 5], .nothing] } } }
      transactions := [height] }
    consensus := .poa [1] }
  receipts := [some [(5 : Nat)]]

theorem heldAt_wellFormed (height chainId : Nat) :
    WellFormed heldTypes chainId (heldAt height) where
  receipts := rfl
  generated := rfl
  executed := if_pos rfl

/-- The block at height 4 under another seal. -/
def resealed : FullBlock heldTypes :=
  { (heldAt 4).answer heldWriters with consensus := .poa [2] }

theorem conversion_round_trip_resealed :
    tryFromFullBlockAndChainId heldTypes 0 ((heldAt 4).answer heldWriters) = .ok (heldAt 4) ∧
      ∃ converted, tryFromFullBlockAndChainId heldTypes 0 resealed = .ok converted ∧
        converted.block.consensus = .poa [2] ∧ WellFormed heldTypes 0 converted ∧
        converted.block.entity = (heldAt 4).block.entity := by
  obtain ⟨hheld, haccepted, hclaimed⟩ := conversion_round_trip heldTypes_generates
    heldTypes_collisionFree heldWriters_readBack 0
  refine ⟨(hheld (heldAt 4)).mp (heldAt_wellFormed 4 0), _, rfl, rfl, ?_, ?_⟩
  · exact (haccepted resealed _ rfl).1
  · exact (hclaimed (heldAt 4) resealed _ (heldAt_wellFormed 4 0) rfl rfl).1

end Watchtower.ClientExt
