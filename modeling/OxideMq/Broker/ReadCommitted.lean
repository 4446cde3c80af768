import OxideMq.Broker.Fetch
import OxideMq.Broker.OpenTransactions

/-! What a consumer sees that reads committed data. -/

namespace OxideMq.Broker

open Lib OxideMq.Core OxideMq.Protocol OxideMq.Wal OxideMq.Stream List
open TransactionCoordinator OxideMq.Broker.Partition

structure TxnBatch where
  offset : ℤ
  bytes : Bytes
  transaction : Option (ℤ × ℕ)
  deriving DecidableEq

structure Ledger where
  sessions : ℤ → ℕ
  committed : List (ℤ × ℕ)
  batches : TopicPartition → List TxnBatch

namespace Ledger

def empty : Ledger := ⟨fun _ => 0, [], fun _ => []⟩

def Committed (ledger : Ledger) (batch : TxnBatch) : Prop :=
  ∃ transaction ∈ ledger.committed, batch.transaction = some transaction

instance (ledger : Ledger) (batch : TxnBatch) : Decidable (ledger.Committed batch) :=
  inferInstanceAs (Decidable (∃ _ ∈ _, _))

def endSession (ledger : Ledger) (producerId : ℤ) : Ledger :=
  { ledger with
    sessions := Function.update ledger.sessions producerId (ledger.sessions producerId + 1) }

def conclude (ledger : Ledger) (producerId : ℤ) (committed : Bool) : Ledger :=
  { ledger.endSession producerId with
    committed := if committed then (producerId, ledger.sessions producerId) :: ledger.committed
      else ledger.committed }

def store (ledger : Ledger) (tp : TopicPartition) (batch : TxnBatch) : Ledger :=
  { ledger with batches := Function.update ledger.batches tp (ledger.batches tp ++ [batch]) }

theorem batches_store_self (ledger : Ledger) (tp : TopicPartition) (batch : TxnBatch) :
    (ledger.store tp batch).batches tp = ledger.batches tp ++ [batch] :=
  Function.update_self _ _ _

theorem batches_store_of_ne (ledger : Ledger) {tp tp' : TopicPartition} (hne : tp' ≠ tp)
    (batch : TxnBatch) : (ledger.store tp batch).batches tp' = ledger.batches tp' :=
  Function.update_of_ne hne _ _

end Ledger

def isTxnData (batch : Bytes) : Bool := isTransactional batch && !isControl batch

structure Audited (W : Type) where
  broker : TxnBroker W
  ledger : Ledger

namespace Audited

variable {W : Type}

def fresh (tiers : Tiers W) : Audited W := ⟨TxnBroker.fresh tiers, Ledger.empty⟩

def transactionOf (s : Audited W) (sender : Sender) : Option (ℤ × ℕ) :=
  match s.broker.coordinator.checkProducer sender.transactionalId sender.producerId
    sender.producerEpoch with
  | .ok _ => some (sender.producerId, s.ledger.sessions sender.producerId)
  | .error _ => none

def noted [WalEngine W] (s : Audited W) : TxnAction → Ledger
  | .initProducerId none _ => s.ledger
  | .initProducerId (some transactionalId) _ =>
      match s.broker.coordinator.transactions.lookup transactionalId with
      | some metadata => s.ledger.endSession metadata.producerId
      | none => s.ledger
  | .addPartitionsToTxn _ _ _ _ => s.ledger
  | .endTxn transactionalId producerId producerEpoch committed _ _ =>
      match s.broker.coordinator.checkProducer transactionalId producerId producerEpoch with
      | .ok _ => s.ledger.conclude producerId committed
      | .error _ => s.ledger
  | .produce sender tp records =>
      match s.broker.cluster.appendTo tp records with
      | some (_, .ok offset) =>
          if isTxnData records then
            s.ledger.store tp ⟨offset, (s.broker.cluster.partitionFor tp).patchedBatch records,
              s.transactionOf sender⟩
          else s.ledger
      | _ => s.ledger

def exec [WalEngine W] (s : Audited W) (a : TxnAction) : Option (Audited W) :=
  (s.broker.exec a).map fun broker => ⟨broker, s.noted a⟩

def Formed (_ : Audited W) : TxnAction → Prop
  | .produce _ _ records => WellFormed records
  | _ => True

def visible (s : Audited W) (tp : TopicPartition) (e : ℤ × Bytes) : Bool :=
  !isControl e.2 && decide (e.1 < (s.broker.cluster.partitionFor tp).lastStableOffset) &&
    (!isTransactional e.2 || decide (∃ batch ∈ s.ledger.batches tp,
      batch.offset = e.1 ∧ batch.bytes = e.2 ∧ s.ledger.Committed batch))

end Audited

def Partition.Open (partition : Partition) (batch : TxnBatch) : Prop :=
  ∃ first, partition.ongoingTxns.lookup (producerIdRead batch.bytes) = some first ∧
    first ≤ batch.offset

def Partition.HasAborted (partition : Partition) (producerId : ℤ) : Prop :=
  producerId ∈ partition.abortedTxns.map Prod.fst

instance (partition : Partition) (producerId : ℤ) : Decidable (partition.HasAborted producerId) :=
  inferInstanceAs (Decidable (_ ∈ _))

theorem Partition.any_aborted (part : Partition) (pid : ℤ) :
    (part.abortedTransactions.any fun (apid, _) => apid == pid) = decide (part.HasAborted pid) := by
  rw [Bool.eq_iff_iff, any_eq_true, decide_eq_true_iff, HasAborted, mem_map]
  simp [abortedTransactions]

def Ledger.CommitSafe (ledger : Ledger) (producerId : ℤ) (tp : TopicPartition)
    (partition : Partition) : Prop :=
  ∀ batch ∈ ledger.batches tp, producerIdRead batch.bytes = producerId → partition.Open batch →
    (batch.transaction = some (producerId, ledger.sessions producerId) ∨ ledger.Committed batch) ∧
      ¬partition.HasAborted producerId

def Ledger.AbortSafe (ledger : Ledger) (producerId : ℤ) (tp : TopicPartition) : Prop :=
  ∀ batch ∈ ledger.batches tp, producerIdRead batch.bytes = producerId → ¬ledger.Committed batch

namespace Audited

variable {W : Type}

/-- Offsets stay in the range of an `i64`, the broker reads the producer id of the sender in each
transactional batch, and transactions end safely on every partition that is registered. -/
def Safe (s : Audited W) : TxnAction → Prop
  | .produce sender tp records =>
      (s.broker.cluster.partitionFor tp).stream.nextOffset + recordCountOf records < 2 ^ 63 ∧
        (isTxnData records → producerIdRead records = sender.producerId ∧ sender.producerId ≠ -1)
  | .endTxn transactionalId producerId producerEpoch committed _ _ =>
      ∀ metadata, s.broker.coordinator.checkProducer transactionalId producerId producerEpoch =
        .ok metadata → ∀ tp ∈ metadata.partitions, ∀ partition,
          s.broker.cluster.getPartition tp = some partition →
            partition.stream.nextOffset + 1 < 2 ^ 63 ∧
            if committed then s.ledger.CommitSafe producerId tp partition
            else s.ledger.AbortSafe producerId tp
  | _ => True

end Audited

structure Ledger.Extends (ledger ledger' : Ledger) : Prop where
  sessions : ∀ producerId, ledger.sessions producerId ≤ ledger'.sessions producerId
  committed : ∀ producerId number, number < ledger.sessions producerId →
    ((producerId, number) ∈ ledger'.committed ↔ (producerId, number) ∈ ledger.committed)

theorem Ledger.Extends.refl (ledger : Ledger) : ledger.Extends ledger :=
  ⟨fun _ => le_refl _, fun _ _ _ => Iff.rfl⟩

theorem Ledger.extends_store (ledger : Ledger) (tp : TopicPartition) (batch : TxnBatch) :
    ledger.Extends (ledger.store tp batch) :=
  ⟨fun _ => le_refl _, fun _ _ _ => Iff.rfl⟩

theorem Ledger.sessions_le_endSession (ledger : Ledger) (pid other : ℤ) :
    ledger.sessions other ≤ (ledger.endSession pid).sessions other := by
  show _ ≤ Function.update ledger.sessions pid (ledger.sessions pid + 1) other
  rw [Function.update_apply]
  split
  · rename_i heq
    rw [heq]
    exact Nat.le_succ _
  · exact le_refl _

theorem Ledger.extends_conclude (ledger : Ledger) (pid : ℤ) (committed : Bool) :
    ledger.Extends (ledger.conclude pid committed) := by
  refine ⟨ledger.sessions_le_endSession pid, ?_⟩
  intro other number hlt
  rw [conclude]
  cases committed with
  | false => exact Iff.rfl
  | true =>
    have hne : (other, number) ≠ (pid, ledger.sessions pid) := by
      intro heq
      cases heq
      exact lt_irrefl _ hlt
    simp [hne]

structure Partition.Sound (partition : Partition) (ledger : Ledger) (batches : List TxnBatch)
    (cache : LogCache) : Prop where
  objects : partition.stream.s3Objects = []
  offset : 0 ≤ partition.stream.nextOffset
  ongoing : ∀ producerId first, partition.ongoingTxns.lookup producerId = some first →
    first ≤ partition.stream.nextOffset
  cached : ∀ offset bytes, cache.get partition.stream.streamId offset = some bytes →
    hasHeader bytes = true ∧ (isTxnData bytes = true →
      ∃ batch ∈ batches, batch.offset = offset ∧ batch.bytes = bytes)
  owner : ∀ batch ∈ batches, ∀ producerId number, batch.transaction = some (producerId, number) →
    producerId = producerIdRead batch.bytes ∧ number ≤ ledger.sessions producerId
  ended : ∀ batch ∈ batches, ¬partition.Open batch → ∀ producerId number,
    batch.transaction = some (producerId, number) → number < ledger.sessions producerId
  decided : ∀ batch ∈ batches, ¬partition.Open batch →
    (ledger.Committed batch ↔ ¬partition.HasAborted (producerIdRead batch.bytes))

namespace Partition.Sound

variable {partition : Partition} {ledger : Ledger} {batches : List TxnBatch} {cache : LogCache}

theorem new (tp : TopicPartition) {sid : ℕ} (ledger : Ledger)
    (hunused : ∀ off, cache.get sid off = none) :
    (Partition.new tp (S3Stream.new sid 0)).Sound ledger [] cache where
  objects := rfl
  offset := le_refl _
  ongoing := by simp [Partition.new]
  cached := by
    intro off bytes hget
    exact absurd ((hunused off).symm.trans hget) (by simp)
  owner := by simp
  ended := by simp
  decided := by simp

theorem of_extends (h : partition.Sound ledger batches cache) {ledger' : Ledger}
    (hext : ledger.Extends ledger') : partition.Sound ledger' batches cache where
  objects := h.objects
  offset := h.offset
  ongoing := h.ongoing
  cached := h.cached
  owner := by
    intro batch hb producerId number htxn
    obtain ⟨hread, hle⟩ := h.owner batch hb producerId number htxn
    exact ⟨hread, hle.trans (hext.sessions producerId)⟩
  ended := by
    intro batch hb hcl producerId number htxn
    exact (h.ended batch hb hcl producerId number htxn).trans_le (hext.sessions producerId)
  decided := by
    intro batch hb hcl
    rw [← h.decided batch hb hcl]
    refine exists_congr fun ⟨producerId, number⟩ => and_congr_left fun htxn => ?_
    exact hext.committed producerId number (h.ended batch hb hcl producerId number htxn)

theorem advance (h : partition.Sound ledger batches cache) {batch : Bytes}
    (hfits : partition.stream.nextOffset + recordCountOf batch < 2 ^ 63) :
    (partition.advance batch).Sound ledger batches cache := by
  have hcnt := (recordCountOf_le batch).1
  have hoff := h.offset
  have hnext : (partition.advance batch).stream.nextOffset =
      partition.stream.nextOffset + recordCountOf batch :=
    wrapSigned_of_fits (by decide) ⟨by norm_num; omega, by norm_num; omega⟩
  have hl := lookup_advance partition batch
  have haborted := advance_abortedTxns partition batch
  -- an open transaction keeps its first offset
  have hcl : ∀ b, ¬(partition.advance batch).Open b → ¬partition.Open b := by
    rintro b hnot ⟨first, hfirst, hle⟩
    refine hnot ⟨first, ?_, hle⟩
    have hkept := hl (producerIdRead b.bytes)
    rw [hfirst, Option.getD_some, ite_self] at hkept
    exact hkept
  refine ⟨h.objects, by omega, ?_, h.cached, h.owner,
    fun b hb hnot => h.ended b hb (hcl b hnot), fun b hb hnot => ?_⟩
  · intro producerId first hfirst
    rw [hnext]
    have hfound := (hl producerId).symm.trans hfirst
    split at hfound
    · cases hold : partition.ongoingTxns.lookup producerId with
      | none =>
        rw [hold, Option.getD_none] at hfound
        have := Option.some.inj hfound
        omega
      | some old =>
        rw [hold, Option.getD_some] at hfound
        have := h.ongoing producerId old hold
        have := Option.some.inj hfound
        omega
    · have := h.ongoing producerId first hfound
      omega
  · rw [h.decided b hb (hcl b hnot), HasAborted, HasAborted, haborted]

theorem put (h : partition.Sound ledger batches cache) (off : ℤ) {bytes : Bytes}
    (stored : List TxnBatch) (hhead : hasHeader bytes = true)
    (hstored : isTxnData bytes = true → ∃ batch ∈ stored, batch.offset = off ∧ batch.bytes = bytes)
    (hopen : ∀ batch ∈ stored, partition.Open batch)
    (howner : ∀ batch ∈ stored, ∀ producerId number, batch.transaction = some (producerId, number) →
        producerId = producerIdRead batch.bytes ∧ number ≤ ledger.sessions producerId) :
    partition.Sound ledger (batches ++ stored) (cache.put partition.stream.streamId off bytes) where
  objects := h.objects
  offset := h.offset
  ongoing := h.ongoing
  cached := by
    intro off' bytes' hget
    rcases LogCache.get_of_get_put hget with ⟨-, rfl, rfl⟩ | hold
    · refine ⟨hhead, fun hdata => ?_⟩
      obtain ⟨batch, hb, heq⟩ := hstored hdata
      exact ⟨batch, mem_append_right _ hb, heq⟩
    · obtain ⟨hhead', hknown⟩ := h.cached off' bytes' hold
      refine ⟨hhead', fun hdata => ?_⟩
      obtain ⟨batch, hb, heq⟩ := hknown hdata
      exact ⟨batch, mem_append_left _ hb, heq⟩
  owner := forall_mem_append.mpr ⟨h.owner, howner⟩
  ended := forall_mem_append.mpr ⟨h.ended, fun batch hb hnot => absurd (hopen batch hb) hnot⟩
  decided := forall_mem_append.mpr ⟨h.decided, fun batch hb hnot => absurd (hopen batch hb) hnot⟩

end Partition.Sound

structure Ledger.MarkerSafe (ledger : Ledger) (producerId : ℤ) (committed : Bool)
    (batches : List TxnBatch) (partition : Partition) : Prop where
  ended : ∀ batch ∈ batches, ∀ number, batch.transaction = some (producerId, number) →
    number < ledger.sessions producerId
  commit : committed = true → ∀ batch ∈ batches, producerIdRead batch.bytes = producerId →
    partition.Open batch → ledger.Committed batch ∧ ¬partition.HasAborted producerId
  abort : committed = false → ∀ batch ∈ batches, producerIdRead batch.bytes = producerId →
    ¬ledger.Committed batch

theorem Partition.hasAborted_finishTxn (partition : Partition) (producerId : ℤ) (committed : Bool)
    (baseOffset other : ℤ) :
    (finishTxn producerId committed baseOffset partition).HasAborted other ↔
      partition.HasAborted other ∨ committed = false ∧ other = producerId := by
  cases committed with
  | true => simp [finishTxn, completeTxn, HasAborted]
  | false => simp [finishTxn, recordAbortedTxn, HasAborted]

theorem Partition.Sound.finishTxn {partition : Partition} {ledger : Ledger}
    {batches : List TxnBatch} {cache : LogCache} (h : partition.Sound ledger batches cache)
    {producerId : ℤ} {committed : Bool}
    (hsafe : ledger.MarkerSafe producerId committed batches partition) (baseOffset : ℤ) :
    (TransactionCoordinator.finishTxn producerId committed baseOffset partition).Sound ledger
      batches cache := by
  have hopen : ∀ batch, producerIdRead batch.bytes ≠ producerId → partition.Open batch →
      (TransactionCoordinator.finishTxn producerId committed baseOffset partition).Open batch := by
    rintro batch hne ⟨first, hfirst, hle⟩
    refine ⟨first, ?_, hle⟩
    rw [TransactionCoordinator.finishTxn_ongoingTxns, HashMap.lookup_erase_ite, if_neg hne, hfirst]
  have hstr := TransactionCoordinator.finishTxn_stream producerId committed baseOffset partition
  refine ⟨hstr ▸ h.objects, hstr ▸ h.offset, ?_, hstr ▸ h.cached, h.owner, ?_, ?_⟩
  · intro q first hfirst
    rw [TransactionCoordinator.finishTxn_ongoingTxns, HashMap.lookup_erase_ite] at hfirst
    rw [hstr]
    split at hfirst
    · simp at hfirst
    · exact h.ongoing q first hfirst
  · intro batch hb hnot q number htxn
    by_cases hprod : producerIdRead batch.bytes = producerId
    · obtain rfl : q = producerId :=
        (h.owner batch hb q number htxn).1.trans hprod
      exact hsafe.ended batch hb number htxn
    · exact h.ended batch hb (fun hold => hnot (hopen batch hprod hold)) q number htxn
  · intro batch hb hnot
    rw [hasAborted_finishTxn]
    by_cases hprod : producerIdRead batch.bytes = producerId
    · cases committed with
      | true =>
        by_cases hold : partition.Open batch
        · obtain ⟨hcommitted, hnever⟩ := hsafe.commit rfl batch hb hprod hold
          simp [hcommitted, hprod, hnever]
        · simp [h.decided batch hb hold]
      | false => simp [hsafe.abort rfl batch hb hprod, hprod]
    · rw [h.decided batch hb (fun hold => hnot (hopen batch hprod hold))]
      simp [hprod]

structure Ledger.Sound (ledger : Ledger) {W : Type} (cluster : ClusterState W) : Prop where
  below : ∀ tp partition, cluster.getPartition tp = some partition →
    partition.stream.streamId < cluster.nextStreamId
  distinct : ∀ tp tp' partition partition', cluster.getPartition tp = some partition →
    cluster.getPartition tp' = some partition' →
      partition.stream.streamId = partition'.stream.streamId → tp = tp'
  unused : ∀ streamId offset, cluster.nextStreamId ≤ streamId →
    cluster.tiers.logCache.get streamId offset = none
  unknown : ∀ tp, cluster.getPartition tp = none → ledger.batches tp = []
  partitions : ∀ tp partition, cluster.getPartition tp = some partition →
    partition.Sound ledger (ledger.batches tp) cluster.tiers.logCache

namespace Ledger.Sound

variable {W : Type} {ledger ledger' : Ledger} {cluster cluster' : ClusterState W}

theorem partitionFor (h : ledger.Sound cluster) (tp : TopicPartition) :
    (cluster.partitionFor tp).Sound ledger (ledger.batches tp) cluster.tiers.logCache := by
  rw [ClusterState.partitionFor]
  cases hget : cluster.getPartition tp with
  | some partition => exact h.partitions tp partition hget
  | none =>
    rw [h.unknown tp hget]
    exact Partition.Sound.new tp ledger fun off => h.unused _ off (le_refl _)

theorem of_extends (h : ledger.Sound cluster) (hext : ledger.Extends ledger')
    (hbs : ledger'.batches = ledger.batches) : ledger'.Sound cluster where
  below := h.below
  distinct := h.distinct
  unused := h.unused
  unknown := by
    rw [hbs]
    exact h.unknown
  partitions := by
    rw [hbs]
    exact fun tp partition hget => (h.partitions tp partition hget).of_extends hext

theorem update (h : ledger.Sound cluster) (hext : ledger.Extends ledger') {tp : TopicPartition}
    (hbs : ∀ tp', tp' ≠ tp → ledger'.batches tp' = ledger.batches tp')
    {partition : Partition} {tiers : Tiers W}
    (hupd : cluster.Updated cluster' tp partition tiers)
    (hstr : partition.stream.streamId = (cluster.partitionFor tp).stream.streamId)
    (hcache : ∀ streamId offset bytes, streamId ≠ partition.stream.streamId →
      tiers.logCache.get streamId offset = some bytes →
        cluster.tiers.logCache.get streamId offset = some bytes)
    (hpart : partition.Sound ledger' (ledger'.batches tp) tiers.logCache) :
    ledger'.Sound cluster' := by
  have hgrows : cluster.nextStreamId ≤ cluster'.nextStreamId := by
    rw [hupd.streamId]
    split <;> omega
  have hown : partition.stream.streamId < cluster'.nextStreamId := by
    rw [hstr, hupd.streamId, ClusterState.partitionFor]
    cases hget : cluster.getPartition tp with
    | some old => exact h.below tp old hget
    | none => exact Nat.lt_succ_self _
  -- the stream of another partition is another stream
  have hoth : ∀ tp' partition', tp' ≠ tp → cluster.getPartition tp' = some partition' →
      partition'.stream.streamId ≠ partition.stream.streamId := by
    intro tp' partition' hne hget'
    rw [hstr, ClusterState.partitionFor]
    cases hget : cluster.getPartition tp with
    | some old => exact fun heq => hne (h.distinct tp' tp partition' old hget' hget heq)
    | none => exact (h.below tp' partition' hget').ne
  have hcases : ∀ tp' partition', cluster'.getPartition tp' = some partition' →
      tp' = tp ∧ partition' = partition ∨
        tp' ≠ tp ∧ cluster.getPartition tp' = some partition' := by
    intro tp' partition' hget
    rw [hupd.partitions] at hget
    split at hget
    · rename_i heq
      exact Or.inl ⟨heq, (Option.some.inj hget).symm⟩
    · rename_i hne
      exact Or.inr ⟨hne, hget⟩
  refine ⟨?_, ?_, ?_, ?_, ?_⟩
  · intro tp' partition' hget
    rcases hcases tp' partition' hget with ⟨-, rfl⟩ | ⟨-, hold⟩
    · exact hown
    · exact (h.below tp' partition' hold).trans_le hgrows
  · intro tp₁ tp₂ partition₁ partition₂ hget₁ hget₂ heq
    rcases hcases tp₁ partition₁ hget₁ with ⟨rfl, rfl⟩ | ⟨hne₁, hold₁⟩ <;>
      rcases hcases tp₂ partition₂ hget₂ with ⟨rfl, rfl⟩ | ⟨hne₂, hold₂⟩
    · rfl
    · exact absurd heq.symm (hoth tp₂ partition₂ hne₂ hold₂)
    · exact absurd heq (hoth tp₁ partition₁ hne₁ hold₁)
    · exact h.distinct tp₁ tp₂ partition₁ partition₂ hold₁ hold₂ heq
  · intro streamId offset hle
    rw [Option.eq_none_iff_forall_ne_some]
    intro bytes hget
    rw [hupd.tiers] at hget
    have hold := hcache streamId offset bytes (by omega) hget
    rw [h.unused streamId offset (hgrows.trans hle)] at hold
    simp at hold
  · intro tp' hget
    rw [hupd.partitions] at hget
    split at hget
    · simp at hget
    · rename_i hne
      rw [hbs tp' hne]
      exact h.unknown tp' hget
  · intro tp' partition' hget
    rw [hupd.tiers]
    rcases hcases tp' partition' hget with ⟨rfl, rfl⟩ | ⟨hne, hold⟩
    · exact hpart
    · rw [hbs tp' hne]
      have hsound := (h.partitions tp' partition' hold).of_extends hext
      have hother := hoth tp' partition' hne hold
      refine { hsound with cached := fun offset bytes hget => ?_ }
      exact hsound.cached offset bytes (hcache _ offset bytes hother hget)

end Ledger.Sound

theorem isTxnData_patchedBatch (part : Partition) {batch : Bytes} (hb : WellFormed batch) :
    isTxnData (part.patchedBatch batch) = isTxnData batch := by
  rw [isTxnData, part.isTransactional_patchedBatch hb, part.isControl_patchedBatch hb, isTxnData]

theorem Partition.Sound.open_advance {part : Partition} {ledger : Ledger}
    {bs : List TxnBatch} {cache : LogCache} (h : part.Sound ledger bs cache)
    {batch : Bytes} (hb : WellFormed batch) (hdata : isTxnData batch = true)
    (hprod : producerIdRead batch ≠ -1) (transaction : Option (ℤ × ℕ)) :
    (part.advance batch).Open ⟨part.stream.nextOffset, part.patchedBatch batch, transaction⟩ := by
  have hparts : isTransactional batch = true ∧ isControl batch = false := by
    simpa [isTxnData] using hdata
  have hopens : opensTransaction (part.patchedBatch batch) = some (producerIdRead batch) := by
    rw [opensTransaction, part.hasHeader_patchedBatch hb,
      part.isTransactional_patchedBatch hb, part.isControl_patchedBatch hb,
      part.producerIdRead_patchedBatch hb, hparts.1, hparts.2]
    simp [hprod]
  have hl := lookup_advance part batch (producerIdRead batch)
  rw [hopens, if_pos rfl] at hl
  refine ⟨(part.ongoingTxns.lookup (producerIdRead batch)).getD part.stream.nextOffset, ?_, ?_⟩
  · rw [part.producerIdRead_patchedBatch hb]
    exact hl
  · cases hold : part.ongoingTxns.lookup (producerIdRead batch) with
    | none => exact le_refl _
    | some first => exact h.ongoing _ first hold

namespace Audited

variable {W : Type}

theorem sound_produce [WalEngine W] {s : Audited W} (h : s.ledger.Sound s.broker.cluster)
    {sender : Sender} {tp : TopicPartition} {records : Bytes} {cluster : ClusterState W}
    {result : Except OxideMqError ℤ} (hform : WellFormed records)
    (hsafe : s.Safe (.produce sender tp records))
    (happ : s.broker.cluster.appendTo tp records = some (cluster, result)) :
    (s.noted (.produce sender tp records)).Sound cluster := by
  obtain ⟨hfits, hsender⟩ := hsafe
  have hpart := h.partitionFor tp
  have hadv := hpart.advance hfits
  have hdata := isTxnData_patchedBatch (s.broker.cluster.partitionFor tp) hform
  have hhead := (s.broker.cluster.partitionFor tp).hasHeader_patchedBatch hform
  obtain ⟨partition, tiers, hrecs, hupd⟩ := ClusterState.appendTo_eq_some happ
  obtain ⟨tiers', result', hb, hout⟩ :=
    (s.broker.cluster.partitionFor tp).appendRecords_batch s.broker.cluster.tiers hform
  cases hb.symm.trans hrecs
  rcases hout with ⟨seq, -, rfl, rfl⟩ | ⟨e, -, rfl, rfl⟩
  · simp only [noted, happ]
    split
    · rename_i hrec
      obtain ⟨hread, hreal⟩ := hsender hrec
      refine h.update (s.ledger.extends_store tp _) ?_ hupd rfl
        (fun _ _ _ hne hget => (LogCache.get_of_get_put hget).resolve_left fun h => hne h.1) ?_
      · exact fun tp' hne => s.ledger.batches_store_of_ne hne _
      · rw [Ledger.batches_store_self]
        refine (hadv.put _ [_] hhead (fun _ => ⟨_, mem_singleton_self _, rfl, rfl⟩) ?_
          ?_).of_extends (s.ledger.extends_store tp _)
        · rw [forall_mem_singleton]
          exact hpart.open_advance hform hrec (by rw [hread]; exact hreal) _
        · rw [forall_mem_singleton]
          intro producerId number htxn
          simp only [transactionOf] at htxn
          split at htxn
          · cases htxn
            rw [producerIdRead_patchedBatch _ hform, hread]
            exact ⟨rfl, le_refl _⟩
          · cases htxn
    · rename_i hplain
      refine h.update (Ledger.Extends.refl _) (fun _ _ => rfl) hupd rfl
        (fun _ _ _ hne hget => (LogCache.get_of_get_put hget).resolve_left fun h => hne h.1) ?_
      have hput := hadv.put (s.broker.cluster.partitionFor tp).stream.nextOffset [] hhead
        (fun hyes => absurd (hdata.symm.trans hyes) hplain) (by simp) (by simp)
      rwa [append_nil] at hput
  · simp only [noted, happ]
    exact h.update (Ledger.Extends.refl _) (fun _ _ => rfl) hupd rfl (fun _ _ _ _ hget => hget) hadv

end Audited

namespace Ledger

variable {W : Type} {ledger : Ledger} {cluster cluster' : ClusterState W}
variable {producerId : ℤ} {committed : Bool} {tp : TopicPartition}

def TakesMarker (ledger : Ledger) (cluster : ClusterState W) (producerId : ℤ) (committed : Bool)
    (tp : TopicPartition) : Prop :=
  ∀ partition, cluster.getPartition tp = some partition →
    partition.stream.nextOffset + 1 < 2 ^ 63 ∧
      ledger.MarkerSafe producerId committed (ledger.batches tp) partition

theorem TakesMarker.partitionFor (htake : ledger.TakesMarker cluster producerId committed tp)
    (h : ledger.Sound cluster) :
    (cluster.partitionFor tp).stream.nextOffset + 1 < 2 ^ 63 ∧
      ledger.MarkerSafe producerId committed (ledger.batches tp) (cluster.partitionFor tp) := by
  rw [ClusterState.partitionFor]
  cases hget : cluster.getPartition tp with
  | some partition => exact htake partition hget
  | none =>
    rw [h.unknown tp hget]
    exact ⟨show (0 : ℤ) + 1 < 2 ^ 63 by norm_num, by simp, by simp, by simp⟩

theorem Sound.writeMarker [WalEngine W] (h : ledger.Sound cluster) {epoch : ℤ} {now : ℤ}
    {written : Bool} (htake : ledger.TakesMarker cluster producerId committed tp)
    (hw : writeMarker cluster producerId epoch committed now tp =
      some (cluster', written)) : ledger.Sound cluster' := by
  have hform := encodeControlBatch_wellFormed now 0 producerId epoch committed
  have hctl := isControl_encodeControlBatch now 0 producerId epoch committed
  obtain ⟨hroom, hsafe⟩ := htake.partitionFor h
  have hadv : ((cluster.partitionFor tp).advance
      (encodeControlBatch now 0 producerId epoch committed)).Sound ledger
      (ledger.batches tp) cluster.tiers.logCache :=
    (h.partitionFor tp).advance (by rwa [recordCountOf_encodeControlBatch])
  obtain ⟨cl₁, ⟨-, hw₁, hupd⟩ | ⟨-, hw₁, hupd⟩⟩ :=
    writeMarker_cases cluster producerId epoch committed now tp
  · cases hw₁.symm.trans hw
    -- a control batch opens nothing, so the marker finds what was open before
    have hsafe' : ledger.MarkerSafe producerId committed (ledger.batches tp)
        ((cluster.partitionFor tp).advance
          (encodeControlBatch now 0 producerId epoch committed)) := by
      rw [advance_control _ hform hctl]
      exact ⟨hsafe.ended, hsafe.commit, hsafe.abort⟩
    have hstr : (marked (cluster.partitionFor tp) producerId epoch
        committed now).stream.streamId = (cluster.partitionFor tp).stream.streamId := by
      rw [marked, finishTxn_stream]
      rfl
    refine h.update (Extends.refl _) (fun _ _ => rfl) hupd hstr ?_ ?_
    · intro sid off bytes hne hget
      exact (LogCache.get_of_get_put hget).resolve_left fun heq => hne (heq.1.trans hstr.symm)
    · have hput := (hadv.finishTxn hsafe' (cluster.partitionFor tp).stream.nextOffset).put
        (cluster.partitionFor tp).stream.nextOffset []
        ((cluster.partitionFor tp).hasHeader_patchedBatch hform)
        (fun hdata => by
          rw [isTxnData_patchedBatch _ hform, isTxnData, hctl] at hdata
          simp at hdata) (by simp) (by simp)
      rw [append_nil, finishTxn_stream] at hput
      exact hput
  · cases hw₁.symm.trans hw
    exact h.update (Extends.refl _) (fun _ _ => rfl) hupd rfl (fun _ _ _ _ hget => hget) hadv

theorem Sound.writeMarkers [WalEngine W] (h : ledger.Sound cluster) {epoch : ℤ}
    {clock : TopicPartition → ℤ} {order written : List TopicPartition}
    {res : Except KafkaErrorCode Unit} (hnd : order.Nodup)
    (htake : ∀ tp ∈ order, ledger.TakesMarker cluster producerId committed tp)
    (hmark : writeMarkers producerId epoch committed clock order
      cluster = some (cluster', written, res)) : ledger.Sound cluster' := by
  induction order generalizing cluster written res with
  | nil =>
    cases hmark
    exact h
  | cons tp tps ih =>
    obtain ⟨hfresh, hrest⟩ := nodup_cons.mp hnd
    obtain ⟨htp, htps⟩ := forall_mem_cons.mp htake
    rw [writeMarkers] at hmark
    split at hmark
    · simp at hmark
    · rename_i cl₁ hw
      cases hmark
      exact h.writeMarker htp hw
    · rename_i cl₁ hw
      obtain ⟨⟨cl₂, written₂, res₂⟩, hloop, heq⟩ := Option.map_eq_some_iff.mp hmark
      cases heq
      have hoths := (writeMarker_ongoing hw).2.1
      refine ih (h.writeMarker htp hw) hrest (fun tp' hmem partition hget => ?_) hloop
      have hne : tp' ≠ tp := fun heq => hfresh (heq ▸ hmem)
      exact htps tp' hmem partition ((hoths tp' hne).symm.trans hget)

theorem Sound.takesMarker (h : ledger.Sound cluster)
    (hsafe : ∀ partition, cluster.getPartition tp = some partition →
      partition.stream.nextOffset + 1 < 2 ^ 63 ∧
        if committed then ledger.CommitSafe producerId tp partition
        else ledger.AbortSafe producerId tp) :
    (ledger.conclude producerId committed).TakesMarker cluster producerId committed tp := by
  intro partition hget
  obtain ⟨hroom, hend⟩ := hsafe partition hget
  refine ⟨hroom, ?_, ?_, ?_⟩
  · intro batch hb number htxn
    have hle := ((h.partitions tp partition hget).owner batch hb producerId number htxn).2
    show number < Function.update ledger.sessions producerId _ producerId
    rw [Function.update_self]
    omega
  · rintro rfl batch hb hprod hopen
    rw [if_pos rfl] at hend
    obtain ⟨hcur | ⟨transaction, hmem, htxn⟩, hnever⟩ :=
      hend batch hb hprod hopen
    · exact ⟨⟨_, mem_cons_self, hcur⟩, hnever⟩
    · exact ⟨⟨transaction, mem_cons_of_mem _ hmem, htxn⟩, hnever⟩
  · rintro rfl batch hb hprod
    exact hend batch hb hprod

end Ledger

namespace Audited

variable {W : Type}

theorem sound_fresh {tiers : Tiers W} (hemp : ∀ sid off, tiers.logCache.get sid off = none) :
    (fresh tiers).ledger.Sound (fresh tiers).broker.cluster := by
  have hnone : ∀ tp, (fresh tiers).broker.cluster.getPartition tp = none := fun _ => rfl
  refine ⟨?_, ?_, fun sid off _ => hemp sid off, fun _ _ => rfl, ?_⟩
  · intro tp partition hget
    simp [hnone] at hget
  · intro tp tp' partition part' hget
    simp [hnone] at hget
  · intro tp partition hget
    simp [hnone] at hget

theorem sound_exec [WalEngine W] (s : Audited W) (a : TxnAction) (s' : Audited W)
    (h : s.ledger.Sound s.broker.cluster) (hcond : s.Formed a ∧ s.Safe a)
    (hexec : s.exec a = some s') : s'.ledger.Sound s'.broker.cluster := by
  obtain ⟨broker, hbroker, rfl⟩ := Option.map_eq_some_iff.mp hexec
  cases a with
  | initProducerId txId timeout =>
    cases hbroker
    cases txId with
    | none => exact h
    | some txId =>
      simp only [noted]
      split
      · exact h.of_extends ⟨s.ledger.sessions_le_endSession _, fun _ _ _ => Iff.rfl⟩ rfl
      · exact h
  | addPartitionsToTxn txId producerId epoch parts =>
    cases hbroker
    exact h
  | endTxn txId producerId epoch committed clock order =>
    rw [TxnBroker.exec] at hbroker
    split at hbroker
    · rename_i hord
      obtain ⟨⟨coord, cluster, written, res⟩, hend, rfl⟩ :=
        Option.map_eq_some_iff.mp hbroker
      obtain ⟨e, hchk, -, rfl, -⟩ | ⟨metadata, state, hchk, hmark, -⟩ := endTxn_eq_some hend
      · simp only [noted, hchk]
        exact h
      · -- the decision is noted first, and then every marker enacts it
        simp only [noted, hchk]
        have he := (checkProducer_eq_ok.mp hchk).1
        refine (h.of_extends (s.ledger.extends_conclude producerId committed) rfl).writeMarkers
          hord.1 (fun tp hmem => h.takesMarker ?_) hmark
        exact hcond.2 metadata hchk tp ((hord.mem_iff he).mp hmem)
    · simp at hbroker
  | produce sender tp recs =>
    obtain ⟨⟨cluster, res⟩, happ, rfl⟩ := Option.map_eq_some_iff.mp hbroker
    exact sound_produce h hcond.1 hcond.2 happ

theorem not_open_of_lt {part : Partition} {batch : TxnBatch}
    (hlt : batch.offset < part.lastStableOffset) : ¬part.Open batch := by
  rintro ⟨first, hfirst, hle⟩
  have := lastStableOffset_le hfirst
  omega

theorem committed_iff {part : Partition} {ledger : Ledger} {bs : List TxnBatch}
    {cache : LogCache} (h : part.Sound ledger bs cache) {off : ℤ} {bytes : Bytes}
    (hcached : cache.get part.stream.streamId off = some bytes)
    (hdata : isTxnData bytes = true) (hlt : off < part.lastStableOffset) :
    (∃ batch ∈ bs, batch.offset = off ∧ batch.bytes = bytes ∧ ledger.Committed batch) ↔
      ¬part.HasAborted (producerIdRead bytes) := by
  constructor
  · rintro ⟨batch, hb, rfl, rfl, hcommitted⟩
    exact (h.decided batch hb (not_open_of_lt hlt)).mp hcommitted
  · intro hnever
    obtain ⟨batch, hb, rfl, rfl⟩ := (h.cached off bytes hcached).2 hdata
    exact ⟨batch, hb, rfl, rfl, (h.decided batch hb (not_open_of_lt hlt)).mpr hnever⟩

theorem exposes_eq_visible {s : Audited W} (h : s.ledger.Sound s.broker.cluster)
    {tp : TopicPartition} {off : ℤ} {bytes : Bytes}
    (hcached : s.broker.cluster.tiers.logCache.get
      (s.broker.cluster.partitionFor tp).stream.streamId off = some bytes) :
    (s.broker.cluster.partitionFor tp).exposes 1 (off, bytes) = s.visible tp (off, bytes) := by
  have hpart := h.partitionFor tp
  have hiff := committed_iff hpart hcached
  rw [exposes, visible, (hpart.cached off bytes hcached).1]
  cases hctl : isControl bytes with
  | true => simp
  | false =>
    by_cases hlt : off < (s.broker.cluster.partitionFor tp).lastStableOffset
    · cases htxn : isTransactional bytes with
      | false => simp [hlt, not_le.mpr hlt]
      | true =>
        have hdecided := hiff (by rw [isTxnData, htxn, hctl]; rfl) hlt
        simp only [if_true, Bool.false_eq_true, if_false, ge_iff_le, not_le.mpr hlt,
          Bool.true_and, Bool.not_false, Bool.not_true, Bool.false_or, hlt, decide_true,
          hdecided]
        rw [any_aborted, decide_not]
    · simp [hlt, not_lt.mp hlt]

theorem fetch_returns_visible [WalEngine W] {tiers : Tiers W} {actions : List TxnAction}
    {s : Audited W} (hempty : ∀ streamId offset, tiers.logCache.get streamId offset = none)
    (hformed : Along exec Formed (fresh tiers) actions)
    (hsafe : Along exec Safe (fresh tiers) actions)
    (hrun : run exec (fresh tiers) actions = some s) (tp : TopicPartition) (fetchOffset : ℤ)
    (maxBytes : ℕ) :
    ∃ records cluster response,
      ((s.broker.cluster.partitionFor tp).readRecords s.broker.cluster.tiers fetchOffset
        maxBytes).2 = .ok records ∧
      s.broker.cluster.fetchPartition tp fetchOffset maxBytes 1 = some (cluster, response) ∧
      response.errorCode = .none ∧
      records.filter ((s.broker.cluster.partitionFor tp).exposes 1) =
        records.filter (s.visible tp) ∧
      response.records = ((records.filter (s.visible tp)).map Prod.snd).flatten := by
  have hsound : s.ledger.Sound s.broker.cluster :=
    run_invariant sound_exec (sound_fresh hempty) (hformed.and hsafe) hrun
  have hobjs := (hsound.partitionFor tp).objects
  obtain ⟨records, hread⟩ :=
    readRecords_ok s.broker.cluster.tiers fetchOffset maxBytes hobjs
  have hsame : records.filter ((s.broker.cluster.partitionFor tp).exposes 1) =
      records.filter (s.visible tp) := by
    refine List.filter_congr fun e he => ?_
    exact exposes_eq_visible hsound (mem_readRecords hobjs hread he).2
  obtain ⟨cluster, hfetch⟩ :=
    s.broker.cluster.fetchPartition_eq_some tp fetchOffset maxBytes 1
  rw [hread] at hfetch
  refine ⟨records, cluster, _, hread, hfetch, rfl, hsame, ?_⟩
  rw [← hsame]
  rfl

def oneTxn (committed : Bool) : List TxnAction :=
  [.addPartitionsToTxn "tx" 1000 0 [⟨"orders", 0⟩],
    .produce ⟨"tx", 1000, 0⟩ ⟨"orders", 0⟩ (transactionalBatch 1000),
    .endTxn "tx" 1000 0 committed (fun _ => 0) [⟨"orders", 0⟩]]

def commitOnly : List TxnAction := .initProducerId (some "tx") 60000 :: oneTxn true

def abortThenCommit : List TxnAction :=
  .initProducerId (some "tx") 60000 :: (oneTxn false ++ oneTxn true)

theorem formed_oneTxn (committed : Bool) : ∀ a ∈ oneTxn committed,
    (fresh PartitionLog.emptyTiers).Formed a := by
  have hb : WellFormed (transactionalBatch 1000) := by decide +kernel
  rw [oneTxn, forall_mem_cons, forall_mem_cons, forall_mem_singleton]
  exact ⟨trivial, hb, trivial⟩

theorem commit_returns_batch : ∃ s records cluster response,
      run exec (fresh PartitionLog.emptyTiers) commitOnly = some s ∧
      ((s.broker.cluster.partitionFor ⟨"orders", 0⟩).readRecords s.broker.cluster.tiers 0
        1024).2 = .ok records ∧
      s.broker.cluster.fetchPartition ⟨"orders", 0⟩ 0 1024 1 = some (cluster, response) ∧
      response.records = ((records.filter (s.visible ⟨"orders", 0⟩)).map Prod.snd).flatten := by
  have hform : Along exec Formed (fresh PartitionLog.emptyTiers) commitOnly :=
    along_of_forall (List.forall_mem_cons.mpr ⟨trivial, formed_oneTxn true⟩)
  have hsafe : Along exec Safe (fresh PartitionLog.emptyTiers) commitOnly := by
    refine Along.cons trivial rfl (Along.cons trivial rfl (Along.cons ?_ rfl
      (Along.cons ?_ rfl trivial)))
    · exact ⟨by decide +kernel, fun _ => ⟨by decide +kernel, by decide⟩⟩
    · intro metadata hchk tp htp partition hget
      cases hchk
      obtain rfl := Finset.mem_singleton.mp htp
      cases hget
      refine ⟨by decide +kernel, ?_⟩
      intro batch hb _ _
      obtain rfl := List.mem_singleton.mp hb
      exact ⟨Or.inl rfl, by decide⟩
  obtain ⟨records, cluster, response, hread, hfetch, -, -, hrecs⟩ :=
    fetch_returns_visible (fun _ _ => rfl) hform hsafe rfl ⟨"orders", 0⟩ 0 1024
  exact ⟨_, records, cluster, response, rfl, hread, hfetch, hrecs⟩

theorem committed_batch_hidden : ∃ s records cluster response,
      Along exec Formed (fresh PartitionLog.emptyTiers) abortThenCommit ∧
      run exec (fresh PartitionLog.emptyTiers) abortThenCommit = some s ∧
      ((s.broker.cluster.partitionFor ⟨"orders", 0⟩).readRecords s.broker.cluster.tiers 0
        1024).2 = .ok records ∧
      (records.filter (s.visible ⟨"orders", 0⟩)).map Prod.fst = [2] ∧
      s.broker.cluster.fetchPartition ⟨"orders", 0⟩ 0 1024 1 = some (cluster, response) ∧
      response.records = [] ∧
      response.records ≠ ((records.filter (s.visible ⟨"orders", 0⟩)).map Prod.snd).flatten := by
  have hform : Along exec Formed (fresh PartitionLog.emptyTiers) abortThenCommit :=
    along_of_forall (List.forall_mem_cons.mpr ⟨trivial,
      List.forall_mem_append.mpr ⟨formed_oneTxn false, formed_oneTxn true⟩⟩)
  exact ⟨_, _, _, _, hform, rfl, rfl, by decide +kernel, rfl, by decide +kernel,
    by decide +kernel⟩

end Audited

end OxideMq.Broker
