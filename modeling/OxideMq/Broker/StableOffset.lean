import OxideMq.Broker.ReadCommitted

/-! The last stable offset of one partition, under payloads of several batches. -/

namespace OxideMq.Broker

open Lib OxideMq.Core OxideMq.Protocol OxideMq.Wal OxideMq.Stream List

section

variable {batch : Bytes} (hbatch : WellFormed batch) (total : ℕ) (offset : ℤ)

include hbatch

theorem isTxnData_patchHeader : isTxnData (patchHeader batch total offset) = isTxnData batch := by
  have hhead := hbatch.header
  rw [isTxnData, isTransactional, isControl, Partition.attributesOf_patchHeader (by omega)]
  rfl

theorem producerIdRead_patchHeader :
    producerIdRead (patchHeader batch total offset) = producerIdRead batch := by
  have hhead := hbatch.header
  rw [producerIdRead, field_patchHeader (by omega) _ _ (Or.inr (by omega)), producerIdRead]

theorem opensTransaction_patchHeader_append (rest : Bytes) :
    opensTransaction (patchHeader batch batch.length offset ++ rest) =
      if isTxnData batch && producerIdRead batch != -1 then some (producerIdRead batch)
      else none := by
  have hhead := hbatch.header
  have hlen : (patchHeader batch batch.length offset).length = batch.length :=
    patchHeader_length (by omega) _ _
  have hfield (i n : ℕ) (hi : 21 ≤ i) (hn : i + n ≤ 61) :
      field (patchHeader batch batch.length offset ++ rest) i n = field batch i n := by
    rw [field_append_left _ _ (by omega), field_patchHeader (by omega) _ _ (Or.inr hi)]
  have hmagic : magicOf (patchHeader batch batch.length offset ++ rest) = 2 := by
    have hone : field (patchHeader batch batch.length offset ++ rest) 16 1 = field batch 16 1 := by
      rw [field_append_left _ _ (by omega), field_patchHeader (by omega) _ _ (Or.inl (by omega))]
    rw [Partition.magicOf_eq_field (by rw [length_append]; omega),
      Partition.magicOf_eq_field (by omega), hbatch.magic] at hone
    exact singleton_inj.mp hone
  have hhas : hasHeader (patchHeader batch batch.length offset ++ rest) = true := by
    have hlong : 61 ≤ batch.length + rest.length := by omega
    simp [hasHeader, hmagic, hlen, hlong]
  have hattr : attributesOf (patchHeader batch batch.length offset ++ rest) =
      attributesOf batch := by
    rw [attributesOf, hfield 21 2 (by omega) (by omega), attributesOf]
  have hprod : producerIdRead (patchHeader batch batch.length offset ++ rest) =
      producerIdRead batch := by
    rw [producerIdRead, hfield 39 8 (by omega) (by omega), producerIdRead]
  rw [opensTransaction, hhas, hprod, isTransactional, isControl, hattr]
  rfl

end

structure UndecidedBatch where
  producerId : ℤ
  readAs : ℤ
  baseOffset : ℤ
  deriving DecidableEq, Repr

structure TxnLog (W : Type) where
  partition : Partition
  tiers : Tiers W
  undecided : List UndecidedBatch

inductive TxnLogAction where
  | append (batches : List Bytes)
  | completeTxn (producerId : ℤ)
  | recordAbortedTxn (producerId firstOffset : ℤ)

namespace TxnLog

variable {W : Type}
variable {batches : List Bytes} {result : Except OxideMqError ℤ}

def fresh (topicPartition : TopicPartition) (streamId : ℕ) (startOffset : ℤ) (tiers : Tiers W) :
    TxnLog W :=
  ⟨Partition.new topicPartition (S3Stream.new streamId startOffset), tiers, []⟩

def undecidedBy (batches : List Bytes) (base : ℤ) : Except OxideMqError ℤ → List UndecidedBatch
  | .error _ => []
  | .ok _ => ((stamped batches base).filter isTxnData).map fun bytes =>
      ⟨producerIdOf bytes, producerIdRead bytes, baseOffsetOf bytes⟩

def decide (log : TxnLog W) (producerId : ℤ) : List UndecidedBatch :=
  log.undecided.filter fun u => u.producerId ≠ producerId

def exec [WalEngine W] (log : TxnLog W) : TxnLogAction → Option (TxnLog W)
  | .append batches =>
      (log.partition.appendRecords log.tiers batches.flatten).map
        fun (partition, tiers, result) =>
          ⟨partition, tiers,
            log.undecided ++ undecidedBy batches log.partition.stream.nextOffset result⟩
  | .completeTxn producerId =>
      some { log with
        partition := log.partition.completeTxn producerId
        undecided := log.decide producerId }
  | .recordAbortedTxn producerId firstOffset =>
      some { log with
        partition := log.partition.recordAbortedTxn producerId firstOffset
        undecided := log.decide producerId }

def Formed (_ : TxnLog W) : TxnLogAction → Prop
  | .append batches => batches ≠ [] ∧ ∀ b ∈ batches, WellFormed b
  | _ => True

def noted : List Bytes → Option ℤ
  | [] => none
  | batch :: _ =>
      if isTxnData batch && producerIdRead batch != -1 then some (producerIdRead batch) else none

def Safe (log : TxnLog W) : TxnLogAction → Prop
  | .append batches =>
      RoomFor batches log.partition.stream.nextOffset ∧
        ∀ b ∈ batches, isTxnData b = true →
          noted batches = some (producerIdRead b) ∨
            (log.partition.ongoingTxns.lookup (producerIdRead b)).isSome
  | .completeTxn producerId | .recordAbortedTxn producerId _ =>
      ∀ u ∈ log.undecided, u.readAs = producerId → u.producerId = producerId

structure Inv (log : TxnLog W) : Prop where
  offset : FitsSigned 64 log.partition.stream.nextOffset
  started : ∀ producerId first, log.partition.ongoingTxns.lookup producerId = some first →
    first ≤ log.partition.stream.nextOffset
  held : ∀ u ∈ log.undecided, ∃ first,
    log.partition.ongoingTxns.lookup u.readAs = some first ∧ first ≤ u.baseOffset

theorem inv_fresh (tp : TopicPartition) (sid : ℕ) {start : ℤ}
    (hstart : FitsSigned 64 start) (tiers : Tiers W) :
    Inv (fresh tp sid start tiers) :=
  ⟨hstart, by simp [fresh, Partition.new], by simp [fresh]⟩

theorem Inv.decide {log : TxnLog W} (h : Inv log) {producerId : ℤ}
    (hown : ∀ u ∈ log.undecided, u.readAs = producerId → u.producerId = producerId)
    {partition : Partition} (hstr : partition.stream = log.partition.stream)
    (hongoing : partition.ongoingTxns = log.partition.ongoingTxns.erase producerId) :
    Inv { log with partition := partition, undecided := log.decide producerId } := by
  refine ⟨?_, fun q first hopen => ?_, fun u hu => ?_⟩
  · rw [hstr]
    exact h.offset
  · rw [hongoing, HashMap.lookup_erase_ite] at hopen
    split at hopen
    · simp at hopen
    · rw [hstr]
      exact h.started q first hopen
  · obtain ⟨hmem, hne⟩ := mem_filter.mp hu
    obtain ⟨first, hopen, hle⟩ := h.held u hmem
    refine ⟨first, ?_, hle⟩
    have hoth : u.readAs ≠ producerId := fun heq => by
      simp [hown u hmem heq] at hne
    rw [hongoing, HashMap.lookup_erase_ite, if_neg hoth]
    exact hopen

theorem opensTransaction_stamped (hne : batches ≠ []) (hbs : ∀ b ∈ batches, WellFormed b)
    (off : ℤ) :
    opensTransaction (stamped batches off).flatten = noted batches := by
  obtain ⟨batch, rest, rfl⟩ := exists_cons_of_ne_nil hne
  rw [stamped, flatten_cons, opensTransaction_patchHeader_append (hbs batch mem_cons_self)]
  rfl

theorem Inv.ongoing_append {log : TxnLog W} (h : Inv log) (hform : log.Formed (.append batches))
    {ongoing : HashMap ℤ ℤ} (hongoing : ongoing = (log.partition.noteTransaction
      (stamped batches log.partition.stream.nextOffset).flatten
        log.partition.stream.nextOffset).ongoingTxns) :
    (∀ q first, log.partition.ongoingTxns.lookup q = some first → ongoing.lookup q = some first) ∧
    (∀ q, noted batches = some q → ∃ first, ongoing.lookup q = some first) ∧
    ∀ q first, ongoing.lookup q = some first → first ≤ log.partition.stream.nextOffset := by
  have hl (q : ℤ) : ongoing.lookup q =
      if noted batches = some q then
        some ((log.partition.ongoingTxns.lookup q).getD log.partition.stream.nextOffset)
      else log.partition.ongoingTxns.lookup q := by
    rw [hongoing, Partition.lookup_noteTransaction, opensTransaction_stamped hform.1 hform.2]
  refine ⟨fun q first hopen => ?_, fun q hq => ?_, fun q first hopen => ?_⟩
  · rw [hl, hopen, Option.getD_some, ite_self]
  · rw [hl, if_pos hq]
    exact ⟨_, rfl⟩
  · rw [hl] at hopen
    split at hopen
    · cases hopen
      cases hold : log.partition.ongoingTxns.lookup q with
      | none => exact le_refl _
      | some first => exact h.started q first hold
    · exact h.started q first hopen

theorem mem_undecidedBy (hbs : ∀ b ∈ batches, WellFormed b) {base : ℤ} (hlo : -2 ^ 63 ≤ base)
    (hroom : RoomFor batches base) {u : UndecidedBatch} (hu : u ∈ undecidedBy batches base result) :
    ∃ b ∈ batches, isTxnData b = true ∧ u.readAs = producerIdRead b ∧ base ≤ u.baseOffset := by
  cases result with
  | error e => simp [undecidedBy] at hu
  | ok offset =>
    obtain ⟨bytes, hbytes, heq⟩ := mem_map.mp hu
    obtain ⟨hmem, hdata⟩ := mem_filter.mp hbytes
    obtain ⟨b, hb, o, hle, hfits, hpat⟩ := mem_stamped hlo hroom.2 hmem
    have hhead := (hbs b hb).header
    have hbase := baseOffsetOf_patchHeader (show 21 ≤ b.length by omega) b.length hfits []
    rw [append_nil, ← hpat] at hbase
    have hread := producerIdRead_patchHeader (hbs b hb) b.length o
    rw [← hpat] at hread
    rw [hpat, isTxnData_patchHeader (hbs b hb)] at hdata
    obtain ⟨pid, readAs, baseOffset⟩ := u
    obtain ⟨-, hreadAs, hoff⟩ := UndecidedBatch.mk.inj heq
    exact ⟨b, hb, hdata, hreadAs.symm.trans hread, hle.trans (hbase.symm.trans hoff).le⟩

theorem Inv.append [WalEngine W] {log : TxnLog W} (h : Inv log)
    (hform : log.Formed (.append batches)) (hsafe : log.Safe (.append batches))
    {part : Partition} {tiers : Tiers W}
    (happ : log.partition.appendRecords log.tiers batches.flatten = some (part, tiers, result)) :
    Inv ⟨part, tiers,
      log.undecided ++ undecidedBy batches log.partition.stream.nextOffset result⟩ := by
  obtain ⟨hroom, hnoted⟩ := hsafe
  have hlo := h.offset.1
  have htot := recordTotal_nonneg batches
  obtain ⟨patched, count, hpat, rfl, -⟩ := Partition.appendRecords_eq_some happ
  have hfr : ∀ b ∈ batches, Framed b := fun b hb => (hform.2 b hb).framed
  rw [patchRecordBatches_flatten hform.1 hfr hlo hroom] at hpat
  cases hpat
  have hfits : FitsSigned 64 (log.partition.stream.nextOffset + recordTotal batches) :=
    ⟨by norm_num at hlo ⊢; omega, hroom.2⟩
  have hnext := wrapSigned_of_fits (by norm_num) hfits
  obtain ⟨hkept, hopened, hstarted⟩ := h.ongoing_append hform rfl
  refine ⟨?_, fun q first hopen => ?_, fun u hu => ?_⟩
  · rw [hnext]
    exact hfits
  · have hlt := hstarted q first hopen
    show first ≤ wrapSigned 64 (log.partition.stream.nextOffset + recordTotal batches)
    rw [hnext]
    omega
  · rcases mem_append.mp hu with hold | hnew
    · obtain ⟨first, hopen, hle⟩ := h.held u hold
      exact ⟨first, hkept _ _ hopen, hle⟩
    · obtain ⟨b, hb, hdata, hprod, hle⟩ := mem_undecidedBy hform.2 hlo hroom hnew
      rw [hprod]
      obtain ⟨first, hopen⟩ : ∃ first, (log.partition.noteTransaction
          (stamped batches log.partition.stream.nextOffset).flatten
          log.partition.stream.nextOffset).ongoingTxns.lookup (producerIdRead b) = some first := by
        rcases hnoted b hb hdata with hfirst | hopen
        · exact hopened _ hfirst
        · obtain ⟨first, hopen⟩ := Option.isSome_iff_exists.mp hopen
          exact ⟨first, hkept _ _ hopen⟩
      exact ⟨first, hopen, (hstarted _ _ hopen).trans hle⟩

theorem exec_inv [WalEngine W] (log : TxnLog W) (a : TxnLogAction) (log' : TxnLog W) (h : Inv log)
    (hcond : log.Formed a ∧ log.Safe a) (hexec : log.exec a = some log') : Inv log' := by
  cases a with
  | append batches =>
    obtain ⟨⟨part, tiers, result⟩, happ, rfl⟩ := Option.map_eq_some_iff.mp hexec
    exact h.append hcond.1 hcond.2 happ
  | completeTxn pid =>
    cases hexec
    exact h.decide hcond.2 rfl rfl
  | recordAbortedTxn pid firstOffset =>
    cases hexec
    exact h.decide hcond.2 rfl rfl

theorem undecided_above_stable [WalEngine W] (topicPartition : TopicPartition) (streamId : ℕ)
    (startOffset : ℤ) (hstart : FitsSigned 64 startOffset) (tiers : Tiers W)
    (actions : List TxnLogAction) (log : TxnLog W)
    (hformed : Along exec Formed (fresh topicPartition streamId startOffset tiers) actions)
    (hsafe : Along exec Safe (fresh topicPartition streamId startOffset tiers) actions)
    (hrun : run exec (fresh topicPartition streamId startOffset tiers) actions = some log)
    (u : UndecidedBatch) (hu : u ∈ log.undecided) :
    log.partition.lastStableOffset ≤ u.baseOffset := by
  have hinv : Inv log := run_invariant exec_inv
    (inv_fresh topicPartition streamId hstart tiers) (hformed.and hsafe) hrun
  obtain ⟨first, hopen, hle⟩ := hinv.held u hu
  exact (Partition.lastStableOffset_le hopen).trans hle

def plainBatch (attributes : ℕ) (producerId : ℤ) : Bytes :=
  assembleBatch 0 (batchTail attributes 0 0 0 producerId 0 0 1 [])

def twoOfOne : List TxnLogAction := [.append [plainBatch 0x10 1000, plainBatch 0x10 1000]]

def plainFirst : List TxnLogAction := [.append [plainBatch 0 (-1), plainBatch 0x10 1000]]

def emptyLog : TxnLog MemoryWal := fresh ⟨"orders", 0⟩ 100 0 PartitionLog.emptyTiers

theorem twoOfOne_above_stable : ∃ log, run exec emptyLog twoOfOne = some log ∧
      log.undecided = [⟨1000, 0, 0⟩, ⟨1000, 0, 1⟩] ∧ log.partition.lastStableOffset ≤ 1 := by
  have hform : Along exec Formed emptyLog twoOfOne :=
    ⟨⟨by simp, by decide +kernel⟩, fun _ _ => trivial⟩
  have hsafe : Along exec Safe emptyLog twoOfOne :=
    ⟨⟨⟨by decide +kernel, by decide +kernel⟩, by decide +kernel⟩, fun _ _ => trivial⟩
  have hundecided : (run exec emptyLog twoOfOne).map undecided =
      some [⟨1000, 0, 0⟩, ⟨1000, 0, 1⟩] := by decide +kernel
  obtain ⟨log, hrun, hlist⟩ := Option.map_eq_some_iff.mp hundecided
  refine ⟨log, hrun, hlist, ?_⟩
  exact undecided_above_stable ⟨"orders", 0⟩ 100 0 (by decide) PartitionLog.emptyTiers twoOfOne log
    hform hsafe hrun ⟨1000, 0, 1⟩ (by rw [hlist]; simp)

theorem plainFirst_below_stable : ∃ log u, Along exec Formed emptyLog plainFirst ∧
      run exec emptyLog plainFirst = some log ∧ u ∈ log.undecided ∧
      u.baseOffset < log.partition.lastStableOffset := by
  have hform : Along exec Formed emptyLog plainFirst :=
    ⟨⟨by simp, by decide +kernel⟩, fun _ _ => trivial⟩
  have hend : (run exec emptyLog plainFirst).map
      (fun log => (log.undecided, log.partition.lastStableOffset)) =
        some ([⟨1000, 0, 1⟩], 2) := by decide +kernel
  obtain ⟨log, hrun, heq⟩ := Option.map_eq_some_iff.mp hend
  obtain ⟨hlist, hstable⟩ := Prod.mk.inj heq
  exact ⟨log, ⟨1000, 0, 1⟩, hform, hrun, by rw [hlist]; simp, by rw [hstable]; norm_num⟩

end TxnLog

end OxideMq.Broker
