import OxideMq.Broker.CachedReads
import OxideMq.Broker.ProducedRecords

/-! The offsets of the records in a partition. -/

namespace OxideMq.Broker

open Lib OxideMq.Core OxideMq.Protocol OxideMq.Wal OxideMq.Stream List

structure DistinctIn (lo hi : ℤ) (xs : List ℤ) : Prop where
  nodup : xs.Nodup
  lower : ∀ x ∈ xs, lo ≤ x
  upper : ∀ x ∈ xs, x < hi

theorem DistinctIn.nil (lo hi : ℤ) : DistinctIn lo hi [] :=
  ⟨nodup_nil, forall_mem_nil _, forall_mem_nil _⟩

theorem DistinctIn.append {lo mid hi : ℤ} {xs ys : List ℤ} (hxs : DistinctIn lo mid xs)
    (hys : DistinctIn mid hi ys) (hlo : lo ≤ mid) (hhi : mid ≤ hi) :
    DistinctIn lo hi (xs ++ ys) := by
  refine ⟨nodup_append.mpr ⟨hxs.nodup, hys.nodup, fun x hx y hy => ?_⟩, ?_, ?_⟩
  · have hlt := hxs.upper x hx
    have habove := hys.lower y hy
    omega
  · exact forall_mem_append.mpr ⟨hxs.lower, fun y hy => hlo.trans (hys.lower y hy)⟩
  · exact forall_mem_append.mpr ⟨fun x hx => (hxs.upper x hx).trans_le hhi, hys.upper⟩

structure OwnOffsets (libs : Compressors) (batch : Bytes) : Prop where
  distances : ∀ records, recordsAt libs 0 batch = some (.ok records) →
    DistinctIn 0 (recordCountOf batch) (records.map Record.offset)
  body : ∀ body, bodyOf libs batch = .ok body → 49 + body.length < 2 ^ 32

section

variable {libs : Compressors} {batches : List Bytes} {records : List Record}

theorem parse_prefix (hfr : ∀ b ∈ batches, Framed b)
    (hbd : ∀ b ∈ batches, ∀ body, bodyOf libs b = .ok body → 49 + body.length < 2 ^ 32)
    (h : parseRecordBatchRecords libs batches.flatten = some (.ok records)) :
    ∃ before behind parsed, batches = before ++ behind ∧
      List.Forall₂ (fun b rs => recordsAt libs (baseOffsetOf b) b = some (.ok rs)) before parsed ∧
      records = parsed.flatten := by
  by_cases hfits : ∀ b ∈ batches, BodyFits libs b
  · obtain ⟨parsed, hpar, hrecs⟩ := (parseRecordBatchRecords_eq_ok_iff hfr hfits).mp h
    exact ⟨batches, [], parsed, (append_nil _).symm, hpar, hrecs⟩
  · obtain ⟨before, batch, behind, rfl, hbef, hfirst⟩ := exists_first_not hfits
    obtain ⟨hfr₁, hfr₂⟩ := forall_mem_append.mp hfr
    obtain ⟨hfr₂, hfr₃⟩ := forall_mem_cons.mp hfr₂
    rw [BodyFits] at hfirst
    push Not at hfirst
    obtain ⟨body, hbody, hlong⟩ := hfirst
    obtain ⟨parsed, hpar, hrecs⟩ := parse_stops hfr₁ hbef hfr₂ hfr₃ hbody
      hlong (hbd batch (by simp) body hbody) h
    exact ⟨before, batch :: behind, parsed, rfl, hpar, hrecs⟩

theorem distinctIn_batch {batch : Bytes} (hb : Framed batch) (hown : OwnOffsets libs batch)
    {off : ℤ} (hlo : -2 ^ 63 ≤ off) (hhi : off + recordCountOf batch < 2 ^ 63)
    (h : recordsAt libs (baseOffsetOf (patchHeader batch batch.length off))
      (patchHeader batch batch.length off) = some (.ok records)) :
    DistinctIn off (off + recordCountOf batch) (records.map Record.offset) := by
  have hhead := hb.header
  have hcnt := (recordCountOf_le batch).1
  rw [baseOffsetOf_patched (by omega) ⟨by omega, by omega⟩, recordsAt_patchHeader hhead,
    recordsAt_eq] at h
  obtain ⟨own, hrecs, heq⟩ := Attempt.andThen_eq_ok.mp h
  cases heq
  have hdist := hown.distances own hrecs
  have hoffs : (own.map (rebase 0 off)).map Record.offset =
      (own.map Record.offset).map (off + ·) := by
    rw [map_map, map_map]
    refine map_congr_left fun record hrec => ?_
    have hmem := mem_map_of_mem (f := Record.offset) hrec
    have hlower := hdist.lower _ hmem
    have hupper := hdist.upper _ hmem
    show wrapSigned 64 (off + (record.offset - 0)) = off + record.offset
    rw [sub_zero, wrapSigned_of_fits (by decide) ⟨by omega, by omega⟩]
  rw [hoffs]
  refine ⟨hdist.nodup.map fun _ _ => Int.add_left_cancel, ?_, ?_⟩
  · refine forall_mem_map.mpr fun x hx => ?_
    have hlower := hdist.lower x hx
    omega
  · refine forall_mem_map.mpr fun x hx => ?_
    have hupper := hdist.upper x hx
    omega

theorem distinctIn_stamped {before behind : List Bytes} {parsed : List (List Record)}
    (hfr : ∀ b ∈ batches, Framed b) (hown : ∀ b ∈ batches, OwnOffsets libs b) {off : ℤ}
    (hlo : -2 ^ 63 ≤ off) (hhi : off + recordTotal batches < 2 ^ 63)
    (hstamped : stamped batches off = before ++ behind)
    (hpar : List.Forall₂ (fun b rs => recordsAt libs (baseOffsetOf b) b = some (.ok rs)) before
      parsed) :
    DistinctIn off (off + recordTotal batches) (parsed.flatten.map Record.offset) := by
  induction batches generalizing off before parsed with
  | nil =>
    obtain ⟨rfl, -⟩ := nil_eq_append_iff.mp hstamped
    obtain rfl := forall₂_nil_left_iff.mp hpar
    exact DistinctIn.nil _ _
  | cons batch batches ih =>
    obtain ⟨hb, hbs⟩ := forall_mem_cons.mp hfr
    obtain ⟨hown₁, hown₂⟩ := forall_mem_cons.mp hown
    have hcnt := (recordCountOf_le batch).1
    have htot := recordTotal_nonneg batches
    rw [recordTotal_cons] at hhi ⊢
    cases hpar with
    | nil => exact DistinctIn.nil _ _
    | @cons p rs before parsed hfirst hrest =>
      rw [stamped, wrapSigned_of_fits (by decide) ⟨by omega, by omega⟩, cons_append] at hstamped
      obtain ⟨rfl, hstamped'⟩ := cons.inj hstamped
      have hhead := distinctIn_batch hb hown₁ hlo (by omega) hfirst
      have htail := ih hbs hown₂ (by omega) (by omega) hstamped' hrest
      rw [add_assoc] at htail
      rw [flatten_cons, map_append]
      exact hhead.append htail (by omega) (by omega)

end

abbrev FramedPayload := { batches : List Bytes // ∀ b ∈ batches, Framed b }

def FramedPayload.bytes (payload : FramedPayload) : Bytes := payload.1.flatten

structure RecordLog (W : Type) where
  partition : Partition
  tiers : Tiers W
  stored : List Bytes

namespace RecordLog

variable {W : Type}

def fresh (topicPartition : TopicPartition) (streamId : ℕ) (startOffset : ℤ) (tiers : Tiers W) :
    RecordLog W :=
  ⟨Partition.new topicPartition (S3Stream.new streamId startOffset), tiers, []⟩

def exec [WalEngine W] (log : RecordLog W) (payload : FramedPayload) : Option (RecordLog W) :=
  (patchRecordBatches payload.bytes log.partition.stream.nextOffset).bind fun (patched, _) =>
    (log.partition.appendRecords log.tiers payload.bytes).map fun (partition, tiers, result) =>
      ⟨partition, tiers, if result.isOk then log.stored ++ [patched] else log.stored⟩

def recordsIn (libs : Compressors) (payload : Bytes) : List Record :=
  match parseRecordBatchRecords libs payload with
  | some (.ok records) => records
  | _ => []

def offsets (libs : Compressors) (log : RecordLog W) : List ℤ :=
  log.stored.flatMap fun payload => (recordsIn libs payload).map Record.offset

def Admissible (libs : Compressors) (log : RecordLog W) (payload : FramedPayload) : Prop :=
  (∀ b ∈ payload.1, OwnOffsets libs b) ∧ RoomFor payload.1 log.partition.stream.nextOffset ∧
    log.partition.stream.nextOffset + 1 < 2 ^ 63

structure Inv (libs : Compressors) (log : RecordLog W) : Prop where
  next : FitsSigned 64 log.partition.stream.nextOffset
  offsets : DistinctIn (-2 ^ 63) log.partition.stream.nextOffset (log.offsets libs)

theorem distinctIn_patched {libs : Compressors} {payload : FramedPayload} {off count : ℤ}
    {patched : Bytes} (hown : ∀ b ∈ payload.1, OwnOffsets libs b) (hlo : -2 ^ 63 ≤ off)
    (hroom : RoomFor payload.1 off) (hnext : off + 1 < 2 ^ 63)
    (hpat : patchRecordBatches payload.bytes off = some (patched, count)) :
    off ≤ off + count ∧ off + count < 2 ^ 63 ∧
      DistinctIn off (off + count) ((recordsIn libs patched).map Record.offset) := by
  obtain ⟨batches, hfr⟩ := payload
  by_cases hemp : batches = []
  · subst hemp
    cases hpat
    exact ⟨by omega, by omega, DistinctIn.nil _ _⟩
  · have hflatten := patchRecordBatches_flatten hemp hfr hlo hroom
    cases hflatten.symm.trans hpat
    have htot := recordTotal_nonneg batches
    refine ⟨by omega, hroom.2, ?_⟩
    rw [recordsIn]
    split
    · rename_i records hparse
      have hstored := framed_stamped hfr off
      obtain ⟨before, behind, parsed, hstamped, hpar, rfl⟩ := parse_prefix
        (fun p hp => by obtain ⟨-, -, -, -, hp'⟩ := hstored p hp; exact hp')
        (fun p hp body hbody => by
          obtain ⟨b, hb, base, rfl, -⟩ := hstored p hp
          rw [bodyOf_patchHeader (hfr b hb).header] at hbody
          exact (hown b hb).body body hbody) hparse
      exact distinctIn_stamped hfr hown hlo hroom.2 hstamped hpar
    · exact DistinctIn.nil _ _

theorem exec_inv [WalEngine W] (libs : Compressors) (log : RecordLog W) (payload : FramedPayload)
    (log' : RecordLog W) (h : Inv libs log) (hcond : Admissible libs log payload)
    (hexec : log.exec payload = some log') : Inv libs log' := by
  obtain ⟨hown, hroom, hnext⟩ := hcond
  obtain ⟨⟨patched, count⟩, hpat, hmap⟩ := Option.bind_eq_some_iff.mp hexec
  obtain ⟨⟨part, tiers, res⟩, happ, rfl⟩ := Option.map_eq_some_iff.mp hmap
  obtain ⟨patched', count', hpat', rfl, -⟩ := Partition.appendRecords_eq_some happ
  obtain ⟨rfl, rfl⟩ := Prod.mk.inj (Option.some.inj (hpat'.symm.trans hpat))
  obtain ⟨hle, hlt, hnew⟩ := distinctIn_patched hown h.next.1 hroom hnext hpat
  have hlo := h.next.1
  have hfits : FitsSigned 64 (log.partition.stream.nextOffset + count') :=
    ⟨hlo.trans hle, hlt⟩
  have hwrap : wrapSigned 64 (log.partition.stream.nextOffset + count') =
      log.partition.stream.nextOffset + count' := wrapSigned_of_fits (by decide) hfits
  constructor
  · show FitsSigned 64 (wrapSigned 64 (log.partition.stream.nextOffset + count'))
    rw [hwrap]
    exact hfits
  · show DistinctIn _ (wrapSigned 64 (log.partition.stream.nextOffset + count'))
      ((if res.isOk then log.stored ++ [patched'] else log.stored).flatMap _)
    rw [hwrap]
    split
    · rw [flatMap_append, flatMap_singleton]
      exact h.offsets.append hnew hlo hle
    · have hall := h.offsets.append (DistinctIn.nil _ _) hlo hle
      rwa [append_nil] at hall

theorem offsets_nodup [WalEngine W] (libs : Compressors) (topicPartition : TopicPartition)
    (streamId : ℕ) (startOffset : ℤ) (hstart : FitsSigned 64 startOffset) (tiers : Tiers W)
    (payloads : List FramedPayload) (log : RecordLog W)
    (hown : Along exec (Admissible libs) (fresh topicPartition streamId startOffset tiers) payloads)
    (hrun : run exec (fresh topicPartition streamId startOffset tiers) payloads = some log) :
    (log.offsets libs).Nodup := by
  have hinv : Inv libs log :=
    run_invariant (exec_inv libs) ⟨hstart, DistinctIn.nil _ _⟩ hown hrun
  exact hinv.offsets.nodup

def pairBatch (lastOffsetDelta : ℤ) : Bytes :=
  assembleBatch 0 (batchTail 0 lastOffsetDelta 0 0 (-1) (-1) (-1) 2
    (encodePayload 0 [⟨0, 0, none, some [1], []⟩, ⟨1, 0, none, some [2], []⟩]))

def countedPair : FramedPayload := ⟨[pairBatch 1], by decide +kernel⟩

def uncountedPair : FramedPayload := ⟨[pairBatch 0], by decide +kernel⟩

def emptyLog : RecordLog MemoryWal := fresh ⟨"orders", 0⟩ 100 0 PartitionLog.emptyTiers

theorem ownOffsets_pairBatch : OwnOffsets plainLibs (pairBatch 1) := by
  have hrecs : recordsAt plainLibs 0 (pairBatch 1) =
      some (.ok [⟨0, 0, none, some [1], []⟩, ⟨1, 0, none, some [2], []⟩]) := by decide +kernel
  have hcnt : recordCountOf (pairBatch 1) = 2 := by decide +kernel
  have hbody : bodyOf plainLibs (pairBatch 1) = .ok ((pairBatch 1).drop 61) := by decide +kernel
  have hlen : 49 + ((pairBatch 1).drop 61).length < 2 ^ 32 := by decide +kernel
  refine ⟨fun records h => ?_, fun body h => ?_⟩
  · rw [hrecs, Option.some.injEq, Except.ok.injEq] at h
    rw [hcnt, ← h]
    exact ⟨by decide, by decide, by decide⟩
  · rw [hbody, Except.ok.injEq] at h
    exact h ▸ hlen

theorem offsets_nodup_countedPair : ∃ log, run exec emptyLog [countedPair, countedPair] = some log ∧
      log.offsets plainLibs = [0, 1, 2, 3] ∧ (log.offsets plainLibs).Nodup := by
  have hoffs : (run exec emptyLog [countedPair, countedPair]).map (offsets plainLibs) =
      some [0, 1, 2, 3] := by decide +kernel
  have hfirst : (exec emptyLog countedPair).map (fun log => log.partition.stream.nextOffset) =
      some 2 := by decide +kernel
  have hown : ∀ b ∈ countedPair.1, OwnOffsets plainLibs b :=
    List.forall_mem_singleton.mpr ownOffsets_pairBatch
  have hcond : Along exec (Admissible plainLibs) emptyLog [countedPair, countedPair] := by
    refine ⟨⟨hown, ⟨by decide +kernel, by decide +kernel⟩, by decide +kernel⟩, fun log hlog => ?_⟩
    rw [hlog, Option.map_some, Option.some.injEq] at hfirst
    refine ⟨⟨hown, ?_, ?_⟩, fun _ _ => trivial⟩
    · rw [hfirst]
      exact ⟨by decide +kernel, by decide +kernel⟩
    · rw [hfirst]
      decide
  obtain ⟨log, hrun, hlist⟩ := Option.map_eq_some_iff.mp hoffs
  exact ⟨log, hrun, hlist, offsets_nodup plainLibs ⟨"orders", 0⟩ 100 0 (by decide)
    PartitionLog.emptyTiers [countedPair, countedPair] log hcond hrun⟩

theorem uncounted_records_collide :
    ∃ log, run exec emptyLog [uncountedPair, uncountedPair] = some log ∧
      log.offsets plainLibs = [0, 1, 1, 2] ∧ ¬(log.offsets plainLibs).Nodup := by
  have hoffs : (run exec emptyLog [uncountedPair, uncountedPair]).map (offsets plainLibs) =
      some [0, 1, 1, 2] := by decide +kernel
  obtain ⟨log, hrun, hlist⟩ := Option.map_eq_some_iff.mp hoffs
  exact ⟨log, hrun, hlist, by rw [hlist]; decide⟩

end RecordLog

end OxideMq.Broker
