import OxideMq.Lib.ContiguousRun
import OxideMq.Wal.Reconcile

/-! What reconciliation keeps, exactly: the records of the contiguous run of offsets from the end
offset on, the earliest of them where an offset occurs several times, and nothing else. -/

namespace OxideMq.Wal

open Lib OxideMq.Core List

namespace WalRecovery

variable {records : List WalRecord}

def offsetOf (r : WalRecord) : ℤ := r.offset.toInt

theorem takeContinuous_eq_run {stop expected : Int64} (hend : stop.toInt ≤ expected.toInt)
    (hsort : records.Pairwise fun r r' => r.offset.toInt ≤ r'.offset.toInt)
    (hfits : ∀ r ∈ records, r.offset.toInt < 2 ^ 63 - 1) :
    ∃ k, RunLength offsetOf records expected.toInt k ∧ takeContinuous stop expected records =
        earliestRun offsetOf records expected.toInt k := by
  induction records generalizing expected with
  | nil => exact ⟨0, runLength_zero (forall_mem_nil _), rfl⟩
  | cons r rs ih =>
    obtain ⟨hfirst, hrest⟩ := pairwise_cons.mp hsort
    obtain ⟨hr, hrs⟩ := forall_mem_cons.mp hfits
    have hskip : offsetOf r < expected.toInt →
        ∃ k, RunLength offsetOf (r :: rs) expected.toInt k ∧
          takeContinuous stop expected rs = earliestRun offsetOf (r :: rs) expected.toInt k := by
      intro hlt
      obtain ⟨k, hlen, hrun⟩ := ih hend hrest hrs
      exact ⟨k, hlen.skip hlt, by rw [hrun, earliestRun_skip hlt]⟩
    rw [takeContinuous]
    split
    · -- stored already
      rename_i hbelow
      apply hskip
      exact (Int64.lt_iff_toInt_lt.mp hbelow).trans_le hend
    · split
      · rename_i hnext
        have hkey : offsetOf r = expected.toInt := by rw [offsetOf, hnext]
        have hsucc : (r.offset + 1).toInt = expected.toInt + 1 := by
          rw [toInt_add_one hr, hnext]
        obtain ⟨k, hlen, hrun⟩ := ih (by rw [hsucc]; omega) hrest hrs
        rw [hsucc] at hlen hrun
        exact ⟨k + 1, hlen.cons hkey, by rw [hrun, earliestRun_cons hkey]⟩
      · split
        · -- a gap: all that is left lies behind it
          rename_i hgap
          rw [gt_iff_lt, Int64.lt_iff_toInt_lt] at hgap
          refine ⟨0, runLength_zero (forall_mem_cons.mpr ⟨hgap.ne', fun r' hr' => ?_⟩), rfl⟩
          exact (hgap.trans_le (hfirst r' hr')).ne'
        · -- the offset was taken from an earlier record
          rename_i hne hgap
          apply hskip
          rw [gt_iff_lt, Int64.lt_iff_toInt_lt, not_lt] at hgap
          exact lt_of_le_of_ne hgap fun heq => hne (Int64.toInt_inj.mp heq)

theorem reconcileStream_eq_run (stop : Int64) (hfits : ∀ r ∈ records, r.offset.toInt < 2 ^ 63 - 1) :
    ∃ k, RunLength offsetOf records stop.toInt k ∧
      reconcileStream stop records = earliestRun offsetOf records stop.toInt k := by
  have hperm := sortByOffset_perm records
  obtain ⟨k, hlen, hrun⟩ := takeContinuous_eq_run (le_refl stop.toInt)
    (sortByOffset_sorted records) fun r hr => hfits r (hperm.mem_iff.mp hr)
  refine ⟨k, hlen.perm hperm, ?_⟩
  rw [reconcileStream, hrun, sortByOffset]
  refine earliestRun_insertionSort (fun r r' hsame => ?_) records
  rw [Int64.le_iff_toInt_le]
  exact le_of_eq hsame

theorem lookup_reconcileStreamRecords_none (recs : List WalRecord)
    {ends : HashMap UInt64 Int64} {sid : UInt64} (hend : ends.lookup sid = none) :
    (reconcileStreamRecords recs ends).lookup sid = none := by
  rw [reconcileStreamRecords, lookup_foldl_entries (groupByStream recs).nodupKeys]
  cases (groupByStream recs).entries.dlookup sid with
  | none => rfl
  | some group =>
    rw [Option.bind_some, reconciledOf, hend]
    rfl

def earliestAt (records : List WalRecord) (streamId : UInt64) (offset : ℤ) : Option WalRecord :=
  records.find? fun r => r.streamId = streamId ∧ r.offset.toInt = offset

theorem find?_ofStream (records : List WalRecord) (streamId : UInt64) (offset : ℤ) :
    (ofStream streamId records).find? (fun r => offsetOf r = offset) =
      earliestAt records streamId offset := by
  rw [ofStream, find?_filter]
  simp only [decide_eq_true_eq]
  rfl

theorem exists_mem_ofStream {streamId : UInt64} {offset : ℤ} :
    (∃ r ∈ ofStream streamId records, offsetOf r = offset) ↔
      ∃ r ∈ records, r.streamId = streamId ∧ r.offset.toInt = offset := by
  simp only [ofStream, mem_filter, decide_eq_true_eq, and_assoc]
  rfl

theorem reconcileStream_perm {recs' : List WalRecord} (stop : Int64)
    (hperm : records.Perm recs') (hnd : (records.map offsetOf).Nodup)
    (hfits : ∀ r ∈ records, r.offset.toInt < 2 ^ 63 - 1) :
    reconcileStream stop recs' = reconcileStream stop records := by
  obtain ⟨k, hlen, hrun⟩ := reconcileStream_eq_run stop hfits
  obtain ⟨k', hlen', hrun'⟩ := reconcileStream_eq_run stop
    fun r (hr : r ∈ recs') => hfits r (hperm.mem_iff.mpr hr)
  obtain rfl : k' = k := hlen'.unique (hlen.perm hperm)
  rw [hrun', hrun, earliestRun_perm hperm hnd]

theorem nodup_offsets_ofStream (h : (records.map fun r => (r.streamId, r.offset)).Nodup)
    (sid : UInt64) :
    ((ofStream sid records).map offsetOf).Nodup := by
  refine List.Nodup.map_on ?_ ((List.Nodup.of_map _ h).filter _)
  intro r hr r' hr' hsame
  obtain ⟨hmem, hid⟩ := mem_filter.mp hr
  obtain ⟨hmem', hid'⟩ := mem_filter.mp hr'
  rw [decide_eq_true_eq] at hid hid'
  refine inj_on_of_nodup_map h hmem hmem' (Prod.ext (hid.trans hid'.symm) ?_)
  exact Int64.toInt_inj.mp hsame

theorem reconciled_exactly {records : List WalRecord} (ends : HashMap UInt64 Int64)
    (hfits : ∀ r ∈ records, r.offset.toInt < 2 ^ 63 - 1) :
    (∀ streamId endOffset, ends.lookup streamId = some endOffset → ∃ k kept,
      IsGreatest {k : ℕ | ∀ i < k, ∃ r ∈ records,
        r.streamId = streamId ∧ r.offset.toInt = endOffset.toInt + i} k ∧
      kept.map some =
        (List.range k).map (fun i : ℕ => earliestAt records streamId (endOffset.toInt + i)) ∧
      (reconcileStreamRecords records ends).lookup streamId = if k = 0 then none else some kept) ∧
    (∀ streamId, ends.lookup streamId = none →
      (reconcileStreamRecords records ends).lookup streamId = none) ∧
    ∀ records', records.Perm records' → (records.map fun r => (r.streamId, r.offset)).Nodup →
      ∀ streamId, (reconcileStreamRecords records' ends).lookup streamId =
        (reconcileStreamRecords records ends).lookup streamId := by
  have hof : ∀ streamId, ∀ r ∈ ofStream streamId records, r.offset.toInt < 2 ^ 63 - 1 :=
    fun streamId r hr => hfits r (List.mem_filter.mp hr).1
  refine ⟨fun streamId endOffset hend => ?_, fun streamId hend => ?_, ?_⟩
  · obtain ⟨k, hlen, hrun⟩ := reconcileStream_eq_run endOffset (hof streamId)
    have hkept := map_some_earliestRun hlen
    simp only [find?_ofStream] at hkept
    refine ⟨k, _, ?_, hkept, ?_⟩
    · simpa only [RunLength, exists_mem_ofStream] using hlen
    · rw [lookup_reconcileStreamRecords records hend, hrun]
      simp only [earliestRun_eq_nil_iff hlen]
  · exact lookup_reconcileStreamRecords_none records hend
  · intro records' hperm hnd streamId
    cases hend : ends.lookup streamId with
    | none =>
      rw [lookup_reconcileStreamRecords_none records hend,
        lookup_reconcileStreamRecords_none records' hend]
    | some endOffset =>
      have hstr : (ofStream streamId records).Perm (ofStream streamId records') :=
        hperm.filter _
      rw [lookup_reconcileStreamRecords records' hend, lookup_reconcileStreamRecords records hend,
        reconcileStream_perm endOffset hstr (nodup_offsets_ofStream hnd streamId)
          (hof streamId)]

def shuffled : List WalRecord :=
  [⟨1, 7, 5, [1]⟩, ⟨2, 8, 0, [2]⟩, ⟨3, 7, 4, [3]⟩, ⟨4, 7, 3, [4]⟩, ⟨5, 7, 8, [5]⟩]

theorem reconciled_exactly_shuffled :
    (reconcileStreamRecords shuffled (AList.singleton 7 4)).lookup 7 =
        some [⟨3, 7, 4, [3]⟩, ⟨1, 7, 5, [1]⟩] ∧
      (reconcileStreamRecords shuffled.reverse (AList.singleton 7 4)).lookup 7 =
        some [⟨3, 7, 4, [3]⟩, ⟨1, 7, 5, [1]⟩] := by
  have hkept : (reconcileStreamRecords shuffled (AList.singleton 7 4)).lookup 7 =
      some [⟨3, 7, 4, [3]⟩, ⟨1, 7, 5, [1]⟩] := by
    decide +kernel
  have hperm : shuffled.Perm shuffled.reverse := (List.reverse_perm shuffled).symm
  refine ⟨hkept, Eq.trans ?_ hkept⟩
  exact (reconciled_exactly (AList.singleton 7 4) (by decide +kernel)).2.2 _ hperm
    (by decide +kernel) 7

end WalRecovery

end OxideMq.Wal
