import OxideMq.Wal.Recovery

/-! Recovery after a crash. -/

namespace OxideMq.Wal

open Lib OxideMq.Core WalSegment RecoveryReport List

structure SegmentLog where
  baseSeq : UInt64
  records : List WalRecord
  deriving DecidableEq

def wholeBefore : ℕ → List WalRecord → List WalRecord
  | _, [] => []
  | cut, r :: rs =>
      if r.encode.length ≤ cut then r :: wholeBefore (cut - r.encode.length) rs else []

structure CrashedDirectory (dir : Directory) (segs : List SegmentLog) (last : SegmentLog)
    (cut : ℕ) : Prop where
  increasing : (segs ++ [last]).Pairwise fun s t => s.baseSeq < t.baseSeq
  payloads : ∀ s ∈ segs ++ [last], ∀ r ∈ s.records, r.payload.length < 2 ^ 32
  written : ∀ s ∈ segs, dir.lookup (WalSegment.filename s.baseSeq) = some (encodeAll s.records)
  torn : dir.lookup (WalSegment.filename last.baseSeq) =
    some ((encodeAll last.records).take cut)
  only : ∀ name ∈ dir.keys, (WalSegment.parseBaseSeqFromFilename name).isSome →
    ∃ s ∈ segs ++ [last], name = WalSegment.filename s.baseSeq

namespace RecoveryReport

theorem observe_highestSeq (rep : RecoveryReport) (r : WalRecord) :
    (rep.observe r).highestSeq.toNat = max rep.highestSeq.toNat r.seq.toNat := by
  simp only [observe, gt_iff_lt, UInt64.lt_iff_toNat_lt]
  split
  · omega
  · omega

theorem foldl_observe_totals (recs : List WalRecord) (rep : RecoveryReport) :
    (recs.foldl observe rep).segmentFilesScanned = rep.segmentFilesScanned ∧
      (recs.foldl observe rep).totalRecordsRecovered = rep.totalRecordsRecovered + recs.length ∧
      (recs.foldl observe rep).truncatedBytes = rep.truncatedBytes := by
  induction recs generalizing rep with
  | nil => exact ⟨rfl, rfl, rfl⟩
  | cons r rs ih =>
    obtain ⟨hscanned, htot, htruncated⟩ := ih (rep.observe r)
    refine ⟨hscanned, ?_, htruncated⟩
    rw [foldl_cons, htot, length_cons]
    simp only [observe]
    omega

theorem foldl_observe_highestSeq (recs : List WalRecord) (rep : RecoveryReport) :
    (recs.foldl observe rep).highestSeq.toNat =
      max rep.highestSeq.toNat ((recs.map fun r => r.seq.toNat).foldr max 0) := by
  induction recs generalizing rep with
  | nil => simp
  | cons r rs ih =>
    rw [foldl_cons, ih, observe_highestSeq, map_cons, foldr_cons, max_assoc]

def streamCount (report : RecoveryReport) (streamId : UInt64) : Option ℕ :=
  (report.streamWatermarks.lookup streamId).map StreamWatermark.recordCount

theorem streamCount_observe (report : RecoveryReport) (r : WalRecord) (streamId : UInt64) :
    (report.observe r).streamCount streamId =
      if r.streamId = streamId then some ((report.streamCount streamId).getD 0 + 1)
      else report.streamCount streamId := by
  simp only [streamCount, observe, HashMap.lookup_modify, HashMap.lookup_entryOrInsert]
  by_cases h : r.streamId = streamId
  · subst h
    cases report.streamWatermarks.lookup r.streamId with
    | none => simp
    | some wm => simp
  · simp [h, Ne.symm h]

theorem foldl_observe_streamCount (records : List WalRecord) (report : RecoveryReport)
    (streamId : UInt64) :
    (records.foldl observe report).streamCount streamId =
      if records.countP (·.streamId = streamId) = 0 then report.streamCount streamId
      else some ((report.streamCount streamId).getD 0 +
        records.countP (·.streamId = streamId)) := by
  induction records generalizing report with
  | nil => simp
  | cons r rs ih =>
    rw [foldl_cons, ih, streamCount_observe]
    by_cases h : r.streamId = streamId
    · simp only [h, if_true, Option.getD_some, countP_cons, decide_true]
      split
      · rename_i hrest
        simp [hrest]
      · simp
        omega
    · simp [h]

end RecoveryReport

theorem take_encodeAll (cut : ℕ) (recs : List WalRecord)
    (hrecs : ∀ r ∈ recs, r.payload.length < 2 ^ 32) :
    ∃ tail, (encodeAll recs).take cut = encodeAll (wholeBefore cut recs) ++ tail ∧
      Undecodable tail := by
  induction recs generalizing cut with
  | nil => exact ⟨[], by simp [wholeBefore], undecodable_nil⟩
  | cons r rs ih =>
    have hr := hrecs r mem_cons_self
    by_cases hfits : r.encode.length ≤ cut
    · obtain ⟨tail, htake, htail⟩ := ih (cut - r.encode.length)
        fun r' hr' => hrecs r' (mem_cons_of_mem _ hr')
      refine ⟨tail, ?_, htail⟩
      rw [encodeAll_cons, take_append, take_of_length_le hfits, htake, wholeBefore,
        if_pos hfits, encodeAll_cons, append_assoc]
    · have hcut : cut ≤ r.encode.length := by omega
      refine ⟨r.encode.take cut, ?_, ?_⟩
      · rw [encodeAll_cons, take_append_of_le_length hcut, wholeBefore, if_neg hfits,
          encodeAll_nil, nil_append]
      · have hne : r.encode.take cut ≠ r.encode := by
          intro h
          have hlen := congrArg length h
          rw [length_take] at hlen
          omega
        intro r' n h
        rw [ WalRecord.decode_strict_prefix hr ( take_prefix _ _) hne] at h
        simp at h

theorem mem_of_mem_wholeBefore {cut : ℕ} {records : List WalRecord} {r : WalRecord}
    (h : r ∈ wholeBefore cut records) : r ∈ records := by
  induction records generalizing cut with
  | nil => simp [wholeBefore] at h
  | cons r' rs ih =>
    rw [wholeBefore] at h
    split at h
    · rcases mem_cons.mp h with rfl | h
      · exact mem_cons_self
      · exact mem_cons_of_mem _ (ih h)
    · simp at h

theorem splitFrames_take (cut : ℕ) {records : List WalRecord}
    (hrecs : ∀ r ∈ records, r.payload.length < 2 ^ 32) :
    segmentRecords ((encodeAll records).take cut) = wholeBefore cut records ∧
      (splitFrames ((encodeAll records).take cut)).2.length +
        (encodeAll (wholeBefore cut records)).length = ((encodeAll records).take cut).length := by
  obtain ⟨tail, htake, htail⟩ := take_encodeAll cut records hrecs
  have hkept : ∀ r ∈ wholeBefore cut records, r.payload.length < 2 ^ 32 :=
    fun r hr => hrecs r (mem_of_mem_wholeBefore hr)
  have hsplit := splitFrames_encodeAll hkept htail
  rw [← htake] at hsplit
  refine ⟨by rw [segmentRecords, hsplit], ?_⟩
  rw [hsplit, htake, length_append, Nat.add_comm]

namespace CrashedDirectory

open WalRecovery

variable {dir : Directory} {segs : List SegmentLog} {last : SegmentLog} {cut : ℕ}

theorem mem_keys (h : CrashedDirectory dir segs last cut) {s : SegmentLog}
    (hs : s ∈ segs ++ [last]) : filename s.baseSeq ∈ dir.keys := by
  refine AList.mem_keys.mpr (HashMap.mem_iff.mpr ?_)
  rcases mem_append.mp hs with hs | hs
  · exact ⟨_, h.written s hs⟩
  · rw [mem_singleton.mp hs]
    exact ⟨_, h.torn⟩

theorem hasSegments (h : CrashedDirectory dir segs last cut) :
    HasSegments dir ((segs ++ [last]).map SegmentLog.baseSeq) := by
  refine ⟨pairwise_map.mpr h.increasing, ?_, fun name hname hparse => ?_⟩
  · intro seq hbase
    obtain ⟨s, hs, rfl⟩ := mem_map.mp hbase
    exact h.mem_keys hs
  · obtain ⟨s, hs, hfile⟩ := h.only name hname hparse
    exact ⟨s.baseSeq, mem_map_of_mem hs, hfile⟩

theorem segmentPaths_eq (h : CrashedDirectory dir segs last cut) : segmentPaths dir =
      (segs ++ [last]).map fun s => (s.baseSeq, filename s.baseSeq) := by
  rw [h.hasSegments.segmentPaths_eq, map_map]
  rfl

def survivors (segs : List SegmentLog) (last : SegmentLog) (cut : ℕ) : List WalRecord :=
  segs.flatMap SegmentLog.records ++ wholeBefore cut last.records

theorem fileOf_written (h : CrashedDirectory dir segs last cut) {s : SegmentLog} (hs : s ∈ segs) :
    splitFrames (fileOf dir (filename s.baseSeq)) = (s.records, []) := by
  have hpays := h.payloads s (mem_append_left _ hs)
  have hsplit := splitFrames_encodeAll hpays undecodable_nil
  rw [append_nil] at hsplit
  rw [fileOf, h.written s hs, Option.getD_some, hsplit]

theorem fileOf_torn (h : CrashedDirectory dir segs last cut) :
    fileOf dir (filename last.baseSeq) = (encodeAll last.records).take cut := by
  rw [fileOf, h.torn, Option.getD_some]

theorem recoveredRecords_eq (h : CrashedDirectory dir segs last cut) :
    recoveredRecords dir = survivors segs last cut := by
  have hlast := (splitFrames_take cut (h.payloads last (by simp))).1
  rw [recoveredRecords, h.segmentPaths_eq, flatMap_map, flatMap_append, survivors]
  congr 1
  · refine flatMap_congr fun s hs => ?_
    rw [segmentRecords, h.fileOf_written hs]
  · rw [flatMap_singleton, h.fileOf_torn, hlast]

theorem tornBytes_eq (h : CrashedDirectory dir segs last cut) :
    tornBytes dir = ((encodeAll last.records).take cut).length -
      (encodeAll (wholeBefore cut last.records)).length := by
  have hlast := (splitFrames_take cut (h.payloads last (by simp))).2
  have hsegs : (segs.map fun s =>
      (splitFrames (fileOf dir (filename s.baseSeq))).2.length).sum = 0 := by
    refine sum_eq_zero fun n hn => ?_
    obtain ⟨s, hs, rfl⟩ := mem_map.mp hn
    rw [h.fileOf_written hs, length_nil]
  rw [tornBytes, h.segmentPaths_eq, map_map, map_append, sum_append]
  simp only [Function.comp_def, hsegs, map_cons, map_nil, sum_cons, sum_nil, h.fileOf_torn]
  omega

theorem lookup_recover_last (h : CrashedDirectory dir segs last cut) :
    (recover dir).2.lookup (filename last.baseSeq) =
      some (encodeAll (wholeBefore cut last.records)) := by
  have hlast := (splitFrames_take cut (h.payloads last (by simp))).1
  have hname : filename last.baseSeq ∈ (segmentPaths dir).map Prod.snd := by
    rw [h.segmentPaths_eq]
    simp
  rw [lookup_recover, if_pos hname, h.torn, Option.map_some, healed, hlast]

theorem lookup_recover_other (h : CrashedDirectory dir segs last cut) {name : String}
    (hname : name ≠ filename last.baseSeq) :
    (recover dir).2.lookup name = dir.lookup name := by
  rw [lookup_recover, h.segmentPaths_eq]
  split
  · rename_i hmem
    simp only [map_append, map_map, map_cons, map_nil, mem_append,
      mem_map, mem_singleton, Function.comp_apply, hname, or_false] at hmem
    obtain ⟨s, hs, rfl⟩ := hmem
    have hsplit := h.fileOf_written hs
    rw [fileOf, h.written s hs, Option.getD_some] at hsplit
    rw [h.written s hs, Option.map_some, healed, segmentRecords, hsplit]
  · rfl

end CrashedDirectory

open WalRecovery CrashedDirectory in
theorem recover_crashedDirectory {dir : Directory} {segs : List SegmentLog} {last : SegmentLog}
    {cut : ℕ} (h : CrashedDirectory dir segs last cut) :
    let records := survivors segs last cut
    let kept := encodeAll (wholeBefore cut last.records)
    let report := (recover dir).1
    let dir' := (recover dir).2
    (report.segmentFilesScanned = segs.length + 1 ∧
      report.totalRecordsRecovered = records.length ∧
      report.highestSeq.toNat = (records.map fun r => r.seq.toNat).foldr max 0 ∧
      ∀ streamId, (report.streamWatermarks.lookup streamId).map StreamWatermark.recordCount =
        if records.countP (·.streamId = streamId) = 0 then none
        else some (records.countP (·.streamId = streamId))) ∧
    (dir'.lookup (WalSegment.filename last.baseSeq) = some kept ∧
      kept <+: (encodeAll last.records).take cut ∧
      report.truncatedBytes = ((encodeAll last.records).take cut).length - kept.length) ∧
    (∀ name, name ≠ WalSegment.filename last.baseSeq → dir'.lookup name = dir.lookup name) ∧
    (recover dir').1 = { report with truncatedBytes := 0 } := by
  intro records kept report dir'
  have hrep : report = (records.foldl observe
      (start (segs.length + 1))).dropBytes
        (((encodeAll last.records).take cut).length - kept.length) := by
    refine (recover_report dir).trans ?_
    rw [h.recoveredRecords_eq, h.tornBytes_eq, h.segmentPaths_eq, List.length_map,
      List.length_append, List.length_singleton]
  obtain ⟨hscanned, htot, htruncated⟩ := foldl_observe_totals records (start (segs.length + 1))
  have hhi := foldl_observe_highestSeq records (start (segs.length + 1))
  have hcnts := foldl_observe_streamCount records (start (segs.length + 1))
  refine ⟨⟨?_, ?_, ?_, ?_⟩, ⟨h.lookup_recover_last, ?_, ?_⟩,
    fun name hname => h.lookup_recover_other hname, recover_report_recover dir⟩
  · rw [hrep]
    exact hscanned
  · rw [hrep]
    exact htot.trans (Nat.zero_add _)
  · rw [hrep]
    exact hhi.trans (Nat.zero_max _)
  · intro streamId
    rw [hrep]
    refine (hcnts streamId).trans ?_
    simp [streamCount, start, empty]
  · obtain ⟨tail, htake, -⟩ := take_encodeAll cut last.records (h.payloads last (by simp))
    exact ⟨tail, htake.symm⟩
  · rw [hrep]
    simp only [dropBytes, htruncated]
    exact Nat.zero_add _

theorem recover_two_records_cut : let last : SegmentLog := ⟨1, [⟨1, 10, 0, [7]⟩, ⟨2, 10, 1, [8]⟩]⟩
    let dir : Directory :=
      AList.insert (filename 1) ((encodeAll last.records).take 40) ∅
    (WalRecovery.recover dir).1.totalRecordsRecovered = 1 ∧
      (WalRecovery.recover dir).1.highestSeq.toNat = 1 ∧
      (WalRecovery.recover dir).1.truncatedBytes = 3 := by
  intro last dir
  have hdir : CrashedDirectory dir [] last 40 := by
    refine ⟨by simp, ?_, by simp, AList.lookup_insert _, ?_⟩
    · intro s hs r hr
      rw [List.mem_singleton.mp hs] at hr
      rcases List.mem_cons.mp hr with rfl | hr
      · decide
      · rw [List.mem_singleton.mp hr]
        decide
    · intro name hname _
      rw [AList.keys_insert] at hname
      exact ⟨last, by simp, by simpa using hname⟩
  obtain ⟨⟨-, htot, hhi, -⟩, ⟨-, -, htruncated⟩, -⟩ := recover_crashedDirectory hdir
  have hkept : wholeBefore 40 last.records = [⟨1, 10, 0, [7]⟩] := by
    simp [wholeBefore, last]
  rw [CrashedDirectory.survivors, hkept] at htot hhi
  rw [hkept] at htruncated
  refine ⟨htot, hhi, htruncated.trans ?_⟩
  simp [last, List.length_take]

end OxideMq.Wal
