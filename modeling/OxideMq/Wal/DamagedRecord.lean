import OxideMq.Wal.CrashRecovery
import OxideMq.Lib.Limit

/-! Recovery of a log in which one record was damaged. -/

namespace OxideMq.Wal

open Lib OxideMq.Core WalSegment WalRecovery List

namespace FileWal

structure StreamRead where
  matching : List WalRecord
  totalBytes : ℕ
  full : Bool
  deriving DecidableEq

def scanStream (streamId : UInt64) (startOffset : Int64) (maxBytes : ℕ) (raw : Bytes) :
    ℕ → ℕ → StreamRead → StreamRead
  | 0, _, state => state
  | fuel + 1, cursor, state =>
      if cursor < raw.length then
        match WalRecord.decode (raw.drop cursor) with
        | .ok (some (record, consumed)) =>
            if record.streamId = streamId ∧ record.offset ≥ startOffset then
              let totalBytes := state.totalBytes + record.payload.length
              let matching := state.matching ++ [record]
              if totalBytes ≥ maxBytes then ⟨matching, totalBytes, true⟩
              else scanStream streamId startOffset maxBytes raw fuel (cursor + consumed)
                ⟨matching, totalBytes, false⟩
            else scanStream streamId startOffset maxBytes raw fuel (cursor + consumed) state
        | _ => state
      else state

def readSegment (dir : Directory) (streamId : UInt64) (startOffset : Int64) (maxBytes : ℕ)
    (state : StreamRead) (entry : UInt64 × String) : StreamRead :=
  if state.full then state
  else
    let segment := WalSegment.openAppend dir entry.2 entry.1
    let rawData := segment.readAll dir
    scanStream streamId startOffset maxBytes rawData (rawData.length + 1) 0 state

def readStream (dir : Directory) (streamId : UInt64) (startOffset : Int64) (maxBytes : ℕ) :
    List WalRecord :=
  ((WalRecovery.segmentPaths dir).foldl (readSegment dir streamId startOffset maxBytes)
    ⟨[], 0, false⟩).matching

def payloadBytes (records : List WalRecord) : ℕ := (records.map fun r => r.payload.length).sum

def Matches (streamId : UInt64) (startOffset : Int64) (record : WalRecord) : Bool :=
  decide (record.streamId = streamId ∧ record.offset ≥ startOffset)

def StreamRead.take (maxBytes : ℕ) (state : StreamRead) : List WalRecord → StreamRead
  | [] => state
  | r :: rs =>
      if state.full then state
      else
        let totalBytes := state.totalBytes + r.payload.length
        take maxBytes ⟨state.matching ++ [r], totalBytes, decide (maxBytes ≤ totalBytes)⟩ rs

namespace StreamRead

variable {maxBytes : ℕ}
variable {state : StreamRead}

theorem take_full (h : state.full = true) (rs : List WalRecord) :
    state.take maxBytes rs = state := by
  cases rs with
  | nil => rfl
  | cons r rs => rw [take, if_pos h]

theorem take_cons (h : state.full = false) (r : WalRecord) (rs : List WalRecord) :
    state.take maxBytes (r :: rs) =
      take maxBytes ⟨state.matching ++ [r], state.totalBytes + r.payload.length,
        decide (maxBytes ≤ state.totalBytes + r.payload.length)⟩ rs := by
  rw [take, h]
  rfl

theorem take_append (state : StreamRead) (rs rs' : List WalRecord) :
    state.take maxBytes (rs ++ rs') = (state.take maxBytes rs).take maxBytes rs' := by
  induction rs generalizing state with
  | nil => rfl
  | cons r rs ih =>
    rw [cons_append, take, take]
    split
    · rename_i hfull
      exact (take_full hfull rs').symm
    · exact ih _

theorem matching_take (h : state.full = false) (rs : List WalRecord) :
    (state.take maxBytes rs).matching = state.matching ++
      takeReaching (fun r => r.payload.length) maxBytes state.totalBytes rs := by
  induction rs generalizing state with
  | nil => exact (append_nil _).symm
  | cons r rs ih =>
    rw [take_cons h, takeReaching]
    by_cases hlim : maxBytes ≤ state.totalBytes + r.payload.length
    · rw [if_pos hlim, take_full (decide_eq_true hlim)]
    · rw [if_neg hlim, ih (decide_eq_false hlim), append_assoc, singleton_append]

end StreamRead

theorem scanStream_encodeAll {sid : UInt64} {start : Int64} {limit : ℕ}
    {raw front tail : Bytes} {recs : List WalRecord} {fuel : ℕ} {state : StreamRead}
    (hraw : raw = front ++ (encodeAll recs ++ tail))
    (hrecs : ∀ r ∈ recs, r.payload.length < 2 ^ 32) (htail : Undecodable tail)
    (hfuel : (encodeAll recs ++ tail).length < fuel) (hfull : state.full = false) :
    scanStream sid start limit raw fuel front.length state =
      state.take limit (recs.filter (Matches sid start)) := by
  induction recs generalizing fuel front state with
  | nil =>
    obtain ⟨fuel, rfl⟩ : ∃ f, fuel = f + 1 := ⟨fuel - 1, by omega⟩
    simp only [encodeAll_nil, nil_append] at hraw
    subst hraw
    rw [filter_nil, StreamRead.take, scanStream]
    split
    · rw [drop_left]
      split
      · rename_i record n h
        exact absurd h (htail record n)
      · rfl
    · rfl
  | cons r rs ih =>
    obtain ⟨fuel, rfl⟩ : ∃ f, fuel = f + 1 := ⟨fuel - 1, by omega⟩
    have hr := hrecs r mem_cons_self
    have hlt : front.length < raw.length := by
      simp [hraw]
    have hdrop : raw.drop front.length = r.encode ++ (encodeAll rs ++ tail) := by
      rw [hraw, drop_left, encodeAll_cons, append_assoc]
    have hrest : (encodeAll rs ++ tail).length < fuel := by
      simp only [encodeAll_cons, length_append, WalRecord.encode_length] at hfuel ⊢
      omega
    have hnext : raw = (front ++ r.encode) ++ (encodeAll rs ++ tail) := by
      rw [hraw, encodeAll_cons, append_assoc, append_assoc]
    have hrs : ∀ r' ∈ rs, r'.payload.length < 2 ^ 32 :=
      fun r' hr' => hrecs r' (mem_cons_of_mem _ hr')
    rw [scanStream, if_pos hlt, hdrop, WalRecord.decode_encode_append _ hr]
    dsimp only
    rw [show front.length + r.encode.length = (front ++ r.encode).length from length_append.symm]
    by_cases hm : r.streamId = sid ∧ r.offset ≥ start
    · have hfilter : (r :: rs).filter (Matches sid start) = r :: rs.filter (Matches sid start) := by
        simp [Matches, hm]
      rw [if_pos hm, hfilter, StreamRead.take_cons hfull]
      by_cases hlim : limit ≤ state.totalBytes + r.payload.length
      · rw [if_pos hlim, StreamRead.take_full (decide_eq_true hlim), decide_eq_true hlim]
      · rw [if_neg hlim, decide_eq_false hlim]
        exact ih hnext hrs hrest rfl
    · have hfilter : (r :: rs).filter (Matches sid start) = rs.filter (Matches sid start) := by
        simp [Matches, hm]
      rw [if_neg hm, hfilter]
      exact ih hnext hrs hrest hfull

theorem readSegment_eq (dir : Directory) (sid : UInt64) (start : Int64) (limit : ℕ)
    (state : StreamRead) (entry : UInt64 × String) :
    readSegment dir sid start limit state entry = state.take limit
      ((segmentRecords (fileOf dir entry.2)).filter (Matches sid start)) := by
  cases hfull : state.full with
  | true => rw [readSegment, if_pos hfull, StreamRead.take_full hfull]
  | false =>
    obtain ⟨hraw, hrecs, htail⟩ := splitFrames_spec (fileOf dir entry.2)
    have hfuel := congrArg length hraw
    have hscan := @scanStream_encodeAll sid start limit (fileOf dir entry.2) [] _ _
      ((fileOf dir entry.2).length + 1) state hraw hrecs htail (by omega) hfull
    simp only [readSegment, hfull, openAppend, readAll]
    exact hscan

theorem foldl_readSegment (dir : Directory) (sid : UInt64) (start : Int64)
    (limit : ℕ) (es : List (UInt64 × String)) (state : StreamRead) :
    es.foldl (readSegment dir sid start limit) state = state.take limit
      ((es.flatMap fun entry => segmentRecords (fileOf dir entry.2)).filter
        (Matches sid start)) := by
  induction es generalizing state with
  | nil => rfl
  | cons entry es ih =>
    rw [foldl_cons, readSegment_eq, ih, flatMap_cons, filter_append, StreamRead.take_append]

theorem readStream_eq_takeReaching (dir : Directory) (sid : UInt64) (start : Int64) (limit : ℕ) :
    readStream dir sid start limit = takeReaching (fun r => r.payload.length) limit 0
        ((recoveredRecords dir).filter (Matches sid start)) := by
  rw [readStream, foldl_readSegment, StreamRead.matching_take rfl]
  rfl

theorem readStream_eq {dir : Directory} {sid : UInt64} {start : Int64} {limit : ℕ}
    (hlim : payloadBytes ((recoveredRecords dir).filter (Matches sid start)) < limit) :
    readStream dir sid start limit = (recoveredRecords dir).filter (Matches sid start) := by
  rw [readStream_eq_takeReaching]
  apply takeReaching_eq_self
  rw [Nat.zero_add]
  exact hlim

end FileWal

structure DamagedDirectory (dir : Directory) (earlier : List SegmentLog) (baseSeq : UInt64)
    (front : List WalRecord) (lost : WalRecord) (altered : Bytes) (behind : List WalRecord)
    (later : List SegmentLog) : Prop where
  segments : WalRecovery.HasSegments dir
    (earlier.map SegmentLog.baseSeq ++ baseSeq :: later.map SegmentLog.baseSeq)
  written : ∀ s ∈ earlier ++ later,
    dir.lookup (WalSegment.filename s.baseSeq) = some (encodeAll s.records)
  damaged : dir.lookup (WalSegment.filename baseSeq) =
    some (encodeAll front ++ (altered ++ encodeAll behind))
  inPlace : altered.length = lost.encode.length
  undecodable : Undecodable (altered ++ encodeAll behind)

def recordsBefore (earlier : List SegmentLog) (front : List WalRecord) : List WalRecord :=
  earlier.flatMap SegmentLog.records ++ front

structure Remaining (dir : Directory) (maxBytes : ℕ) (records : List WalRecord) : Prop where
  reported : (WalRecovery.recover dir).1 =
    (records.foldl RecoveryReport.observe
      (RecoveryReport.start (WalRecovery.segmentPaths dir).length)).dropBytes
        (WalRecovery.tornBytes dir)
  read : ∀ streamId, FileWal.readStream (WalRecovery.recover dir).2 streamId Int64.minValue
    maxBytes = records.filter fun r => r.streamId = streamId

theorem segmentRecords_eq_nil_iff {raw : Bytes} : segmentRecords raw = [] ↔ Undecodable raw := by
  constructor
  · intro hnil
    obtain ⟨hraw, -, htail⟩ := splitFrames_spec raw
    rw [show (splitFrames raw).1 = [] from hnil, encodeAll_nil, nil_append] at hraw
    rwa [hraw]
  · intro hraw
    have hsplit := @splitFrames_encodeAll [] raw (by simp) hraw
    rw [encodeAll_nil, nil_append] at hsplit
    rw [segmentRecords, hsplit]

theorem eq_nil_of_filter_append {recs more : List WalRecord}
    (h : ∀ sid : UInt64, ((recs ++ more).filter fun r => r.streamId = sid) =
      recs.filter fun r => r.streamId = sid) : more = [] := by
  refine eq_nil_iff_forall_not_mem.mpr fun r hr => ?_
  have hnone := h r.streamId
  rw [filter_append] at hnone
  have hmore := append_right_eq_self.mp hnone
  simpa using filter_eq_nil_iff.mp hmore r hr

namespace DamagedDirectory

variable {dir : Directory} {earlier later : List SegmentLog} {baseSeq : UInt64}
  {front behind : List WalRecord} {lost : WalRecord} {altered : Bytes} {maxBytes : ℕ}

theorem recoveredRecords_eq
    (h : DamagedDirectory dir earlier baseSeq front lost altered behind later) :
    recoveredRecords dir = (earlier.flatMap fun s => segmentRecords (encodeAll s.records)) ++
        (segmentRecords (encodeAll front ++ (altered ++ encodeAll behind)) ++
          later.flatMap fun s => segmentRecords (encodeAll s.records)) := by
  have hfile : ∀ s ∈ earlier ++ later, segmentRecords (fileOf dir (filename s.baseSeq)) =
        segmentRecords (encodeAll s.records) := by
    intro s hs
    simp [fileOf, h.written s hs]
  have hdamaged : fileOf dir (filename baseSeq) =
      encodeAll front ++ (altered ++ encodeAll behind) := by
    simp [fileOf, h.damaged]
  rw [h.segments.recoveredRecords_eq, flatMap_append, flatMap_cons, flatMap_map,
    flatMap_map, hdamaged]
  congr 1
  · exact flatMap_congr fun s hs => hfile s (mem_append_left _ hs)
  · congr 1
    exact flatMap_congr fun s hs => hfile s (mem_append_right _ hs)

theorem recoveredRecords_eq_before
    (h : DamagedDirectory dir earlier baseSeq front lost altered behind later)
    (hpays : ∀ r ∈ recordsBefore earlier front, r.payload.length < 2 ^ 32) :
    recoveredRecords dir = recordsBefore earlier front ++
      later.flatMap fun s => segmentRecords (encodeAll s.records) := by
  have hearlier : (earlier.flatMap fun s => segmentRecords (encodeAll s.records)) =
      earlier.flatMap SegmentLog.records := by
    refine flatMap_congr fun s hs => ?_
    exact segmentRecords_encodeAll fun r hr =>
      hpays r (mem_append_left _ (mem_flatMap.mpr ⟨s, hs, hr⟩))
  have hfront : segmentRecords (encodeAll front ++ (altered ++ encodeAll behind)) = front := by
    rw [segmentRecords, splitFrames_encodeAll (fun r hr =>
      hpays r (mem_append_right _ hr)) h.undecodable]
  rw [h.recoveredRecords_eq, hearlier, hfront, recordsBefore, append_assoc]

theorem readStream_recover (hlim : FileWal.payloadBytes (recoveredRecords dir) < maxBytes)
    (streamId : UInt64) :
    FileWal.readStream (recover dir).2 streamId Int64.minValue maxBytes =
      (recoveredRecords dir).filter fun r => r.streamId = streamId := by
  have hmatches : FileWal.Matches streamId Int64.minValue =
      fun r => decide (r.streamId = streamId) := by
    funext r
    simp [FileWal.Matches, Int64.minValue_le]
  have hpart : FileWal.payloadBytes ((recoveredRecords dir).filter
      (FileWal.Matches streamId Int64.minValue)) ≤ FileWal.payloadBytes (recoveredRecords dir) :=
    (filter_sublist.map _).sum_le_sum fun _ _ => Nat.zero_le _
  rw [FileWal.readStream_eq, recoveredRecords_recover, hmatches]
  rw [recoveredRecords_recover]
  omega

theorem remaining_before_iff
    (h : DamagedDirectory dir earlier baseSeq front lost altered behind later)
    (hlimit : FileWal.payloadBytes (WalRecovery.recoveredRecords dir) < maxBytes) :
    Remaining dir maxBytes (recordsBefore earlier front) ↔
      (∀ r ∈ recordsBefore earlier front, r.payload.length < 2 ^ 32) ∧
        ∀ s ∈ later, Undecodable (encodeAll s.records) := by
  constructor
  · intro hremaining
    have hsame : ∀ streamId : UInt64,
        ((recoveredRecords dir).filter fun r => r.streamId = streamId) =
          (recordsBefore earlier front).filter fun r => r.streamId = streamId := by
      intro streamId
      rw [← readStream_recover hlimit, hremaining.read]
    have hpays : ∀ r ∈ recordsBefore earlier front, r.payload.length < 2 ^ 32 := by
      intro r hr
      have hmem : r ∈ (recordsBefore earlier front).filter fun r' => r'.streamId = r.streamId :=
        List.mem_filter.mpr ⟨hr, decide_eq_true rfl⟩
      rw [← hsame] at hmem
      exact payload_lt_of_mem_recoveredRecords (List.mem_filter.mp hmem).1
    refine ⟨hpays, fun s hs => ?_⟩
    rw [h.recoveredRecords_eq_before hpays] at hsame
    have hlater := eq_nil_of_filter_append hsame
    exact segmentRecords_eq_nil_iff.mp (List.flatMap_eq_nil_iff.mp hlater s hs)
  · rintro ⟨hpays, hlater⟩
    have hnil : (later.flatMap fun s => segmentRecords (encodeAll s.records)) = [] :=
      List.flatMap_eq_nil_iff.mpr fun s hs => segmentRecords_eq_nil_iff.mpr (hlater s hs)
    have hrecs := h.recoveredRecords_eq_before hpays
    rw [hnil, List.append_nil] at hrecs
    constructor
    · rw [recover_report, hrecs]
    · intro streamId
      rw [readStream_recover hlimit, hrecs]

end DamagedDirectory

def zeroed (r : WalRecord) : Bytes := List.replicate r.encode.length 0

theorem undecodable_zeroed (r : WalRecord) (rest : Bytes) : Undecodable (zeroed r ++ rest) := by
  have hlen : 4 ≤ r.encode.length := by
    rw [WalRecord.encode_length]
    omega
  have hfour : field (zeroed r ++ rest) 0 4 = replicate 4 0 := by
    rw [zeroed, ← Nat.add_sub_cancel' hlen, replicate_add, append_assoc]
    exact field_prefix _ _ (by simp)
  apply undecodable_of_magic
  rw [hfour]
  decide

theorem secondZeroed_remaining : let first : WalRecord := ⟨1, 10, 0, [7]⟩
    let second : WalRecord := ⟨2, 10, 1, [8]⟩
    let dir : Directory := AList.insert (WalSegment.filename 1)
      (encodeAll [first] ++ (zeroed second ++ encodeAll [])) ∅
    Remaining dir 1000 [first] := by
  intro first second dir
  have hdir : DamagedDirectory dir [] 1 [first] second (zeroed second) [] [] := by
    refine ⟨⟨by simp, ?_, ?_⟩, by simp, AList.lookup_insert _, by simp [zeroed],
      undecodable_zeroed _ _⟩
    · simp [dir]
    · intro name hname _
      exact ⟨1, by simp, by simpa [dir] using hname⟩
  have hpays : ∀ r ∈ recordsBefore [] [first], r.payload.length < 2 ^ 32 := by
    intro r hr
    rw [List.mem_singleton.mp hr]
    decide
  have hlim : FileWal.payloadBytes (recoveredRecords dir) < 1000 := by
    rw [hdir.recoveredRecords_eq_before hpays]
    decide
  exact (DamagedDirectory.remaining_before_iff hdir hlim).mpr ⟨hpays, by simp⟩

theorem firstZeroed_hole : let first : WalRecord := ⟨1, 10, 0, [7]⟩
    let second : WalRecord := ⟨2, 10, 1, [8]⟩
    let dir : Directory := AList.insert (WalSegment.filename 1)
      (encodeAll [] ++ (zeroed first ++ encodeAll []))
        (AList.insert (WalSegment.filename 2) (encodeAll [second]) ∅)
    DamagedDirectory dir [] 1 [] first (zeroed first) [] [⟨2, [second]⟩] ∧
      FileWal.payloadBytes (WalRecovery.recoveredRecords dir) < 1000 ∧
      FileWal.readStream (WalRecovery.recover dir).2 10 Int64.minValue 1000 = [second] ∧
      ¬Remaining dir 1000 (recordsBefore [] []) := by
  intro first second dir
  have hname : filename 2 ≠ filename 1 := by
    intro hsame
    exact absurd (filename_injective hsame) (by decide)
  have hmem : ∀ name, name ∈ dir ↔ name = filename 1 ∨ name = filename 2 := by
    intro name
    rw [AList.mem_insert, AList.mem_insert]
    simp
  have hdir : DamagedDirectory dir [] 1 [] first (zeroed first) [] [⟨2, [second]⟩] := by
    refine ⟨⟨by simp, ?_, ?_⟩, ?_, AList.lookup_insert _, by simp [zeroed], undecodable_zeroed _ _⟩
    · intro baseSeq hbase
      have hcases : baseSeq = 1 ∨ baseSeq = 2 := by simpa using hbase
      exact AList.mem_keys.mpr ((hmem _).mpr (hcases.imp (congrArg _) (congrArg _)))
    · intro name hkey _
      rcases (hmem name).mp (AList.mem_keys.mp hkey) with rfl | rfl
      · exact ⟨1, by simp, rfl⟩
      · exact ⟨2, by simp, rfl⟩
    · intro s hs
      rw [show s = ⟨2, [second]⟩ by simpa using hs]
      exact (AList.lookup_insert_ne hname).trans (AList.lookup_insert _)
  have hsecond : segmentRecords (encodeAll [second]) = [second] :=
    segmentRecords_encodeAll (by decide)
  have hrecs : recoveredRecords dir = [second] := by
    rw [hdir.recoveredRecords_eq_before (by simp [recordsBefore])]
    rw [List.flatMap_singleton, hsecond]
    rfl
  have hlim : FileWal.payloadBytes (recoveredRecords dir) < 1000 := by
    rw [hrecs]
    decide
  have hread : FileWal.readStream (recover dir).2 10 Int64.minValue 1000 = [second] := by
    rw [DamagedDirectory.readStream_recover hlim, hrecs]
    decide
  refine ⟨hdir, hlim, hread, fun hremaining => ?_⟩
  have hnone := hremaining.read 10
  rw [hread] at hnone
  simp [recordsBefore] at hnone

end OxideMq.Wal
