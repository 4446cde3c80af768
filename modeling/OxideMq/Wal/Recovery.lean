import OxideMq.Wal.Segment

/-! Crash recovery. -/

namespace OxideMq.Wal

open Lib OxideMq.Core WalSegment WalRecord List HashMap

variable {records : List WalRecord}

structure StreamWatermark where
  streamId : UInt64
  startOffset : Int64
  nextOffset : Int64
  recordCount : ℕ
  deriving DecidableEq, Repr

structure RecoveryReport where
  segmentFilesScanned : ℕ
  totalRecordsRecovered : ℕ
  highestSeq : UInt64
  streamWatermarks : HashMap UInt64 StreamWatermark
  truncatedBytes : ℕ
  deriving DecidableEq

namespace RecoveryReport

/-- `RecoveryReport::default()`. -/
def empty : RecoveryReport := ⟨0, 0, 0, ∅, 0⟩

def start (n : ℕ) : RecoveryReport := { empty with segmentFilesScanned := n }

def observe (report : RecoveryReport) (record : WalRecord) : RecoveryReport :=
  { report with
    totalRecordsRecovered := report.totalRecordsRecovered + 1
    highestSeq := if record.seq > report.highestSeq then record.seq else report.highestSeq
    streamWatermarks :=
      (report.streamWatermarks.entryOrInsert record.streamId
        ⟨record.streamId, record.offset, record.offset + 1, 0⟩).modify record.streamId fun wm =>
          { wm with
            recordCount := wm.recordCount + 1
            nextOffset :=
              if record.offset ≥ wm.nextOffset then record.offset + 1 else wm.nextOffset } }

def dropBytes (report : RecoveryReport) (n : ℕ) : RecoveryReport :=
  { report with truncatedBytes := report.truncatedBytes + n }

end RecoveryReport

namespace WalRecovery

def scanSegment (raw : Bytes) : ℕ → ℕ → RecoveryReport → RecoveryReport × Option ℕ
  | 0, _, report => (report, none)
  | fuel + 1, cursor, report =>
      if cursor < raw.length then
        match WalRecord.decode (raw.drop cursor) with
        | .ok (some (record, bytesConsumed)) =>
            scanSegment raw fuel (cursor + bytesConsumed) (report.observe record)
        -- an incomplete record at the end of the segment
        | .ok none => (report.dropBytes (raw.length - cursor), some cursor)
        -- corruption: the remainder goes as well
        | .error _ => (report.dropBytes (raw.length - cursor), some cursor)
      else (report, none)

def segmentPaths (dir : Directory) : List (UInt64 × String) :=
  (dir.keys.filterMap fun name =>
    if walFileExtension.toList.isSuffixOf name.toList then
      (WalSegment.parseBaseSeqFromFilename name).map (·, name)
    else none).insertionSort fun p q => p.1 ≤ q.1

def recoverSegment (state : RecoveryReport × Directory) (entry : UInt64 × String) :
    RecoveryReport × Directory :=
  let (report, dir) := state
  let segment := WalSegment.openAppend dir entry.2 entry.1
  let rawData := segment.readAll dir
  match scanSegment rawData (rawData.length + 1) 0 report with
  | (report', some cursor) => (report', (segment.truncate dir cursor).1)
  | (report', none) => (report', dir)

def recover (dir : Directory) : RecoveryReport × Directory :=
  let paths := segmentPaths dir
  paths.foldl recoverSegment (RecoveryReport.start paths.length, dir)

end WalRecovery

def encodeAll (records : List WalRecord) : Bytes := records.flatMap WalRecord.encode

def Undecodable (raw : Bytes) : Prop := ∀ r n, WalRecord.decode raw ≠ .ok (some (r, n))

def splitFramesFrom : ℕ → Bytes → List WalRecord × Bytes
  | 0, raw => ([], raw)
  | fuel + 1, raw =>
      match WalRecord.decode raw with
      | .ok (some (record, n)) =>
          let rest := splitFramesFrom fuel (raw.drop n)
          (record :: rest.1, rest.2)
      | _ => ([], raw)

def splitFrames (raw : Bytes) : List WalRecord × Bytes := splitFramesFrom (raw.length + 1) raw

def segmentRecords (raw : Bytes) : List WalRecord := (splitFrames raw).1

@[simp] theorem encodeAll_nil : encodeAll [] = [] := rfl

@[simp] theorem encodeAll_cons (r : WalRecord) (rs : List WalRecord) :
    encodeAll (r :: rs) = r.encode ++ encodeAll rs := rfl

@[simp] theorem encodeAll_append (rs rs' : List WalRecord) :
    encodeAll (rs ++ rs') = encodeAll rs ++ encodeAll rs' := flatMap_append

theorem undecodable_of_magic {raw : Bytes}
    (h : UInt32.ofNat (beDecode (field raw 0 4)) ≠ walMagic) : Undecodable raw := by
  intro r n hdec
  unfold decode at hdec
  split at hdec
  · simp at hdec
  · simp [h] at hdec

theorem undecodable_nil : Undecodable [] := by
  intro r n h
  simp [decode, headerSize] at h

theorem splitFramesFrom_encodeAll {tail : Bytes} {fuel : ℕ}
    (hrecs : ∀ r ∈ records, r.payload.length < 2 ^ 32) (htail : Undecodable tail)
    (hfuel : (encodeAll records ++ tail).length < fuel) :
    splitFramesFrom fuel (encodeAll records ++ tail) = (records, tail) := by
  induction records generalizing fuel with
  | nil =>
    obtain ⟨fuel, rfl⟩ : ∃ f, fuel = f + 1 := ⟨fuel - 1, by omega⟩
    simp only [encodeAll_nil, nil_append, splitFramesFrom]
    split
    · rename_i record n h
      exact absurd h (htail record n)
    · rfl
  | cons r rs ih =>
    obtain ⟨fuel, rfl⟩ : ∃ f, fuel = f + 1 := ⟨fuel - 1, by omega⟩
    have hr := hrecs r mem_cons_self
    have hrest : (encodeAll rs ++ tail).length < fuel := by
      simp only [encodeAll_cons, length_append, encode_length] at hfuel ⊢
      omega
    have ih' := ih (fun r' hr' => hrecs r' (mem_cons_of_mem _ hr')) hrest
    rw [encodeAll_cons, append_assoc, splitFramesFrom, decode_encode_append _ hr]
    simp only [drop_left, ih']

theorem splitFrames_encodeAll {tail : Bytes} (hrecs : ∀ r ∈ records, r.payload.length < 2 ^ 32)
    (htail : Undecodable tail) :
    splitFrames (encodeAll records ++ tail) = (records, tail) :=
  splitFramesFrom_encodeAll hrecs htail (Nat.lt_succ_self _)

theorem exists_frames (raw : Bytes) : ∃ records tail, raw = encodeAll records ++ tail ∧
    (∀ r ∈ records, r.payload.length < 2 ^ 32) ∧ Undecodable tail := by
  induction hlen : raw.length using Nat.strong_induction_on generalizing raw with
  | _ len ih =>
    by_cases hstop : Undecodable raw
    · exact ⟨[], raw, rfl, by simp, hstop⟩
    simp only [Undecodable, not_forall, not_not] at hstop
    obtain ⟨r, n, hdec⟩ := hstop
    obtain ⟨hn, hr, hraw⟩ := decode_eq_some hdec
    have hshorter : (raw.drop n).length < len := by
      have hsplit := congrArg length hraw
      simp only [length_append, encode_length] at hsplit
      omega
    obtain ⟨records, tail, hrest, hrecs, htail⟩ := ih _ hshorter _ rfl
    refine ⟨r :: records, tail, ?_, ?_, htail⟩
    · rw [encodeAll_cons, append_assoc, ← hrest]
      exact hraw
    · exact forall_mem_cons.mpr ⟨hr, hrecs⟩

theorem splitFrames_spec (raw : Bytes) :
    raw = encodeAll (splitFrames raw).1 ++ (splitFrames raw).2 ∧
      (∀ r ∈ (splitFrames raw).1, r.payload.length < 2 ^ 32) ∧ Undecodable (splitFrames raw).2 := by
  obtain ⟨records, tail, hraw, hrecs, htail⟩ := exists_frames raw
  have hsplit : splitFrames raw = (records, tail) := by
    rw [hraw]
    exact splitFrames_encodeAll hrecs htail
  rw [hsplit]
  exact ⟨hraw, hrecs, htail⟩

theorem segmentRecords_encodeAll (hrecs : ∀ r ∈ records, r.payload.length < 2 ^ 32) :
    segmentRecords (encodeAll records) = records := by
  have hsplit := splitFrames_encodeAll hrecs undecodable_nil
  rw [append_nil] at hsplit
  rw [segmentRecords, hsplit]

def healed (raw : Bytes) : Bytes := encodeAll (segmentRecords raw)

def Clean (raw : Bytes) : Prop := (splitFrames raw).2 = []

instance (raw : Bytes) : Decidable (Clean raw) := inferInstanceAs (Decidable (_ = _))

theorem healed_append_tail (raw : Bytes) : healed raw ++ (splitFrames raw).2 = raw :=
  (splitFrames_spec raw).1.symm

theorem healed_length (raw : Bytes) :
    (healed raw).length + (splitFrames raw).2.length = raw.length := by
  rw [← length_append, healed_append_tail]

theorem take_healed_length (raw : Bytes) : raw.take (healed raw).length = healed raw := by
  calc
    raw.take (healed raw).length
        = (healed raw ++ (splitFrames raw).2).take (healed raw).length := by
          rw [healed_append_tail]
    _ = healed raw := take_left

theorem splitFrames_healed (raw : Bytes) : splitFrames (healed raw) = (segmentRecords raw, []) := by
  have h := splitFrames_encodeAll (splitFrames_spec raw).2.1 undecodable_nil
  rwa [append_nil] at h

theorem clean_iff_healed_eq {raw : Bytes} : Clean raw ↔ healed raw = raw := by
  constructor
  · intro h
    have hsplit := healed_append_tail raw
    rwa [show (splitFrames raw).2 = [] from h, append_nil] at hsplit
  · intro h
    have hlen := healed_length raw
    rw [h] at hlen
    exact eq_nil_of_length_eq_zero (by omega)

theorem segmentRecords_append (raw more : Bytes) : segmentRecords (raw ++ more) =
      segmentRecords raw ++ segmentRecords ((splitFrames raw).2 ++ more) := by
  obtain ⟨hraw, hrecs, -⟩ := splitFrames_spec raw
  obtain ⟨hrest, hrecs', htail'⟩ := splitFrames_spec ((splitFrames raw).2 ++ more)
  have hsplit := splitFrames_encodeAll (forall_mem_append.mpr ⟨hrecs, hrecs'⟩) htail'
  rw [encodeAll_append, append_assoc, ← hrest, ← append_assoc, ← hraw] at hsplit
  rw [segmentRecords, hsplit, segmentRecords, segmentRecords]

theorem segmentRecords_append_encodeAll {raw : Bytes} (hclean : Clean raw)
    (hrecs : ∀ r ∈ records, r.payload.length < 2 ^ 32) :
    segmentRecords (raw ++ encodeAll records) = segmentRecords raw ++ records := by
  have hsplit := splitFrames_encodeAll hrecs undecodable_nil
  rw [append_nil] at hsplit
  rw [segmentRecords_append, show (splitFrames raw).2 = [] from hclean, nil_append,
    segmentRecords, segmentRecords, hsplit]

namespace WalRecovery

variable {dir dir' : Directory}

def RecoveryReport.afterFile (report : RecoveryReport) (raw : Bytes) : RecoveryReport :=
  ((segmentRecords raw).foldl RecoveryReport.observe report).dropBytes (splitFrames raw).2.length

theorem scanSegment_encodeAll {raw front tail : Bytes} {recs : List WalRecord} {fuel : ℕ}
    (rep : RecoveryReport) (hraw : raw = front ++ (encodeAll recs ++ tail))
    (hrecs : ∀ r ∈ recs, r.payload.length < 2 ^ 32) (htail : Undecodable tail)
    (hfuel : (encodeAll recs ++ tail).length < fuel) :
    scanSegment raw fuel front.length rep =
      ((recs.foldl RecoveryReport.observe rep).dropBytes tail.length,
        if tail = [] then none else some (front ++ encodeAll recs).length) := by
  induction recs generalizing fuel front rep with
  | nil =>
    obtain ⟨fuel, rfl⟩ : ∃ f, fuel = f + 1 := ⟨fuel - 1, by omega⟩
    simp only [encodeAll_nil, nil_append] at hraw
    subst hraw
    cases tail with
    | nil => simp [scanSegment, RecoveryReport.dropBytes]
    | cons b bs =>
      have hlt : front.length < (front ++ b :: bs).length := by simp
      rw [scanSegment, if_pos hlt, drop_left]
      split
      · rename_i record n h
        exact absurd h (htail record n)
      · simp
      · simp
  | cons r rs ih =>
    obtain ⟨fuel, rfl⟩ : ∃ f, fuel = f + 1 := ⟨fuel - 1, by omega⟩
    have hr := hrecs r mem_cons_self
    have hlt : front.length < raw.length := by
      simp [hraw]
    have hdrop : raw.drop front.length = r.encode ++ (encodeAll rs ++ tail) := by
      rw [hraw, drop_left, encodeAll_cons, append_assoc]
    have hrest : (encodeAll rs ++ tail).length < fuel := by
      simp only [encodeAll_cons, length_append, encode_length] at hfuel ⊢
      omega
    have hnext : raw = (front ++ r.encode) ++ (encodeAll rs ++ tail) := by
      rw [hraw, encodeAll_cons, append_assoc, append_assoc]
    have ih' := ih (rep.observe r) hnext (fun r' hr' => hrecs r' (mem_cons_of_mem _ hr')) hrest
    rw [scanSegment, if_pos hlt, hdrop, decode_encode_append _ hr]
    rw [length_append] at ih'
    simp only [ih', foldl_cons, encodeAll_cons, append_assoc]

theorem scanSegment_eq (raw : Bytes) (rep : RecoveryReport) :
    scanSegment raw (raw.length + 1) 0 rep = (RecoveryReport.afterFile rep raw,
        if Clean raw then none else some (healed raw).length) := by
  obtain ⟨hraw, hrecs, htail⟩ := splitFrames_spec raw
  have hfuel : (encodeAll (splitFrames raw).1 ++ (splitFrames raw).2).length < raw.length + 1 := by
    rw [← hraw]
    omega
  have hscan := scanSegment_encodeAll rep
    (show raw = [] ++ (encodeAll (splitFrames raw).1 ++ (splitFrames raw).2) from hraw)
    hrecs htail hfuel
  by_cases hclean : Clean raw
  · rw [if_pos (show (splitFrames raw).2 = [] from hclean)] at hscan
    rw [if_pos hclean]
    exact hscan
  · rw [if_neg (show (splitFrames raw).2 ≠ [] from hclean)] at hscan
    rw [if_neg hclean]
    exact hscan

theorem recoverSegment_eq (rep : RecoveryReport) (dir : Directory) (seq : UInt64) (path : String) :
    recoverSegment (rep, dir) (seq, path) = (RecoveryReport.afterFile rep (fileOf dir path),
        if Clean (fileOf dir path) then dir
        else dir.modify path (take (healed (fileOf dir path)).length)) := by
  have hscan := scanSegment_eq (fileOf dir path) rep
  by_cases hclean : Clean (fileOf dir path)
  · rw [if_pos hclean] at hscan
    simp only [recoverSegment, openAppend, readAll, hscan, if_pos hclean]
  · rw [if_neg hclean] at hscan
    simp only [recoverSegment, openAppend, readAll, hscan, if_neg hclean]
    rfl

theorem lookup_recoverSegment (rep : RecoveryReport) (dir : Directory) (seq : UInt64)
    (path name : String) :
    (recoverSegment (rep, dir) (seq, path)).2.lookup name =
      if name = path then (dir.lookup path).map healed else dir.lookup name := by
  rw [recoverSegment_eq]
  by_cases hname : name = path
  · subst hname
    rw [if_pos rfl]
    cases hfile : dir.lookup name with
    | none =>
      simp only [Option.map_none]
      split
      · exact hfile
      · rw [lookup_modify, if_pos rfl, hfile, Option.map_none]
    | some raw =>
      have hraw : fileOf dir name = raw := by simp [fileOf, hfile]
      simp only [hraw, Option.map_some]
      split
      · rename_i hclean
        rw [hfile, clean_iff_healed_eq.mp hclean]
      · rw [lookup_modify, if_pos rfl, hfile, Option.map_some, take_healed_length]
  · rw [if_neg hname]
    split
    · rfl
    · rw [lookup_modify, if_neg hname]

theorem keys_recoverSegment (state : RecoveryReport × Directory) (entry : UInt64 × String) :
    (recoverSegment state entry).2.keys = state.2.keys := by
  rw [show state = (state.1, state.2) from rfl, show entry = (entry.1, entry.2) from rfl,
    recoverSegment_eq]
  split
  · rfl
  · exact keys_modify _ _ _

theorem foldl_recoverSegment (paths : List (UInt64 × String)) (report : RecoveryReport)
    (dir : Directory) (hnd : (paths.map Prod.snd).Nodup) :
    (paths.foldl recoverSegment (report, dir)).1 =
        paths.foldl (fun rep p => RecoveryReport.afterFile rep (fileOf dir p.2)) report ∧
      (∀ name, (paths.foldl recoverSegment (report, dir)).2.lookup name =
        if name ∈ paths.map Prod.snd then (dir.lookup name).map healed else dir.lookup name) ∧
      (paths.foldl recoverSegment (report, dir)).2.keys = dir.keys := by
  induction paths generalizing report dir with
  | nil => simp
  | cons p paths ih =>
    obtain ⟨seq, path⟩ := p
    obtain ⟨hfresh, hrest⟩ := nodup_cons.mp hnd
    have hl := lookup_recoverSegment report dir seq path
    have hkeys := keys_recoverSegment (report, dir) (seq, path)
    obtain ⟨hrep, hfiles, hkeys'⟩ :=
      ih (recoverSegment (report, dir) (seq, path)).1
        (recoverSegment (report, dir) (seq, path)).2 hrest
    have hoth : ∀ q ∈ paths, fileOf (recoverSegment (report, dir) (seq, path)).2 q.2 =
        fileOf dir q.2 := by
      intro q hq
      have hne : q.2 ≠ path := by
        rintro rfl
        exact hfresh (mem_map.mpr ⟨q, hq, rfl⟩)
      rw [fileOf, hl, if_neg hne, fileOf]
    refine ⟨?_, ?_, ?_⟩
    · rw [foldl_cons, foldl_cons]
      refine hrep.trans ?_
      rw [foldl_ext _ _ _ fun rep q hq => by rw [hoth q hq], recoverSegment_eq]
    · intro name
      rw [foldl_cons]
      refine (hfiles name).trans ?_
      rw [hl]
      by_cases hname : name = path
      · subst hname
        simp [hfresh]
      · simp [hname]
    · rw [foldl_cons]
      exact hkeys'.trans hkeys

instance totalLeFst : Std.Total fun p q : UInt64 × String => p.1 ≤ q.1 :=
  ⟨fun p q => UInt64.le_total p.1 q.1⟩

instance transLeFst : IsTrans (UInt64 × String) fun p q => p.1 ≤ q.1 :=
  ⟨fun _ _ _ hpq hqr => UInt64.le_trans hpq hqr⟩

theorem mem_segmentPaths {baseSeq : UInt64} {name : String} : (baseSeq, name) ∈ segmentPaths dir ↔
      name ∈ dir.keys ∧ walFileExtension.toList <:+ name.toList ∧
        parseBaseSeqFromFilename name = some baseSeq := by
  simp only [segmentPaths, mem_insertionSort, mem_filterMap]
  constructor
  · rintro ⟨name', hkey, h⟩
    split at h
    · rename_i hsuf
      obtain ⟨b, hb, heq⟩ := Option.map_eq_some_iff.mp h
      cases heq
      exact ⟨hkey, isSuffixOf_iff_suffix.mp hsuf, hb⟩
    · simp at h
  · rintro ⟨hkey, hsuf, hparse⟩
    refine ⟨name, hkey, ?_⟩
    rw [if_pos (isSuffixOf_iff_suffix.mpr hsuf), hparse, Option.map_some]

theorem nodup_segmentPaths (dir : Directory) : ((segmentPaths dir).map Prod.snd).Nodup := by
  have hperm := (perm_insertionSort (fun p q : UInt64 × String => p.1 ≤ q.1)
    (dir.keys.filterMap fun name =>
      if walFileExtension.toList.isSuffixOf name.toList then
        (parseBaseSeqFromFilename name).map (·, name)
      else none)).map Prod.snd
  refine hperm.nodup_iff.mpr ?_
  -- every entry keeps the name it was made from, so the names are a sublist of the keys
  have hkeys : dir.keys.Nodup := dir.keys_nodup
  refine List.Sublist.nodup ?_ hkeys
  induction dir.keys with
  | nil => simp
  | cons name names ih =>
    rw [filterMap_cons]
    split
    · exact ih.cons _
    · rename_i entry h
      have hname : entry.2 = name := by
        split at h
        · obtain ⟨b, _, rfl⟩ := Option.map_eq_some_iff.mp h
          rfl
        · simp at h
      rw [map_cons, hname]
      exact ih.cons_cons _

def recoveredRecords (dir : Directory) : List WalRecord :=
  (segmentPaths dir).flatMap fun p => segmentRecords (fileOf dir p.2)

def tornBytes (dir : Directory) : ℕ :=
  ((segmentPaths dir).map fun p => (splitFrames (fileOf dir p.2)).2.length).sum

theorem foldl_observe_dropBytes (recs : List WalRecord) (rep : RecoveryReport) (n : ℕ) :
    recs.foldl RecoveryReport.observe (rep.dropBytes n) =
      (recs.foldl RecoveryReport.observe rep).dropBytes n := by
  induction recs generalizing rep with
  | nil => rfl
  | cons r rs ih => exact ih (rep.observe r)

theorem foldl_afterFile (files : List Bytes) (rep : RecoveryReport) :
    files.foldl RecoveryReport.afterFile rep =
      ((files.flatMap segmentRecords).foldl RecoveryReport.observe rep).dropBytes
        (files.map fun raw => (splitFrames raw).2.length).sum := by
  induction files generalizing rep with
  | nil => simp [RecoveryReport.dropBytes]
  | cons raw files ih =>
    rw [foldl_cons, ih, RecoveryReport.afterFile, foldl_observe_dropBytes,
      flatMap_cons, foldl_append, map_cons, sum_cons]
    simp only [RecoveryReport.dropBytes, Nat.add_assoc]

theorem recover_report (dir : Directory) : (recover dir).1 =
      ((recoveredRecords dir).foldl RecoveryReport.observe
        (RecoveryReport.start (segmentPaths dir).length)).dropBytes (tornBytes dir) := by
  have hrep := (foldl_recoverSegment (segmentPaths dir)
    (RecoveryReport.start (segmentPaths dir).length) dir (nodup_segmentPaths dir)).1
  have hfiles : (segmentPaths dir).foldl
      (fun rep p => RecoveryReport.afterFile rep (fileOf dir p.2))
      (RecoveryReport.start (segmentPaths dir).length) =
      ((segmentPaths dir).map fun p => fileOf dir p.2).foldl RecoveryReport.afterFile
        (RecoveryReport.start (segmentPaths dir).length) := foldl_map.symm
  refine hrep.trans ?_
  rw [hfiles, foldl_afterFile]
  simp only [recoveredRecords, tornBytes, flatMap_map, map_map, Function.comp_def]

theorem lookup_recover (dir : Directory) (name : String) : (recover dir).2.lookup name =
      if name ∈ (segmentPaths dir).map Prod.snd then (dir.lookup name).map healed
      else dir.lookup name :=
  (foldl_recoverSegment (segmentPaths dir) _ dir (nodup_segmentPaths dir)).2.1 name

theorem keys_recover (dir : Directory) : (recover dir).2.keys = dir.keys :=
  (foldl_recoverSegment (segmentPaths dir) _ dir (nodup_segmentPaths dir)).2.2

theorem segmentPaths_recover (dir : Directory) : segmentPaths (recover dir).2 = segmentPaths dir := by
  rw [segmentPaths, keys_recover, segmentPaths]

theorem fileOf_recover {p : UInt64 × String} (hp : p ∈ segmentPaths dir) :
    fileOf (recover dir).2 p.2 = healed (fileOf dir p.2) := by
  have hname : p.2 ∈ (segmentPaths dir).map Prod.snd := mem_map.mpr ⟨p, hp, rfl⟩
  obtain ⟨raw, hraw⟩ := mem_iff.mp (AList.mem_keys.mp (mem_segmentPaths.mp hp).1)
  simp [fileOf, lookup_recover, hname, hraw]

theorem recoveredRecords_recover (dir : Directory) :
    recoveredRecords (recover dir).2 = recoveredRecords dir := by
  rw [recoveredRecords, segmentPaths_recover, recoveredRecords]
  refine flatMap_congr fun p hp => ?_
  rw [fileOf_recover hp, segmentRecords, splitFrames_healed]

theorem tornBytes_recover (dir : Directory) : tornBytes (recover dir).2 = 0 := by
  rw [tornBytes, segmentPaths_recover]
  refine sum_eq_zero fun n hn => ?_
  obtain ⟨p, hp, rfl⟩ := mem_map.mp hn
  rw [fileOf_recover hp, splitFrames_healed, length_nil]

theorem recover_report_recover (dir : Directory) :
    (recover (recover dir).2).1 = { (recover dir).1 with truncatedBytes := 0 } := by
  have htruncated : ∀ (records : List WalRecord) (rep : RecoveryReport),
      (records.foldl RecoveryReport.observe rep).truncatedBytes = rep.truncatedBytes := by
    intro records
    induction records with
    | nil => exact fun _ => rfl
    | cons r rs ih => exact fun rep => ih (rep.observe r)
  rw [recover_report (recover dir).2, recover_report dir, recoveredRecords_recover,
    segmentPaths_recover, tornBytes_recover]
  simp only [RecoveryReport.dropBytes, htruncated]
  rfl

theorem mem_recoveredRecords {r : WalRecord} : r ∈ recoveredRecords dir ↔
      ∃ p ∈ segmentPaths dir, r ∈ segmentRecords (fileOf dir p.2) :=
  mem_flatMap

theorem payload_lt_of_mem_recoveredRecords {r : WalRecord} (hr : r ∈ recoveredRecords dir) :
    r.payload.length < 2 ^ 32 := by
  obtain ⟨p, -, hmem⟩ := mem_recoveredRecords.mp hr
  exact (splitFrames_spec _).2.1 r hmem

def Extends (dir dir' : Directory) : Prop :=
  ∀ name ∈ dir.keys, name ∈ dir'.keys ∧ ∃ more, fileOf dir' name = fileOf dir name ++ more

theorem Extends.trans {dir'' : Directory} (h : Extends dir dir') (h' : Extends dir' dir'') :
    Extends dir dir'' := by
  intro name hname
  obtain ⟨hname', more, hmore⟩ := h name hname
  obtain ⟨hname'', more', hmore'⟩ := h' name hname'
  exact ⟨hname'', more ++ more', by rw [hmore', hmore, append_assoc]⟩

theorem Extends.segmentPaths (h : Extends dir dir') {p : UInt64 × String}
    (hp : p ∈ segmentPaths dir) : p ∈ segmentPaths dir' := by
  obtain ⟨hkey, hsuffix, hparse⟩ := mem_segmentPaths.mp hp
  exact mem_segmentPaths.mpr ⟨(h p.2 hkey).1, hsuffix, hparse⟩

theorem Extends.recoveredRecords (h : Extends dir dir') {r : WalRecord}
    (hr : r ∈ recoveredRecords dir) : r ∈ recoveredRecords dir' := by
  obtain ⟨p, hp, hmem⟩ := mem_recoveredRecords.mp hr
  obtain ⟨-, more, hmore⟩ := h p.2 (mem_segmentPaths.mp hp).1
  refine mem_recoveredRecords.mpr ⟨p, h.segmentPaths hp, ?_⟩
  rw [hmore, segmentRecords_append]
  exact mem_append_left _ hmem

theorem extension_suffix_filename (seq : UInt64) :
    walFileExtension.toList <:+ (filename seq).toList := by
  rw [filename, String.toList_ofList]
  exact ⟨decimalDigits 20 seq.toNat ++ ['.'], by simp⟩

structure HasSegments (dir : Directory) (bases : List UInt64) : Prop where
  increasing : bases.Pairwise (· < ·)
  present : ∀ baseSeq ∈ bases, WalSegment.filename baseSeq ∈ dir.keys
  only : ∀ name ∈ dir.keys, (WalSegment.parseBaseSeqFromFilename name).isSome →
    ∃ baseSeq ∈ bases, name = WalSegment.filename baseSeq

theorem HasSegments.segmentPaths_eq {bases : List UInt64} (h : HasSegments dir bases) :
    segmentPaths dir = bases.map fun baseSeq => (baseSeq, filename baseSeq) := by
  have hstrict : (bases.map fun baseSeq => (baseSeq, filename baseSeq)).Pairwise
      fun p q => p.1 < q.1 := pairwise_map.mpr h.increasing
  have hnd : (segmentPaths dir).Nodup := List.Nodup.of_map _ (nodup_segmentPaths dir)
  have hnd' : (bases.map fun baseSeq => (baseSeq, filename baseSeq)).Nodup :=
    hstrict.imp fun hlt heq => UInt64.ne_of_lt hlt (congrArg Prod.fst heq)
  have hmem : ∀ p, p ∈ segmentPaths dir ↔
      p ∈ bases.map fun baseSeq => (baseSeq, filename baseSeq) := by
    rintro ⟨baseSeq, name⟩
    rw [mem_segmentPaths, mem_map]
    constructor
    · rintro ⟨hkey, -, hparse⟩
      obtain ⟨b, hb, rfl⟩ := h.only name hkey (by rw [hparse]; rfl)
      rw [parseBaseSeqFromFilename_filename] at hparse
      exact ⟨b, hb, by rw [Option.some.inj hparse]⟩
    · rintro ⟨b, hb, heq⟩
      obtain ⟨rfl, rfl⟩ := Prod.mk.inj heq
      exact ⟨h.present b hb, extension_suffix_filename _, parseBaseSeqFromFilename_filename _⟩
  have hperm := (perm_ext_iff_of_nodup hnd hnd').mpr hmem
  have hsort : (segmentPaths dir).Pairwise fun p q => p.1 ≤ q.1 :=
    pairwise_insertionSort (fun p q : UInt64 × String => p.1 ≤ q.1) _
  refine hperm.eq_of_pairwise ?_ hsort (hstrict.imp UInt64.le_of_lt)
  intro p q hp hq hpq hqp
  -- two entries of the list with the same base sequence number are the same entry
  obtain ⟨b, -, rfl⟩ := mem_map.mp ((hmem p).mp hp)
  obtain ⟨c, -, rfl⟩ := mem_map.mp hq
  have hbase : b = c := UInt64.le_antisymm hpq hqp
  rw [hbase]

theorem HasSegments.recoveredRecords_eq {bases : List UInt64} (h : HasSegments dir bases) :
    WalRecovery.recoveredRecords dir = bases.flatMap fun seq =>
      segmentRecords (fileOf dir (filename seq)) := by
  rw [WalRecovery.recoveredRecords, h.segmentPaths_eq, flatMap_map]

end WalRecovery

end OxideMq.Wal
