import OxideMq.Wal.Recovery
import OxideMq.Lib.Run
import Mathlib.Data.List.MinMax

/-! The group commit worker of the file-backed log. -/

namespace OxideMq.Wal

open Lib OxideMq.Core List HashMap

structure WalConfig where
  maxSegmentSizeBytes : ℕ
  maxBatchRecords : ℕ
  syncToDisk : Bool
  deriving DecidableEq, Repr

structure AppendRequest where
  streamId : UInt64
  offset : Int64
  data : Bytes
  deriving DecidableEq, Repr

inductive WalMessage where
  | append (request : AppendRequest)
  | flush
  | trim
  | shutdown
  deriving DecidableEq, Repr

inductive WalResponse where
  | append (request : AppendRequest) (result : Except OxideMqError UInt64)
  | flush (result : Except OxideMqError Unit)
  | trim

inductive Phase where
  | waiting
  | draining (batch : List AppendRequest)
  | stopped
  deriving DecidableEq, Repr

structure Worker where
  dir : Directory
  segment : WalSegment
  nextSeq : UInt64
  phase : Phase
  responses : List WalResponse

inductive WorkerEvent where
  | recv (message : WalMessage) (sync : Except OxideMqError Unit)
  | commit (write : WriteOutcome) (sync create : Except OxideMqError Unit)

def AppendRequest.record (request : AppendRequest) (seq : UInt64) : WalRecord :=
  ⟨seq, request.streamId, request.offset, request.data⟩

namespace FileWal

def highestSegment : List String → Option (UInt64 × String) → Option (UInt64 × String)
  | [], highest => highest
  | name :: names, highest =>
      match WalSegment.parseBaseSeqFromFilename name with
      | none => highestSegment names highest
      | some baseSeq =>
          if highest.all fun h => baseSeq > h.1 then highestSegment names (some (baseSeq, name))
          else highestSegment names highest

def initActiveSegment (dir : Directory) (startSeq : UInt64) : Directory × WalSegment :=
  match highestSegment dir.keys none with
  | some (baseSeq, path) => (dir, WalSegment.openAppend dir path baseSeq)
  | none => WalSegment.create dir startSeq

def openWal (dir : Directory) : Worker :=
  let (report, healedDir) := WalRecovery.recover dir
  let startSeq := report.highestSeq + 1
  let (dir', segment) := initActiveSegment healedDir startSeq
  ⟨dir', segment, startSeq, .waiting, []⟩

def assignSeqs : UInt64 → List AppendRequest → List WalRecord
  | _, [] => []
  | seq, request :: batch => request.record seq :: assignSeqs (seq + 1) batch

def answers (batch : List AppendRequest) (records : List WalRecord) :
    Option OxideMqError → List WalResponse
  | none => List.zipWith (fun request record => .append request (.ok record.seq)) batch records
  | some e => batch.map fun request => .append request (.error (.storage e.message))

def errorOf {α : Type} : Except OxideMqError α → Option OxideMqError
  | .ok _ => none
  | .error e => some e

def rollSegment (config : WalConfig) (create : Except OxideMqError Unit) (nextSeq : UInt64)
    (dir : Directory) (segment : WalSegment) : Directory × WalSegment :=
  if segment.size ≥ config.maxSegmentSizeBytes then
    match create with
    | .ok _ => WalSegment.create dir nextSeq
    | .error _ => (dir, segment)
  else (dir, segment)

def commitBatch (config : WalConfig) (worker : Worker) (batch : List AppendRequest)
    (write : WriteOutcome) (sync create : Except OxideMqError Unit) : Worker :=
  let records := assignSeqs worker.nextSeq batch
  let nextSeq := worker.nextSeq + UInt64.ofNat batch.length
  let (dir, segment, appendRes) := worker.segment.append worker.dir (encodeAll records) write
  let syncRes := if appendRes.isOk && config.syncToDisk then sync else .ok ()
  let finalErr := (errorOf appendRes).or (errorOf syncRes)
  let (dir', segment') := rollSegment config create nextSeq dir segment
  ⟨dir', segment', nextSeq, .waiting, worker.responses ++ answers batch records finalErr⟩

def receive (worker : Worker) (batch : List AppendRequest) (sync : Except OxideMqError Unit) :
    WalMessage → Worker
  | .append request => { worker with phase := .draining (batch ++ [request]) }
  | .flush => { worker with responses := worker.responses ++ [.flush sync] }
  | .trim => { worker with responses := worker.responses ++ [.trim] }
  | .shutdown => { worker with phase := .stopped }

/-- `run_group_commit_loop`, one step at a time. -/
def step (config : WalConfig) (worker : Worker) : WorkerEvent → Option Worker
  | .recv message sync =>
      match worker.phase with
      | .waiting => some (receive worker [] sync message)
      | .draining batch =>
          if batch.length < config.maxBatchRecords then some (receive worker batch sync message)
          else none
      | .stopped => none
  | .commit write sync create =>
      match worker.phase with
      | .draining batch => some (commitBatch config worker batch write sync create)
      | _ => none

theorem step_recv {worker' : Worker} {message : WalMessage}
    (h : step config worker (.recv message sync) = some worker') :
    ∃ batch, (worker.phase = .waiting ∧ batch = [] ∨ worker.phase = .draining batch) ∧
      worker' = receive worker batch sync message := by
  cases hp : worker.phase with
  | waiting =>
    simp only [step, hp, Option.some.injEq] at h
    exact ⟨[], Or.inl ⟨rfl, rfl⟩, h.symm⟩
  | draining batch =>
    simp only [step, hp, Option.ite_none_right_eq_some, Option.some.injEq] at h
    exact ⟨batch, Or.inr rfl, h.2.symm⟩
  | stopped => simp [step, hp] at h

theorem step_commit {w' : Worker} {write : WriteOutcome}
    (h : step config worker (.commit write sync create) = some w') :
    ∃ batch, worker.phase = .draining batch ∧
      w' = commitBatch config worker batch write sync create := by
  cases hp : worker.phase with
  | draining batch =>
    simp only [step, hp, Option.some.injEq] at h
    exact ⟨batch, rfl, h.symm⟩
  | waiting | stopped => simp [step, hp] at h

theorem receive_frame (w : Worker) (batch : List AppendRequest) (sync : Except OxideMqError Unit)
    (msg : WalMessage) : (receive w batch sync msg).dir = w.dir ∧
      (receive w batch sync msg).segment = w.segment ∧
      (receive w batch sync msg).nextSeq = w.nextSeq := by
  cases msg <;> exact ⟨rfl, rfl, rfl⟩

open WalRecovery

variable {config : WalConfig} {worker : Worker} {dir : Directory}
  {create sync : Except OxideMqError Unit} {baseSeq : UInt64} {batch : List AppendRequest}

theorem extends_append (dir : Directory) (seg : WalSegment) (data : Bytes)
    (out : WriteOutcome) : Extends dir (seg.append dir data out).1 := by
  have hdir : (seg.append dir data out).1 = dir.modify seg.path (· ++ out.written data) := by
    cases out <;> rfl
  intro name hname
  obtain ⟨raw, hraw⟩ := mem_iff.mp (AList.mem_keys.mp hname)
  rw [hdir, keys_modify]
  refine ⟨hname, ?_⟩
  rw [fileOf, fileOf, lookup_modify]
  by_cases hpath : name = seg.path
  · subst hpath
    exact ⟨out.written data, by simp [hraw]⟩
  · exact ⟨[], by simp [hpath]⟩

theorem fileOf_append {seg : WalSegment} (hseg : seg.path ∈ dir.keys) (data : Bytes) :
    fileOf (seg.append dir data .complete).1 seg.path = fileOf dir seg.path ++ data := by
  obtain ⟨raw, hraw⟩ := mem_iff.mp (AList.mem_keys.mp hseg)
  simp [WalSegment.append, fileOf, lookup_modify, hraw, WriteOutcome.written]

theorem extends_create (hfresh : WalSegment.filename baseSeq ∉ dir.keys) :
    Extends dir (WalSegment.create dir baseSeq).1 := by
  intro name hname
  have hne : name ≠ WalSegment.filename baseSeq := by
    rintro rfl
    exact hfresh hname
  refine ⟨?_, [], ?_⟩
  · rw [WalSegment.create, AList.keys_insert]
    exact mem_cons_of_mem _ ((mem_erase_of_ne hne).mpr hname)
  · rw [WalSegment.create, fileOf, lookup_insert_ite, if_neg hne, fileOf, append_nil]

theorem mem_segmentPaths_of_parse {name : String} (hkey : name ∈ dir.keys)
    (hparse : WalSegment.parseBaseSeqFromFilename name = some baseSeq) :
    (baseSeq, name) ∈ segmentPaths dir := by
  refine mem_segmentPaths.mpr ⟨hkey, ?_, hparse⟩
  rw [WalSegment.parseBaseSeqFromFilename] at hparse
  split at hparse
  · rename_i hsuf
    exact (suffix_cons _ _).trans (isSuffixOf_iff_suffix.mp hsuf)
  · simp at hparse

theorem create_active (dir : Directory) (seq : UInt64) : (seq, (WalSegment.create dir seq).2.path) ∈
      segmentPaths (WalSegment.create dir seq).1 := by
  refine mem_segmentPaths_of_parse ?_ (WalSegment.parseBaseSeqFromFilename_filename seq)
  rw [WalSegment.create, AList.keys_insert]
  exact mem_cons_self

theorem highestSegment_eq_foldl (names : List String) (highest : Option (UInt64 × String)) :
    highestSegment names highest = (names.filterMap fun name =>
      (WalSegment.parseBaseSeqFromFilename name).map (·, name)).foldl
        (argAux fun p q => q.1.toNat < p.1.toNat) highest := by
  induction names generalizing highest with
  | nil => rfl
  | cons name names ih =>
    rw [highestSegment]
    split
    · rename_i hparse
      rw [ih, filterMap_cons_none (by rw [hparse]; rfl)]
    · rename_i b hparse
      rw [ih, ih, filterMap_cons_some (b := (b, name)) (by rw [hparse]; rfl), foldl_cons]
      cases highest with
      | none => rfl
      | some p =>
        simp only [Option.all_some, decide_eq_true_eq, gt_iff_lt, UInt64.lt_iff_toNat_lt, argAux]
        split <;> rfl

theorem highestSegment_spec (names : List String) :
    (∀ p, highestSegment names none = some p →
      p.2 ∈ names ∧ WalSegment.parseBaseSeqFromFilename p.2 = some p.1) ∧
    ∀ name ∈ names, ∀ b, WalSegment.parseBaseSeqFromFilename name = some b →
      ∃ q, highestSegment names none = some q ∧ b ≤ q.1 := by
  have hargmax := highestSegment_eq_foldl names none
  constructor
  · intro p hp
    obtain ⟨name, hname, heq⟩ := mem_filterMap.mp (argmax_mem (hargmax.symm.trans hp))
    obtain ⟨b, hparse, rfl⟩ := Option.map_eq_some_iff.mp heq
    exact ⟨hname, hparse⟩
  · intro name hname b hparse
    have hmem : (b, name) ∈ names.filterMap fun name =>
        (WalSegment.parseBaseSeqFromFilename name).map (·, name) :=
      mem_filterMap.mpr ⟨name, hname, by rw [hparse]; rfl⟩
    cases hfound : highestSegment names none with
    | none => exact absurd (argmax_eq_none.mp (hargmax.symm.trans hfound)) (ne_nil_of_mem hmem)
    | some q =>
      have hle := le_of_mem_argmax (f := fun p => p.1.toNat) hmem (hargmax.symm.trans hfound)
      exact ⟨q, rfl, UInt64.le_iff_toNat_le.mpr hle⟩

theorem initActiveSegment_active (dir : Directory) (startSeq : UInt64) :
    ∃ baseSeq, (baseSeq, (initActiveSegment dir startSeq).2.path) ∈
      segmentPaths (initActiveSegment dir startSeq).1 := by
  rw [initActiveSegment]
  split
  · rename_i baseSeq path h
    obtain ⟨hkey, hparse⟩ := (highestSegment_spec _).1 _ h
    exact ⟨baseSeq, mem_segmentPaths_of_parse hkey hparse⟩
  · exact ⟨startSeq, create_active dir startSeq⟩

theorem mem_answers {seq seq₀ : UInt64} {req : AppendRequest} {finalErr : Option OxideMqError}
    (h : WalResponse.append req (.ok seq) ∈ answers batch (assignSeqs seq₀ batch) finalErr) :
    finalErr = none ∧ req.record seq ∈ assignSeqs seq₀ batch := by
  cases finalErr with
  | some e => simp [answers] at h
  | none =>
    refine ⟨rfl, ?_⟩
    simp only [answers] at h
    induction batch generalizing seq₀ with
    | nil => simp at h
    | cons r batch ih =>
      rw [assignSeqs, zipWith_cons_cons, mem_cons] at h
      rw [assignSeqs, mem_cons]
      rcases h with heq | h
      · simp only [WalResponse.append.injEq, Except.ok.injEq] at heq
        obtain ⟨rfl, rfl⟩ := heq
        exact Or.inl rfl
      · exact Or.inr (ih h)

theorem payloads_assignSeqs (seq : UInt64) :
    (∀ r ∈ assignSeqs seq batch, r.payload.length < 2 ^ 32) ↔
      ∀ req ∈ batch, req.data.length < 2 ^ 32 := by
  induction batch generalizing seq with
  | nil => simp [assignSeqs]
  | cons req batch ih =>
    rw [assignSeqs, forall_mem_cons, forall_mem_cons, ih]
    rfl

def sizeAfter (worker : Worker) (batch : List AppendRequest) : WriteOutcome → ℕ
  | .complete => worker.segment.size + (batch.map fun r => headerSize + r.data.length).sum
  | .torn _ _ => worker.segment.size

def SafeCommit (config : WalConfig) (worker : Worker) : WorkerEvent → Prop
  | .recv _ _ => True
  | .commit write _ create => ∀ batch, worker.phase = .draining batch →
      (write = .complete → Clean (fileOf worker.dir worker.segment.path) ∧
        ∀ request ∈ batch, request.data.length < 2 ^ 32) ∧
      (create.isOk → config.maxSegmentSizeBytes ≤ sizeAfter worker batch write →
        WalSegment.filename (worker.nextSeq + UInt64.ofNat batch.length) ∉ worker.dir.keys)

structure Acknowledged (worker : Worker) : Prop where
  active : ∃ baseSeq, (baseSeq, worker.segment.path) ∈ segmentPaths worker.dir
  stored : ∀ request seq, WalResponse.append request (.ok seq) ∈ worker.responses →
    request.record seq ∈ recoveredRecords worker.dir

theorem acknowledged_openWal (dir : Directory) : Acknowledged (openWal dir) :=
  ⟨initActiveSegment_active _ _, fun _ _ h => by simp [openWal] at h⟩

theorem encodeAll_assignSeqs_length (seq : UInt64) (batch : List AppendRequest) :
    (encodeAll (assignSeqs seq batch)).length =
      (batch.map fun r => headerSize + r.data.length).sum := by
  induction batch generalizing seq with
  | nil => rfl
  | cons req batch ih =>
    rw [assignSeqs, encodeAll_cons, length_append, ih, WalRecord.encode_length, map_cons, sum_cons]
    rfl

theorem append_size (w : Worker) (batch : List AppendRequest) (write : WriteOutcome) :
    (w.segment.append w.dir (encodeAll (assignSeqs w.nextSeq batch)) write).2.1.size =
      sizeAfter w batch write := by
  cases write with
  | complete =>
    simp only [WalSegment.append, sizeAfter, encodeAll_assignSeqs_length]
  | torn n error => rfl

theorem append_path (seg : WalSegment) (dir : Directory) (data : Bytes)
    (write : WriteOutcome) : (seg.append dir data write).2.1.path = seg.path := by
  cases write <;> rfl

theorem rollSegment_extends {next : UInt64} {seg : WalSegment}
    (hfresh : create.isOk → config.maxSegmentSizeBytes ≤ seg.size →
      WalSegment.filename next ∉ dir.keys)
    (hact : ∃ baseSeq, (baseSeq, seg.path) ∈ segmentPaths dir) :
    Extends dir (rollSegment config create next dir seg).1 ∧
      ∃ baseSeq, (baseSeq, (rollSegment config create next dir seg).2.path) ∈
        segmentPaths (rollSegment config create next dir seg).1 := by
  have hrefl : Extends dir dir := fun name hname => ⟨hname, [], (append_nil _).symm⟩
  unfold rollSegment
  split
  · rename_i hfull
    cases create with
    | ok _ => exact ⟨extends_create (hfresh rfl hfull), next, create_active dir next⟩
    | error e => exact ⟨hrefl, hact⟩
  · exact ⟨hrefl, hact⟩

theorem keys_append (dir : Directory) (seg : WalSegment) (data : Bytes)
    (out : WriteOutcome) : (seg.append dir data out).1.keys = dir.keys := by
  cases out <;> exact keys_modify _ _ _

theorem commitBatch_acknowledged {write : WriteOutcome} (hwk : Acknowledged worker)
    (hp : worker.phase = .draining batch)
    (hsafe : SafeCommit config worker (.commit write sync create)) :
    Acknowledged (commitBatch config worker batch write sync create) := by
  obtain ⟨hcomp, hroll⟩ := hsafe batch hp
  obtain ⟨baseSeq, hact⟩ := hwk.active
  let recs := assignSeqs worker.nextSeq batch
  let appended := worker.segment.append worker.dir (encodeAll recs) write
  have hgrown : Extends worker.dir appended.1 := extends_append _ _ _ _
  have hact' : ∃ b, (b, appended.2.1.path) ∈ segmentPaths appended.1 := by
    refine ⟨baseSeq, ?_⟩
    rw [append_path]
    exact hgrown.segmentPaths hact
  have hfresh : create.isOk → config.maxSegmentSizeBytes ≤ appended.2.1.size →
      WalSegment.filename (worker.nextSeq + UInt64.ofNat batch.length) ∉ appended.1.keys := by
    intro hok hfull
    rw [append_size] at hfull
    rw [keys_append]
    exact hroll hok hfull
  obtain ⟨hrolled, hact''⟩ := rollSegment_extends hfresh hact'
  refine ⟨hact'', ?_⟩
  intro req seq hresponse
  rcases mem_append.mp hresponse with hold | hnew
  · exact (hgrown.trans hrolled).recoveredRecords (hwk.stored req seq hold)
  · refine hrolled.recoveredRecords ?_
    obtain ⟨hnone, hmem⟩ := mem_answers hnew
    -- an acknowledgement means that the write was complete
    have hw : write = .complete := by
      cases write with
      | complete => rfl
      | torn n error => simp [errorOf] at hnone
    subst hw
    obtain ⟨hclean, hpays⟩ := hcomp rfl
    have hrecs := (payloads_assignSeqs worker.nextSeq).mpr hpays
    refine mem_recoveredRecords.mpr ⟨_, hgrown.segmentPaths hact, ?_⟩
    rw [fileOf_append (mem_segmentPaths.mp hact).1, segmentRecords_append_encodeAll hclean hrecs]
    exact mem_append_right _ hmem

theorem receive_acknowledged (hwk : Acknowledged worker) (batch : List AppendRequest)
    (sync : Except OxideMqError Unit) (msg : WalMessage) :
    Acknowledged (receive worker batch sync msg) := by
  cases msg with
  | append | shutdown => exact ⟨hwk.active, hwk.stored⟩
  | flush | trim =>
    refine ⟨hwk.active, fun req seq h => hwk.stored req seq ?_⟩
    simpa [receive] using h

theorem acknowledged_step (worker : Worker) (event : WorkerEvent) (worker' : Worker)
    (hwk : Acknowledged worker) (hsafe : SafeCommit config worker event)
    (hstep : step config worker event = some worker') : Acknowledged worker' := by
  cases event with
  | recv message sync =>
    obtain ⟨batch, -, rfl⟩ := step_recv hstep
    exact receive_acknowledged hwk batch sync message
  | commit write sync create =>
    obtain ⟨batch, hp, rfl⟩ := step_commit hstep
    exact commitBatch_acknowledged hwk hp hsafe

theorem acknowledged_survive_recovery {config : WalConfig} {dir : Directory}
    {events : List WorkerEvent} {worker : Worker}
    (hsafe : Along (step config) (SafeCommit config) (openWal dir) events)
    (hrun : run (step config) (openWal dir) events = some worker)
    {request : AppendRequest} {seq : UInt64}
    (hack : WalResponse.append request (.ok seq) ∈ worker.responses) :
    request.record seq ∈ recoveredRecords (recover worker.dir).2 := by
  have hwk := run_invariant acknowledged_step (acknowledged_openWal dir) hsafe hrun
  rw [recoveredRecords_recover]
  exact hwk.stored request seq hack

theorem single_append_survives : let config : WalConfig := ⟨1000, 10, true⟩
    let request : AppendRequest := ⟨10, 0, [7]⟩
    ∃ worker, run (step config) (openWal ∅)
        [.recv (.append request) (.ok ()), .commit .complete (.ok ()) (.ok ())] = some worker ∧
      request.record 1 ∈ recoveredRecords (recover worker.dir).2 := by
  intro config request
  have hsafe : Along (step config) (SafeCommit config) (openWal ∅)
      [.recv (.append request) (.ok ()), .commit .complete (.ok ()) (.ok ())] := by
    refine ⟨trivial, fun worker hwk => ⟨fun batch hbatch => ?_, fun _ _ => trivial⟩⟩
    rw [← Option.some.inj hwk] at hbatch ⊢
    rw [← Phase.draining.inj hbatch]
    refine ⟨fun _ => ⟨by decide, by decide⟩, fun _ hfull => ?_⟩
    exact absurd hfull (by decide)
  refine ⟨_, rfl, acknowledged_survive_recovery hsafe rfl ?_⟩
  exact List.mem_singleton.mpr rfl

theorem acknowledged_lost_after_torn_write : ∃ config dir events worker request seq,
      run (step config) (openWal dir) events = some worker ∧
        WalResponse.append request (.ok seq) ∈ worker.responses ∧
        request.record seq ∉ recoveredRecords (recover worker.dir).2 := by
  let config : WalConfig := ⟨1000, 10, true⟩
  let first : AppendRequest := ⟨10, 0, [7]⟩
  let second : AppendRequest := ⟨10, 1, [8]⟩
  let torn := commitBatch config (openWal ∅) [first] (.torn 1 "No space left on device") (.ok ())
    (.ok ())
  let worker := commitBatch config torn [second] .complete (.ok ()) (.ok ())
  refine ⟨config, ∅,
    [.recv (.append first) (.ok ()), .commit (.torn 1 "No space left on device") (.ok ()) (.ok ()),
      .recv (.append second) (.ok ()), .commit .complete (.ok ()) (.ok ())],
    worker, second, 2, rfl, ?_, ?_⟩
  · exact List.mem_cons_of_mem _ (List.mem_singleton.mpr rfl)
  · have hkeys : worker.dir.keys = [WalSegment.filename 1] := by decide +kernel
    have hfile : fileOf worker.dir (WalSegment.filename 1) =
        0x5F :: encodeAll [second.record 2] := by decide +kernel
    have hstop : Undecodable (fileOf worker.dir (WalSegment.filename 1)) := by
      rw [hfile]
      exact undecodable_of_magic (by decide)
    have hsplit := splitFrames_encodeAll (List.forall_mem_nil _) hstop
    rw [recoveredRecords_recover]
    intro hmem
    obtain ⟨p, hp, hr⟩ := mem_recoveredRecords.mp hmem
    have hname := (mem_segmentPaths.mp hp).1
    rw [hkeys, List.mem_singleton] at hname
    rw [hname, segmentRecords] at hr
    rw [encodeAll_nil, List.nil_append] at hsplit
    rw [hsplit] at hr
    simp at hr

end FileWal

end OxideMq.Wal
