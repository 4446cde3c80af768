import OxideMq.Wal.CrashRecovery
import OxideMq.Wal.GroupCommit

/-! The order of group commits. -/

namespace OxideMq.Wal

open Lib OxideMq.Core WalSegment List UInt64

structure CommitLog where
  worker : Worker
  received : List AppendRequest
  rolled : List UInt64

namespace CommitLog

open FileWal WalRecovery

variable {log : CommitLog} {config : WalConfig}

def fresh : CommitLog := ⟨openWal ∅, [], []⟩

def appendOf : WorkerEvent → List AppendRequest
  | .recv (.append request) _ => [request]
  | _ => []

def rollOf (config : WalConfig) (worker : Worker) : WorkerEvent → List UInt64
  | .recv _ _ => []
  | .commit write _ create =>
      match worker.phase with
      | .draining batch =>
          if config.maxSegmentSizeBytes ≤ sizeAfter worker batch write ∧ create.isOk then
            [worker.nextSeq + UInt64.ofNat batch.length]
          else []
      | _ => []

def exec (config : WalConfig) (log : CommitLog) (event : WorkerEvent) : Option CommitLog :=
  (step config log.worker event).map fun worker =>
    ⟨worker, log.received ++ appendOf event, log.rolled ++ rollOf config log.worker event⟩

def appendAnswers (responses : List WalResponse) :
    List (AppendRequest × Except OxideMqError UInt64) :=
  responses.filterMap fun
    | .append request result => some (request, result)
    | _ => none

def answered (log : CommitLog) : List AppendRequest :=
  (appendAnswers log.worker.responses).map Prod.fst

structure InOrder (log : CommitLog) : Prop where
  channelOrder : log.answered <+: log.received
  consecutive : (assignSeqs 1 log.answered).map (fun r => r.seq.toNat) =
    List.range' 1 log.answered.length
  ownSeq : appendAnswers log.worker.responses =
    List.zipWith (fun request record => (request, .ok record.seq)) log.answered
      (assignSeqs 1 log.answered)
  decoded : recoveredRecords log.worker.dir = assignSeqs 1 log.answered
  rolledUp : (1 :: log.rolled).Pairwise (· < ·)

def NeverFails : WorkerEvent → Prop
  | .recv _ _ => True
  | .commit write sync create => write = .complete ∧ sync = .ok () ∧ create = .ok ()

def HasRoom (log : CommitLog) : WorkerEvent → Prop
  | .recv _ _ => True
  | .commit _ _ _ => ∀ batch, log.worker.phase = .draining batch →
      log.worker.nextSeq.toNat + batch.length < 2 ^ 64

def FitsHeader (log : CommitLog) : WorkerEvent → Prop
  | .recv _ _ => True
  | .commit _ _ _ => ∀ batch, log.worker.phase = .draining batch →
      ∀ request ∈ batch, request.data.length < 2 ^ 32

theorem exec_cases {log' : CommitLog} {event : WorkerEvent} (hfail : NeverFails event)
    (hexec : exec config log event = some log') :
    (∃ msg sync batch, event = .recv msg sync ∧
      (log.worker.phase = .waiting ∧ batch = [] ∨ log.worker.phase = .draining batch) ∧
      log' = ⟨receive log.worker batch sync msg, log.received ++ appendOf event, log.rolled⟩) ∨
    (∃ batch, event = .commit .complete (.ok ()) (.ok ()) ∧ log.worker.phase = .draining batch ∧
      log' = ⟨commitBatch config log.worker batch .complete (.ok ()) (.ok ()), log.received,
        log.rolled ++ rollOf config log.worker event⟩) := by
  obtain ⟨w, hstep, rfl⟩ := Option.map_eq_some_iff.mp hexec
  cases event with
  | recv msg sync =>
    obtain ⟨batch, hp, rfl⟩ := step_recv hstep
    exact Or.inl ⟨msg, sync, batch, rfl, hp, by simp [rollOf]⟩
  | commit write sync create =>
    obtain ⟨rfl, rfl, rfl⟩ := hfail
    obtain ⟨batch, hp, rfl⟩ := step_commit hstep
    exact Or.inr ⟨batch, rfl, hp, by simp [appendOf]⟩

@[simp] theorem length_assignSeqs (seq : UInt64) (reqs : List AppendRequest) :
    (assignSeqs seq reqs).length = reqs.length := by
  induction reqs generalizing seq with
  | nil => rfl
  | cons req reqs ih => rw [assignSeqs, length_cons, ih, length_cons]

theorem assignSeqs_append (seq : UInt64) (reqs more : List AppendRequest) :
    assignSeqs seq (reqs ++ more) =
      assignSeqs seq reqs ++ assignSeqs (seq + ofNat reqs.length) more := by
  induction reqs generalizing seq with
  | nil => simp [assignSeqs]
  | cons req reqs ih =>
    have hseq : seq + 1 + ofNat reqs.length = seq + ofNat (req :: reqs).length := by
      rw [length_cons, ofNat_add, add_assoc, add_comm 1]
      rfl
    rw [cons_append, assignSeqs, assignSeqs, ih, hseq, cons_append]

theorem toNat_add_ofNat {seq : UInt64} {n : ℕ} (h : seq.toNat + n < 2 ^ 64) :
    (seq + UInt64.ofNat n).toNat = seq.toNat + n := by
  rw [UInt64.toNat_add, UInt64.toNat_ofNat', Nat.mod_eq_of_lt (show n < 2 ^ 64 by omega),
    Nat.mod_eq_of_lt h]

theorem seqs_assignSeqs {seq : UInt64} {reqs : List AppendRequest}
    (h : seq.toNat + reqs.length ≤ 2 ^ 64) :
    (assignSeqs seq reqs).map (fun r => r.seq.toNat) = range' seq.toNat reqs.length := by
  induction reqs generalizing seq with
  | nil => rfl
  | cons req reqs ih =>
    rw [length_cons] at h ⊢
    rw [assignSeqs, map_cons, range'_succ]
    congr 1
    cases reqs with
    | nil => rfl
    | cons next reqs =>
      have hnext : (seq + 1).toNat = seq.toNat + 1 := by
        apply @toNat_add_ofNat seq 1
        rw [length_cons] at h
        omega
      rw [ih (by rw [hnext]; omega), hnext]

theorem appendAnswers_append (responses more : List WalResponse) :
    appendAnswers (responses ++ more) = appendAnswers responses ++ appendAnswers more :=
  filterMap_append

theorem appendAnswers_answers (seq : UInt64) (batch : List AppendRequest) :
    appendAnswers (answers batch (assignSeqs seq batch) none) =
      zipWith (fun req record => (req, .ok record.seq)) batch (assignSeqs seq batch) := by
  rw [answers]
  induction batch generalizing seq with
  | nil => rfl
  | cons req batch ih =>
    rw [assignSeqs, zipWith_cons_cons, zipWith_cons_cons, ← ih]
    rfl

theorem appendAnswers_receive (w : Worker) (batch : List AppendRequest)
    (sync : Except OxideMqError Unit) (msg : WalMessage) :
    appendAnswers (receive w batch sync msg).responses = appendAnswers w.responses := by
  cases msg with
  | append | shutdown => rfl
  | flush | trim => simp [receive, appendAnswers]

theorem filename_ne_of_lt {baseSeq baseSeq' : UInt64} (h : baseSeq < baseSeq') :
    filename baseSeq ≠ filename baseSeq' := by
  intro hsame
  rw [filename_injective hsame] at h
  exact UInt64.lt_irrefl _ h

structure HoldsLogs (dir : Directory) (logs : List SegmentLog) : Prop where
  segments : HasSegments dir (logs.map SegmentLog.baseSeq)
  files : ∀ s ∈ logs, dir.lookup (WalSegment.filename s.baseSeq) = some (encodeAll s.records)

namespace HoldsLogs

variable {dir : Directory} {logs : List SegmentLog}

theorem empty : HoldsLogs ∅ [] :=
  ⟨⟨List.Pairwise.nil, by simp, by simp⟩, by simp⟩

theorem recoveredRecords_eq (h : HoldsLogs dir logs) :
    recoveredRecords dir = logs.flatMap fun s => segmentRecords (encodeAll s.records) := by
  rw [h.segments.recoveredRecords_eq, flatMap_map]
  refine flatMap_congr fun s hs => ?_
  rw [fileOf, h.files s hs, Option.getD_some]

theorem recoveredRecords_eq_records (h : HoldsLogs dir logs)
    (hpays : ∀ r ∈ logs.flatMap SegmentLog.records, r.payload.length < 2 ^ 32) :
    recoveredRecords dir = logs.flatMap SegmentLog.records := by
  rw [h.recoveredRecords_eq]
  refine flatMap_congr fun s hs => ?_
  exact segmentRecords_encodeAll fun r hr => hpays r (mem_flatMap.mpr ⟨s, hs, hr⟩)

theorem append {active : SegmentLog} {seg : WalSegment} (h : HoldsLogs dir (logs ++ [active]))
    (hpath : seg.path = filename active.baseSeq) (recs : List WalRecord) :
    HoldsLogs (seg.append dir (encodeAll recs) .complete).1
      (logs ++ [⟨active.baseSeq, active.records ++ recs⟩]) := by
  have hdir : (seg.append dir (encodeAll recs) .complete).1 =
      dir.modify (filename active.baseSeq) (· ++ encodeAll recs) := by
    rw [← hpath]
    rfl
  have hkeys := keys_append dir seg (encodeAll recs) .complete
  have hnd := (pairwise_map.mp h.segments.increasing)
  have hseg := h.segments
  refine ⟨?_, ?_⟩
  · rw [map_append] at hseg ⊢
    refine ⟨hseg.increasing, ?_, ?_⟩ <;> rw [hkeys]
    · exact hseg.present
    · exact hseg.only
  · intro s hs
    rw [hdir, HashMap.lookup_modify]
    rcases mem_append.mp hs with hs | hs
    · -- the other segments have smaller base sequence numbers, hence other names
      have hlt := (pairwise_append.mp hnd).2.2 s hs active (mem_singleton_self _)
      rw [if_neg (filename_ne_of_lt hlt)]
      exact h.files s (mem_append_left _ hs)
    · rw [mem_singleton.mp hs, if_pos rfl,
        h.files active (mem_append_right _ (mem_singleton_self _)), encodeAll_append]
      rfl

theorem create (h : HoldsLogs dir logs) {seq : UInt64} (hlast : ∀ s ∈ logs, s.baseSeq < seq) :
    HoldsLogs (WalSegment.create dir seq).1 (logs ++ [⟨seq, []⟩]) := by
  have hmem : ∀ name, name ∈ (WalSegment.create dir seq).1.keys ↔
      name = WalSegment.filename seq ∨ name ∈ dir.keys := by
    intro name
    rw [← AList.mem_keys, ← AList.mem_keys]
    exact AList.mem_insert _
  refine ⟨⟨?_, ?_, ?_⟩, ?_⟩
  · rw [map_append, pairwise_append]
    refine ⟨h.segments.increasing, pairwise_singleton _ _, ?_⟩
    intro b hb b' hb'
    obtain ⟨s, hs, rfl⟩ := mem_map.mp hb
    rw [mem_singleton.mp hb']
    exact hlast s hs
  · intro b hb
    rw [map_append] at hb
    rcases mem_append.mp hb with hb | hb
    · exact (hmem _).mpr (Or.inr (h.segments.present b hb))
    · rw [mem_singleton.mp hb]
      exact (hmem _).mpr (Or.inl rfl)
  · intro name hname hparse
    rw [map_append]
    rcases (hmem name).mp hname with rfl | hname
    · exact ⟨seq, mem_append_right _ (mem_singleton_self _), rfl⟩
    · obtain ⟨b, hb, rfl⟩ := h.segments.only name hname hparse
      exact ⟨b, mem_append_left _ hb, rfl⟩
  · intro s hs
    rw [WalSegment.create, HashMap.lookup_insert_ite]
    rcases mem_append.mp hs with hs | hs
    · rw [if_neg (filename_ne_of_lt (hlast s hs))]
      exact h.files s hs
    · rw [mem_singleton.mp hs, if_pos rfl]
      rfl

end HoldsLogs

def Pending (log : CommitLog) : Prop :=
  match log.worker.phase with
  | .waiting => log.received = log.answered
  | .draining batch => batch ≠ [] ∧ log.received = log.answered ++ batch
  | .stopped => log.answered <+: log.received

structure Written (log : CommitLog) (earlier : List SegmentLog) (active : SegmentLog) : Prop where
  holds : HoldsLogs log.worker.dir (earlier ++ [active])
  path : log.worker.segment.path = WalSegment.filename active.baseSeq
  bases : (earlier ++ [active]).map SegmentLog.baseSeq = 1 :: log.rolled
  below : ∀ s ∈ earlier ++ [active], s.baseSeq.toNat ≤ log.worker.nextSeq.toNat
  records : (earlier ++ [active]).flatMap SegmentLog.records = assignSeqs 1 log.answered
  nextSeq : log.worker.nextSeq.toNat = 1 + log.answered.length
  ownSeq : appendAnswers log.worker.responses =
    List.zipWith (fun request record => (request, .ok record.seq)) log.answered
      (assignSeqs 1 log.answered)
  pending : Pending log

theorem written_fresh : Written fresh [] ⟨1, []⟩ :=
  ⟨HoldsLogs.empty.create (by simp), rfl, rfl, by decide, rfl, rfl, rfl, rfl⟩

section

variable {earlier : List SegmentLog} {active : SegmentLog} {batch : List AppendRequest}

theorem written_receive (h : Written log earlier active) (msg : WalMessage)
    (sync : Except OxideMqError Unit)
    (hp : log.worker.phase = .waiting ∧ batch = [] ∨ log.worker.phase = .draining batch) :
    Written ⟨receive log.worker batch sync msg,
      log.received ++ appendOf (.recv msg sync), log.rolled⟩ earlier active := by
  have hreceived : log.received = log.answered ++ batch := by
    have hpend := h.pending
    rcases hp with ⟨hp, rfl⟩ | hp
    · rw [append_nil]
      simpa only [Pending, hp] using hpend
    · simp only [Pending, hp] at hpend
      exact hpend.2
  obtain ⟨hdir, hseg, hnext⟩ := receive_frame log.worker batch sync msg
  have hanswers := appendAnswers_receive log.worker batch sync msg
  have hans : answered ⟨receive log.worker batch sync msg,
      log.received ++ appendOf (.recv msg sync), log.rolled⟩ = log.answered := by
    rw [answered, hanswers, answered]
  refine ⟨?_, ?_, h.bases, ?_, ?_, ?_, ?_, ?_⟩
  · rw [hdir]
    exact h.holds
  · rw [hseg]
    exact h.path
  · rw [hnext]
    exact h.below
  · rw [hans]
    exact h.records
  · rw [hnext, hans]
    exact h.nextSeq
  · rw [hans, hanswers]
    exact h.ownSeq
  · -- an append joins the batch, a shutdown leaves it unanswered
    cases msg with
    | append req =>
      refine ⟨by simp, ?_⟩
      rw [hans, hreceived, append_assoc]
      rfl
    | shutdown =>
      show answered _ <+: _
      rw [hans, hreceived, append_assoc]
      exact prefix_append _ _
    | flush | trim =>
      have hpend := h.pending
      rw [Pending, hans]
      simpa [receive, appendOf, Pending] using hpend

theorem commitBatch_complete (cfg : WalConfig) (w : Worker) (batch : List AppendRequest) :
    let recs := assignSeqs w.nextSeq batch
    let next := w.nextSeq + ofNat batch.length
    let appended := w.segment.append w.dir (encodeAll recs) .complete
    let responses := w.responses ++ answers batch recs none
    commitBatch cfg w batch .complete (.ok ()) (.ok ()) =
      if cfg.maxSegmentSizeBytes ≤ sizeAfter w batch .complete then
        ⟨(create appended.1 next).1, (create appended.1 next).2, next, .waiting, responses⟩
      else ⟨appended.1, appended.2.1, next, .waiting, responses⟩ := by
  intro recs next appended responses
  have hsize := append_size w batch .complete
  have herr : (errorOf appended.2.2).or (errorOf (if appended.2.2.isOk && cfg.syncToDisk then
      (.ok () : Except OxideMqError Unit) else .ok ())) = none := by
    rw [ite_self]
    rfl
  have hcommit : commitBatch cfg w batch .complete (.ok ()) (.ok ()) =
      ⟨(rollSegment cfg (.ok ()) next appended.1 appended.2.1).1,
        (rollSegment cfg (.ok ()) next appended.1 appended.2.1).2, next, .waiting,
        w.responses ++ answers batch recs ((errorOf appended.2.2).or (errorOf
          (if appended.2.2.isOk && cfg.syncToDisk then
            (.ok () : Except OxideMqError Unit) else .ok ())))⟩ := rfl
  rw [hcommit, herr, rollSegment]
  by_cases hfull : cfg.maxSegmentSizeBytes ≤ sizeAfter w batch .complete
  · rw [if_pos hfull, if_pos (hfull.trans_eq hsize.symm)]
  · rw [if_neg hfull, if_neg fun hge => hfull (hge.trans_eq hsize)]

theorem commitBatch_responses (cfg : WalConfig) (w : Worker) (batch : List AppendRequest) :
    (commitBatch cfg w batch .complete (.ok ()) (.ok ())).responses =
      w.responses ++ answers batch (assignSeqs w.nextSeq batch) none := by
  rw [commitBatch_complete]
  split
  · rfl
  · rfl

theorem map_fst_zipWith (batch : List AppendRequest) (seq : UInt64) : (zipWith (fun req record =>
      ((req, .ok record.seq) : AppendRequest × Except OxideMqError UInt64)) batch
        (assignSeqs seq batch)).map Prod.fst = batch := by
  induction batch generalizing seq with
  | nil => rfl
  | cons req batch ih => rw [assignSeqs, zipWith_cons_cons, map_cons, ih]

def written (worker : Worker) (batch : List AppendRequest) : Worker :=
  let records := assignSeqs worker.nextSeq batch
  let appended := worker.segment.append worker.dir (encodeAll records) .complete
  ⟨appended.1, appended.2.1, worker.nextSeq + UInt64.ofNat batch.length, .waiting,
    worker.responses ++ answers batch records none⟩

theorem exists_same_base {recs : List WalRecord} {s : SegmentLog}
    (hs : s ∈ earlier ++ [⟨active.baseSeq, recs⟩]) :
    ∃ t ∈ earlier ++ [active], t.baseSeq = s.baseSeq := by
  rcases mem_append.mp hs with hs | hs
  · exact ⟨s, mem_append_left _ hs, rfl⟩
  · exact ⟨active, by simp, by rw [mem_singleton.mp hs]⟩

theorem Written.seq_eq (h : Written log earlier active) :
    1 + UInt64.ofNat log.answered.length = log.worker.nextSeq := by
  have hone : (1 : UInt64).toNat = 1 := rfl
  have hlt := UInt64.toNat_lt log.worker.nextSeq
  rw [h.nextSeq] at hlt
  apply UInt64.toNat_inj.mp
  rw [toNat_add_ofNat hlt, hone, h.nextSeq]

theorem Written.appendAnswers_written (h : Written log earlier active)
    (batch : List AppendRequest) :
    appendAnswers (written log.worker batch).responses =
      zipWith (fun req record => (req, .ok record.seq)) (log.answered ++ batch)
        (assignSeqs 1 (log.answered ++ batch)) := by
  rw [written, appendAnswers_append, appendAnswers_answers, h.ownSeq, assignSeqs_append, h.seq_eq,
    zipWith_append (by simp)]

theorem Written.write (h : Written log earlier active) (hp : log.worker.phase = .draining batch)
    (hroom : log.worker.nextSeq.toNat + batch.length < 2 ^ 64) :
    Written ⟨written log.worker batch, log.received, log.rolled⟩ earlier
      ⟨active.baseSeq, active.records ++ assignSeqs log.worker.nextSeq batch⟩ := by
  have hpend := h.pending
  simp only [Pending, hp] at hpend
  have hnext := toNat_add_ofNat hroom
  have hanswers := h.appendAnswers_written batch
  have hans : answered ⟨written log.worker batch, log.received, log.rolled⟩ =
      log.answered ++ batch := by
    rw [answered, hanswers, map_fst_zipWith]
  refine ⟨h.holds.append h.path _, ?_, ?_, ?_, ?_, ?_, ?_, ?_⟩
  · exact (append_path _ _ _ _).trans h.path
  · rw [← h.bases, map_append, map_append]
    rfl
  · intro s hs
    obtain ⟨t, ht, hbase⟩ := exists_same_base hs
    have hlt := h.below t ht
    show s.baseSeq.toNat ≤ (log.worker.nextSeq + ofNat batch.length).toNat
    rw [← hbase, hnext]
    omega
  · rw [hans, assignSeqs_append, h.seq_eq, ← h.records]
    simp
  · show (log.worker.nextSeq + ofNat batch.length).toNat = _
    rw [hnext, hans, h.nextSeq, length_append, Nat.add_assoc]
  · rw [hans]
    exact hanswers
  · show log.received = answered _
    rw [hans]
    exact hpend.2

theorem Written.roll (h : Written log earlier active)
    (hlast : ∀ s ∈ earlier ++ [active], s.baseSeq < log.worker.nextSeq) :
    let created := create log.worker.dir log.worker.nextSeq
    Written ⟨{ log.worker with dir := created.1, segment := created.2 }, log.received,
      log.rolled ++ [log.worker.nextSeq]⟩ (earlier ++ [active]) ⟨log.worker.nextSeq, []⟩ := by
  intro created
  refine ⟨h.holds.create hlast, rfl, ?_, ?_, ?_, h.nextSeq, h.ownSeq, h.pending⟩
  · rw [map_append, h.bases]
    rfl
  · intro s hs
    rcases mem_append.mp hs with hs | hs
    · exact h.below s hs
    · rw [mem_singleton.mp hs]
  · rw [flatMap_append, h.records, flatMap_singleton, append_nil]
    rfl

theorem written_commit (h : Written log earlier active) (hp : log.worker.phase = .draining batch)
    (hroom : log.worker.nextSeq.toNat + batch.length < 2 ^ 64) :
    ∃ earlier' active', Written
      ⟨commitBatch config log.worker batch .complete (.ok ()) (.ok ()), log.received,
        log.rolled ++ rollOf config log.worker (.commit .complete (.ok ()) (.ok ()))⟩
      earlier' active' := by
  have hw := h.write hp hroom
  rw [commitBatch_complete]
  by_cases hfull : config.maxSegmentSizeBytes ≤ sizeAfter log.worker batch .complete
  · have hroll : rollOf config log.worker (.commit .complete (.ok ()) (.ok ())) =
        [(written log.worker batch).nextSeq] := by
      simp only [rollOf, hp]
      exact if_pos ⟨hfull, rfl⟩
    have hpend := h.pending
    simp only [Pending, hp] at hpend
    have hlen : 0 < batch.length := length_pos_iff.mpr hpend.1
    rw [if_pos hfull, hroll]
    refine ⟨_, _, hw.roll fun s hs => ?_⟩
    -- the batch is not empty, so the next number lies above every base
    obtain ⟨t, ht, hbase⟩ := exists_same_base hs
    have hlt := h.below t ht
    show s.baseSeq < log.worker.nextSeq + ofNat batch.length
    rw [← hbase, lt_iff_toNat_lt, toNat_add_ofNat hroom]
    omega
  · have hroll : rollOf config log.worker (.commit .complete (.ok ()) (.ok ())) = [] := by
      simp only [rollOf, hp]
      exact if_neg fun hboth => hfull hboth.1
    rw [if_neg hfull, hroll, append_nil]
    exact ⟨_, _, hw⟩

end

theorem written_step (log : CommitLog) (event : WorkerEvent) (log' : CommitLog)
    (h : ∃ earlier active, Written log earlier active)
    (hcond : NeverFails event ∧ HasRoom log event) (hexec : exec config log event = some log') :
    ∃ earlier active, Written log' earlier active := by
  obtain ⟨earlier, active, h⟩ := h
  obtain ⟨msg, sync, batch, rfl, hp, rfl⟩ | ⟨batch, rfl, hp, rfl⟩ :=
    exec_cases hcond.1 hexec
  · exact ⟨earlier, active, written_receive h msg sync hp⟩
  · exact written_commit h hp (hcond.2 batch hp)

def AnsweredFit (log : CommitLog) : Prop :=
  ∀ request ∈ log.answered, request.data.length < 2 ^ 32

theorem answered_commit (cfg : WalConfig) (log : CommitLog) (batch received : List AppendRequest)
    (rolled : List UInt64) :
    answered ⟨commitBatch cfg log.worker batch .complete (.ok ()) (.ok ()), received, rolled⟩ =
      log.answered ++ batch := by
  rw [answered, commitBatch_responses, appendAnswers_append, appendAnswers_answers, map_append,
    map_fst_zipWith, answered]

theorem answeredFit_step {log' : CommitLog} {event : WorkerEvent} (hfail : NeverFails event)
    (hexec : exec config log event = some log') :
    AnsweredFit log' ↔ AnsweredFit log ∧ FitsHeader log event := by
  obtain ⟨msg, sync, batch, rfl, hp, rfl⟩ | ⟨batch, rfl, hp, rfl⟩ :=
    exec_cases hfail hexec
  · rw [AnsweredFit, answered, appendAnswers_receive, AnsweredFit, answered, FitsHeader, and_true]
  · rw [AnsweredFit, answered_commit, forall_mem_append, AnsweredFit, FitsHeader]
    refine and_congr_right fun _ => ⟨fun hbatch batch' hphase' => ?_, fun h => h batch hp⟩
    rw [← Phase.draining.inj (hp.symm.trans hphase')]
    exact hbatch

theorem Written.inOrder_iff {earlier : List SegmentLog} {active : SegmentLog}
    (h : Written log earlier active) : InOrder log ↔ AnsweredFit log := by
  constructor
  · intro hord
    refine (payloads_assignSeqs 1).mp fun r hr => ?_
    rw [← hord.decoded] at hr
    exact payload_lt_of_mem_recoveredRecords hr
  · intro hfit
    have hpays := (payloads_assignSeqs 1).mpr hfit
    rw [← h.records] at hpays
    refine ⟨?_, ?_, h.ownSeq, ?_, ?_⟩
    · have hpend := h.pending
      rw [Pending] at hpend
      split at hpend
      · rw [hpend]
      · rw [hpend.2]
        exact prefix_append _ _
      · exact hpend
    · apply seqs_assignSeqs
      have hlt := toNat_lt log.worker.nextSeq
      rw [h.nextSeq] at hlt
      exact Nat.le_of_lt hlt
    · rw [h.holds.recoveredRecords_eq_records hpays, h.records]
    · rw [← h.bases]
      exact h.holds.segments.increasing

theorem inOrder_iff_fitsHeader {config : WalConfig} {events : List WorkerEvent} {log : CommitLog}
    (hfail : ∀ event ∈ events, NeverFails event)
    (hroom : Along (exec config) HasRoom fresh events)
    (hrun : run (exec config) fresh events = some log) :
    InOrder log ↔ Along (exec config) FitsHeader fresh events := by
  have hnever : Along (exec config) (fun _ event => NeverFails event) fresh events :=
    along_of_forall hfail
  obtain ⟨earlier, active, h⟩ := run_invariant written_step ⟨_, _, written_fresh⟩
    (hnever.and hroom) hrun
  rw [h.inOrder_iff]
  constructor
  · intro hfit
    have hback : ∀ log event log', NeverFails event → exec config log event = some log' →
        AnsweredFit log' → AnsweredFit log ∧ FitsHeader log event :=
      fun _ _ _ hnever hexec => (answeredFit_step hnever hexec).mp
    exact (along_of_run hback hnever hrun hfit).2
  · intro hfits
    have hstart : AnsweredFit fresh := List.forall_mem_nil _
    have hstep : ∀ log event log', AnsweredFit log → NeverFails event ∧ FitsHeader log event →
        exec config log event = some log' → AnsweredFit log' :=
      fun _ _ _ hlog hcond hexec => (answeredFit_step hcond.1 hexec).mpr ⟨hlog, hcond.2⟩
    exact run_invariant hstep hstart (hnever.and hfits) hrun

def oneAppend (request : AppendRequest) : List WorkerEvent :=
  [.recv (.append request) (.ok ()), .commit .complete (.ok ()) (.ok ())]

def rollAlways : WalConfig := ⟨0, 10, true⟩

def afterOne (request : AppendRequest) : CommitLog :=
  ⟨commitBatch rollAlways (receive (openWal ∅) [] (.ok ()) (.append request)) [request] .complete
    (.ok ()) (.ok ()), [request], [2]⟩

theorem neverFails_oneAppend (req : AppendRequest) : ∀ event ∈ oneAppend req, NeverFails event := by
  intro event hevent
  rcases mem_cons.mp hevent with rfl | hevent
  · trivial
  · rw [mem_singleton.mp hevent]
    exact ⟨rfl, rfl, rfl⟩

theorem run_oneAppend (req : AppendRequest) :
    run (exec rollAlways) fresh (oneAppend req) = some (afterOne req) := by
  have hroll : ∀ w : Worker, w.phase = .draining [req] → w.nextSeq = 1 →
      rollOf rollAlways w (.commit .complete (.ok ()) (.ok ())) = [2] := by
    intro w hp hseq
    simp only [rollOf, hp, hseq]
    exact if_pos ⟨Nat.zero_le _, rfl⟩
  rw [oneAppend, run_cons_eq_some]
  refine ⟨⟨receive (openWal ∅) [] (.ok ()) (.append req), [req], []⟩, rfl, ?_⟩
  rw [run_cons_eq_some]
  refine ⟨_, rfl, ?_⟩
  rw [run_nil, afterOne, hroll _ rfl rfl]
  rfl

theorem hasRoom_oneAppend (req : AppendRequest) :
    Along (exec rollAlways) HasRoom fresh (oneAppend req) := by
  refine ⟨trivial, fun log hlog => ⟨fun batch hbatch => ?_, fun _ _ => trivial⟩⟩
  rw [← Option.some.inj hlog] at hbatch ⊢
  rw [← Phase.draining.inj hbatch]
  show (1 : UInt64).toNat + 1 < 2 ^ 64
  decide

theorem shortAppend_inOrder : InOrder (afterOne ⟨10, 0, [7]⟩) := by
  refine (inOrder_iff_fitsHeader (neverFails_oneAppend _) (hasRoom_oneAppend _)
    (run_oneAppend _)).mpr ?_
  refine ⟨trivial, fun log hlog => ⟨fun batch hbatch => ?_, fun _ _ => trivial⟩⟩
  rw [← Option.some.inj hlog] at hbatch
  rw [← Phase.draining.inj hbatch]
  decide

theorem longAppend_not_decoded : ∃ config events log request, (∀ event ∈ events, NeverFails event) ∧
        Along (exec config) HasRoom fresh events ∧
        run (exec config) fresh events = some log ∧
        WalResponse.append request (.ok 1) ∈ log.worker.responses ∧
        request.record 1 ∉ recoveredRecords log.worker.dir ∧ ¬InOrder log := by
  have hlong : ∀ request : AppendRequest, request.data.length = 2 ^ 32 →
      request.record 1 ∉ recoveredRecords (afterOne request).worker.dir := by
    intro request hlen hmem
    have hlt := payload_lt_of_mem_recoveredRecords hmem
    rw [show (request.record 1).payload = request.data from rfl, hlen] at hlt
    exact lt_irrefl _ hlt
  have hans : ∀ request : AppendRequest, (afterOne request).answered = [request] :=
    fun request => answered_commit rollAlways
      ⟨receive (openWal ∅) [] (.ok ()) (.append request), [request], []⟩ [request] _ _
  obtain ⟨request, hlen⟩ : ∃ request : AppendRequest, request.data.length = 2 ^ 32 :=
    ⟨⟨10, 0, List.replicate (2 ^ 32) 0⟩, List.length_replicate⟩
  refine ⟨rollAlways, oneAppend request, afterOne request, request, neverFails_oneAppend _,
    hasRoom_oneAppend _, run_oneAppend _, ?_, hlong request hlen, fun hord => ?_⟩
  · rw [afterOne, commitBatch_complete]
    split
    · exact List.mem_singleton.mpr rfl
    · exact List.mem_singleton.mpr rfl
  · apply hlong request hlen
    rw [hord.decoded, hans]
    exact List.mem_singleton.mpr rfl

end CommitLog

end OxideMq.Wal
