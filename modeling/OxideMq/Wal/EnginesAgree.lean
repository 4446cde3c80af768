import OxideMq.Wal.CommitOrder
import OxideMq.Wal.DamagedRecord
import OxideMq.Wal.Engine

/-! The in-memory log and the file log hold the same records. -/

namespace OxideMq.Wal

open Lib OxideMq.Core List

namespace MemoryWal

def entrySize (entry : ℕ × MemoryRecord) : ℕ := entry.2.payload.length

theorem readSeqs_eq (recs : Std.TreeMap ℕ MemoryRecord) (start : ℤ)
    (limit total : ℕ) (seqs : List ℕ) :
    readSeqs recs start limit total seqs = takeReaching entrySize limit total
        ((seqs.filterMap fun seq => recs[seq]?.map (Prod.mk seq)).filter
          fun entry => decide (entry.2.offset ≥ start)) := by
  induction seqs generalizing total with
  | nil => rfl
  | cons seq seqs ih =>
    rw [readSeqs]
    cases hrec : recs[seq]? with
    | none =>
      rw [filterMap_cons_none (by rw [hrec]; rfl)]
      exact ih total
    | some record =>
      rw [filterMap_cons_some (by rw [hrec]; rfl)]
      dsimp only
      by_cases hoff : record.offset ≥ start
      · rw [if_pos hoff, filter_cons_of_pos (by simpa using hoff), takeReaching]
        congr 1
        show (if limit ≤ total + record.payload.length then _ else _) =
          if limit ≤ total + record.payload.length then _ else _
        split
        · rfl
        · exact ih _
      · rw [if_neg hoff, filter_cons_of_neg (by simp [hoff])]
        exact ih total

structure Holds (wal : MemoryWal) (entries : List (ℕ × MemoryRecord)) : Prop where
  below : ∀ entry ∈ entries, entry.1 < wal.nextSeq
  records : ∀ entry ∈ entries, wal.records[entry.1]? = some entry.2
  index : ∀ streamId, (wal.streamIndexes.lookup streamId).getD [] =
    (entries.filter fun entry => entry.2.streamId = streamId).map Prod.fst

theorem holds_new : Holds new [] := by
  refine ⟨by simp, by simp, fun sid => ?_⟩
  rw [new]
  rfl

theorem Holds.append {wal : MemoryWal} {es : List (ℕ × MemoryRecord)}
    (h : Holds wal es) (sid : ℕ) (off : ℤ) (data : Bytes) :
    Holds (wal.append sid off data).1 (es ++ [(wal.nextSeq, ⟨sid, off, data⟩)]) := by
  refine ⟨?_, ?_, fun str => ?_⟩
  · intro entry he
    show entry.1 < wal.nextSeq + 1
    rcases mem_append.mp he with he | he
    · exact (h.below entry he).trans (Nat.lt_succ_self _)
    · rw [mem_singleton.mp he]
      exact Nat.lt_succ_self _
  · intro entry he
    show (wal.records.insert wal.nextSeq ⟨sid, off, data⟩)[entry.1]? = some entry.2
    rcases mem_append.mp he with he | he
    · -- earlier entries have smaller numbers
      have hne : wal.nextSeq ≠ entry.1 := (h.below entry he).ne'
      rw [Std.TreeMap.getElem?_insert, if_neg (by simp [hne])]
      exact h.records entry he
    · rw [mem_singleton.mp he]
      exact Std.TreeMap.getElem?_insert_self
  · show (((wal.streamIndexes.entryOrInsert sid []).modify sid
      (· ++ [wal.nextSeq])).lookup str).getD [] = _
    rw [HashMap.lookup_modify, HashMap.lookup_entryOrInsert, filter_append, map_append,
      ← h.index str]
    by_cases hstr : str = sid
    · subst hstr
      simp
    · simp [HashMap.lookup_entryOrInsert, hstr, Ne.symm hstr]

theorem Holds.readStream_eq {wal : MemoryWal} {es : List (ℕ × MemoryRecord)}
    (h : Holds wal es) (sid : ℕ) (start : ℤ) (limit : ℕ) :
    wal.readStream sid start limit = takeReaching entrySize limit 0 (es.filter fun entry =>
        decide (entry.2.streamId = sid ∧ entry.2.offset ≥ start)) := by
  have hread : wal.readStream sid start limit =
      readSeqs wal.records start limit 0 ((wal.streamIndexes.lookup sid).getD []) := by
    rw [readStream]
    split
    · rename_i hnone
      rw [hnone]
      rfl
    · rename_i seqs hseqs
      rw [hseqs]
      rfl
  have hlisted : ∀ listed : List (ℕ × MemoryRecord), (∀ entry ∈ listed, entry ∈ es) →
      (listed.map Prod.fst).filterMap (fun seq => wal.records[seq]?.map (Prod.mk seq)) =
        listed := by
    intro listed hsub
    induction listed with
    | nil => rfl
    | cons entry listed ih =>
      have hentry := h.records entry (hsub entry mem_cons_self)
      rw [map_cons, filterMap_cons_some (by rw [hentry]; rfl),
        ih fun e he => hsub e (mem_cons_of_mem _ he)]
  rw [hread, h.index, readSeqs_eq, hlisted _ fun entry hentry => mem_of_mem_filter hentry,
    filter_filter]
  congr 2
  ext entry
  rw [Bool.and_comm, Bool.decide_and]

def appendAll : MemoryWal → List AppendRequest → MemoryWal × List (Except OxideMqError ℕ)
  | wal, [] => (wal, [])
  | wal, request :: requests =>
      let (wal', seq) := wal.append request.streamId.toNat request.offset.toInt request.data
      let (wal'', seqs) := appendAll wal' requests
      (wal'', seq :: seqs)

def entryOf (r : WalRecord) : ℕ × MemoryRecord :=
  (r.seq.toNat, ⟨r.streamId.toNat, r.offset.toInt, r.payload⟩)

open FileWal in
theorem Holds.appendAll {wal : MemoryWal} {es : List (ℕ × MemoryRecord)}
    (h : Holds wal es) {seq : UInt64} (hseq : seq.toNat = wal.nextSeq)
    {reqs : List AppendRequest} (hroom : wal.nextSeq + reqs.length < 2 ^ 64) :
    Holds (wal.appendAll reqs).1 (es ++ (assignSeqs seq reqs).map entryOf) ∧
      (wal.appendAll reqs).2 = (assignSeqs seq reqs).map fun r => .ok r.seq.toNat := by
  induction reqs generalizing wal es seq with
  | nil =>
    rw [assignSeqs, map_nil, append_nil]
    exact ⟨h, rfl⟩
  | cons req reqs ih =>
    rw [length_cons] at hroom
    have hnext : (seq + 1).toNat = wal.nextSeq + 1 := by
      rw [← hseq]
      apply @CommitLog.toNat_add_ofNat seq 1
      omega
    have he : entryOf (req.record seq) =
        (wal.nextSeq, ⟨req.streamId.toNat, req.offset.toInt, req.data⟩) := by
      rw [← hseq]
      rfl
    obtain ⟨hholds, hseqs⟩ := ih
      (h.append req.streamId.toNat req.offset.toInt req.data) hnext (by
        show wal.nextSeq + 1 + reqs.length < 2 ^ 64
        omega)
    rw [append_assoc, singleton_append, ← he] at hholds
    refine ⟨hholds, ?_⟩
    calc (wal.appendAll (req :: reqs)).2
      _ = .ok wal.nextSeq :: ((wal.append req.streamId.toNat req.offset.toInt
            req.data).1.appendAll reqs).2 := rfl
      _ = (assignSeqs seq (req :: reqs)).map fun r => .ok r.seq.toNat := by
        rw [hseqs, assignSeqs, map_cons, ← hseq]
        rfl

end MemoryWal

namespace CommitLog

open FileWal WalRecovery MemoryWal

def inMemory (log : CommitLog) : MemoryWal × List (Except OxideMqError ℕ) :=
  MemoryWal.new.appendAll log.received

structure EnginesAgree (log : CommitLog) : Prop where
  seqs : (appendAnswers log.worker.responses).map (fun answer => answer.2.map UInt64.toNat) =
    log.inMemory.2
  reads : ∀ streamId startOffset maxBytes,
    (FileWal.readStream log.worker.dir streamId startOffset maxBytes).map entryOf =
      log.inMemory.1.readStream streamId.toNat startOffset.toInt maxBytes

def SeqsLeft (log : CommitLog) : Prop := log.received.length + 1 < 2 ^ 64

theorem written_run {cfg : WalConfig} {events : List WorkerEvent} {log : CommitLog}
    (hfail : ∀ event ∈ events, NeverFails event)
    (hrun : run (exec cfg) fresh events = some log) (hleft : SeqsLeft log) :
    ∃ earlier active, Written log earlier active := by
  have hstep : ∀ log event log', (SeqsLeft log → ∃ earlier active, Written log earlier active) →
      NeverFails event → exec cfg log event = some log' →
      SeqsLeft log' → ∃ earlier active, Written log' earlier active := by
    intro log event log' hlog hnever hexec hleft'
    have hreceived : log'.received = log.received ++ appendOf event := by
      obtain ⟨w, -, rfl⟩ := Option.map_eq_some_iff.mp hexec
      rfl
    have hleft : SeqsLeft log := by
      rw [SeqsLeft, hreceived, length_append] at hleft'
      rw [SeqsLeft]
      omega
    obtain ⟨earlier, active, hwr⟩ := hlog hleft
    refine written_step log event log' ⟨earlier, active, hwr⟩ ⟨hnever, ?_⟩ hexec
    cases event with
    | recv msg sync => trivial
    | commit write sync create =>
      intro batch hp
      have hpend := hwr.pending
      rw [Pending, hp] at hpend
      rw [SeqsLeft, hpend.2, length_append] at hleft
      rw [hwr.nextSeq]
      omega
  exact run_invariant hstep (fun _ => ⟨_, _, written_fresh⟩) (along_of_forall hfail) hrun hleft

section Agreement

variable {log : CommitLog} {earlier : List SegmentLog} {active : SegmentLog}

theorem Written.received_eq (h : Written log earlier active)
    (hwait : log.worker.phase = .waiting) : log.received = log.answered := by
  have hpend := h.pending
  rw [Pending, hwait] at hpend
  exact hpend

theorem inMemory_holds (hleft : SeqsLeft log) :
    Holds log.inMemory.1 ((assignSeqs 1 log.received).map entryOf) ∧
      log.inMemory.2 = (assignSeqs 1 log.received).map fun r => .ok r.seq.toNat := by
  have hroom : MemoryWal.new.nextSeq + log.received.length < 2 ^ 64 := by
    rw [Nat.add_comm]
    exact hleft
  exact holds_new.appendAll rfl hroom

theorem Written.seqs_agree (h : Written log earlier active)
    (hwait : log.worker.phase = .waiting) (hleft : SeqsLeft log) :
    (appendAnswers log.worker.responses).map (fun answer => answer.2.map UInt64.toNat) =
      log.inMemory.2 := by
  have hzip : ∀ (seq : UInt64) (reqs : List AppendRequest), (zipWith (fun req record =>
        ((req, .ok record.seq) : AppendRequest × Except OxideMqError UInt64)) reqs
          (assignSeqs seq reqs)).map (fun answer => answer.2.map UInt64.toNat) =
        (assignSeqs seq reqs).map fun r => .ok r.seq.toNat := by
    intro seq reqs
    induction reqs generalizing seq with
    | nil => rfl
    | cons req reqs ih =>
      rw [assignSeqs, zipWith_cons_cons, map_cons, ih, map_cons]
      rfl
  rw [h.ownSeq, hzip, (inMemory_holds hleft).2, h.received_eq hwait]

theorem matches_entryOf (sid : UInt64) (start : Int64) (r : WalRecord) : Matches sid start r =
      decide ((entryOf r).2.streamId = sid.toNat ∧ (entryOf r).2.offset ≥ start.toInt) := by
  apply decide_eq_decide.mpr
  show r.streamId = sid ∧ start ≤ r.offset ↔
    r.streamId.toNat = sid.toNat ∧ start.toInt ≤ r.offset.toInt
  rw [UInt64.toNat_inj, Int64.le_iff_toInt_le]

theorem map_readStream (dir : Directory) (sid : UInt64) (start : Int64) (limit : ℕ) :
    (FileWal.readStream dir sid start limit).map entryOf =
      takeReaching entrySize limit 0 (((recoveredRecords dir).map entryOf).filter fun entry =>
        decide (entry.2.streamId = sid.toNat ∧ entry.2.offset ≥ start.toInt)) := by
  have hsize : ∀ r : WalRecord, entrySize (entryOf r) = r.payload.length := fun _ => rfl
  rw [readStream_eq_takeReaching, map_takeReaching hsize, filter_map]
  congr 3
  ext r
  exact matches_entryOf sid start r

theorem payload_lt_of_mem_read {dir : Directory} {sid : UInt64} {start : Int64}
    {limit : ℕ} {entry : ℕ × MemoryRecord}
    (h : entry ∈ (FileWal.readStream dir sid start limit).map entryOf) :
    entry.2.payload.length < 2 ^ 32 := by
  rw [map_readStream] at h
  have hfile := mem_of_mem_filter ((takeReaching_initial _ _).mem h)
  obtain ⟨r, hr, rfl⟩ := mem_map.mp hfile
  exact payload_lt_of_mem_recoveredRecords hr

theorem enginesAgree_iff_fit {config : WalConfig} {events : List WorkerEvent}
    (hfail : ∀ event ∈ events, NeverFails event)
    (hrun : run (exec config) fresh events = some log) (hwaiting : log.worker.phase = .waiting)
    (hleft : SeqsLeft log) :
    EnginesAgree log ↔ ∀ request ∈ log.received, request.data.length < 2 ^ 32 := by
  obtain ⟨earlier, active, h⟩ := written_run hfail hrun hleft
  have hholds := (inMemory_holds hleft).1
  constructor
  · intro hagree
    -- a read without a limit finds the payload in memory, so it is decoded from a file
    refine (payloads_assignSeqs 1).mp fun r hr => ?_
    have hmem : entryOf r ∈ (log.inMemory.1.readStream r.streamId.toNat Int64.minValue.toInt
        ((((assignSeqs 1 log.received).map entryOf).map entrySize).sum + 1)) := by
      rw [hholds.readStream_eq, takeReaching_eq_self]
      · refine List.mem_filter.mpr ⟨List.mem_map_of_mem hr, ?_⟩
        rw [← matches_entryOf]
        simp [Matches, Int64.minValue_le]
      · rw [Nat.zero_add]
        apply Nat.lt_succ_of_le
        exact (List.filter_sublist.map _).sum_le_sum fun _ _ => Nat.zero_le _
    rw [← hagree.reads] at hmem
    exact payload_lt_of_mem_read hmem
  · intro hfit
    have hdecoded : recoveredRecords log.worker.dir = assignSeqs 1 log.received := by
      rw [h.received_eq hwaiting] at hfit ⊢
      exact (h.inOrder_iff.mpr hfit).decoded
    refine ⟨h.seqs_agree hwaiting hleft, fun sid start maxBytes => ?_⟩
    rw [map_readStream, hholds.readStream_eq, hdecoded]

end Agreement

theorem seqsLeft_afterOne (req : AppendRequest) : SeqsLeft (afterOne req) := by
  show 1 + 1 < 2 ^ 64
  decide

theorem shortAppend_enginesAgree : EnginesAgree (afterOne ⟨10, 0, [7]⟩) := by
  refine (enginesAgree_iff_fit (neverFails_oneAppend _) (run_oneAppend _) rfl
    (seqsLeft_afterOne _)).mpr ?_
  intro req hreq
  rw [List.mem_singleton.mp hreq]
  decide

theorem longAppend_read_in_memory_only : ∃ config events log, (∀ event ∈ events, NeverFails event) ∧
      run (exec config) fresh events = some log ∧ log.worker.phase = .waiting ∧ SeqsLeft log ∧
      (FileWal.readStream log.worker.dir 10 0 1).map entryOf ≠ log.inMemory.1.readStream 10 0 1 ∧
      ¬EnginesAgree log := by
  have hlong : ∀ req : AppendRequest, req.streamId = 10 → req.offset = 0 →
      req.data.length = 2 ^ 32 →
      (FileWal.readStream (afterOne req).worker.dir 10 0 1).map entryOf ≠
        (afterOne req).inMemory.1.readStream 10 0 1 := by
    intro req hstr hoff hlen hsame
    have hread : (1, ⟨10, 0, req.data⟩) ∈ (afterOne req).inMemory.1.readStream 10 0 1 := by
      rw [(inMemory_holds (seqsLeft_afterOne req)).1.readStream_eq]
      simp [afterOne, assignSeqs, entryOf, AppendRequest.record, hstr, hoff, takeReaching]
    rw [← hsame] at hread
    have hlt := payload_lt_of_mem_read hread
    rw [hlen] at hlt
    exact lt_irrefl _ hlt
  obtain ⟨data, hlen⟩ : ∃ data : Bytes, data.length = 2 ^ 32 :=
    ⟨List.replicate (2 ^ 32) 0, List.length_replicate⟩
  have hdiffer := hlong ⟨10, 0, data⟩ rfl rfl hlen
  exact ⟨rollAlways, oneAppend _, afterOne ⟨10, 0, data⟩, neverFails_oneAppend _, run_oneAppend _,
    rfl, seqsLeft_afterOne _, hdiffer, fun hagree => hdiffer (hagree.reads 10 0 1)⟩

end CommitLog

end OxideMq.Wal
