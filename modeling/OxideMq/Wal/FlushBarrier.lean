import OxideMq.Wal.CommitOrder

/-! What a flush covers. -/

namespace OxideMq.Wal

open Lib OxideMq.Core WalSegment

inductive AppendFate where
  | collected
  | written (path : String)
  | synced
  | failed
  deriving DecidableEq, Repr

namespace AppendFate

variable {fate : AppendFate}

def sync (path : String) : AppendFate → AppendFate
  | .written p => if p = path then .synced else .written p
  | fate => fate

def conclude (outcome : AppendFate) : AppendFate → AppendFate
  | .collected => outcome
  | fate => fate

def answeredOk : AppendFate → Bool
  | .failed => false
  | _ => true

def Settled (fate : AppendFate) : Prop := fate = .synced ∨ fate = .failed

instance (fate : AppendFate) : Decidable fate.Settled :=
  inferInstanceAs (Decidable (_ ∨ _))

@[simp] theorem sync_collected_iff {path : String} :
    fate.sync path = .collected ↔ fate = .collected := by
  cases fate with
  | written p =>
    rw [sync]
    split
    · simp
    · simp
  | collected | synced | failed => simp [sync]

theorem sync_written_iff {path p : String} :
    fate.sync path = .written p ↔ fate = .written p ∧ p ≠ path := by
  cases fate with
  | written q =>
    rw [sync]
    split
    · rename_i hq
      subst hq
      simp only [reduceCtorEq, written.injEq, ne_eq, false_iff, not_and, not_not]
      exact Eq.symm
    · rename_i hq
      rw [written.injEq]
      refine ⟨fun h => ⟨h, ?_⟩, And.left⟩
      rw [← h]
      exact hq
  | collected | synced | failed => simp [sync]

@[simp] theorem answeredOk_sync (path : String) (fate : AppendFate) :
    (fate.sync path).answeredOk = fate.answeredOk := by
  cases fate with
  | written p =>
    rw [sync]
    split
    · rfl
    · rfl
  | collected | synced | failed => rfl

theorem settled_sync_iff {path : String} : (fate.sync path).Settled ↔
      fate ≠ .collected ∧ ∀ p, fate = .written p → p = path := by
  cases fate with
  | written q =>
    rw [sync]
    split
    · simp_all [Settled]
    · simp_all [Settled]
  | collected | synced | failed => simp [sync, Settled]

theorem conclude_of_ne {out : AppendFate} (h : fate ≠ .collected) : conclude out fate = fate := by
  cases fate with
  | collected => exact absurd rfl h
  | written | synced | failed => rfl

end AppendFate

structure FlushLog where
  worker : Worker
  fates : List AppendFate
  unsynced : List String

namespace FlushLog

open FileWal CommitLog

def opened (dir : Directory) : FlushLog := ⟨openWal dir, [], []⟩

def syncFile (log : FlushLog) : FlushLog :=
  { log with
    fates := log.fates.map (.sync log.worker.segment.path)
    unsynced := log.unsynced.filter (· ≠ log.worker.segment.path) }

def writeBatch (log : FlushLog) : FlushLog :=
  { log with
    fates := log.fates.map (.conclude (.written log.worker.segment.path))
    unsynced := log.worker.segment.path :: log.unsynced }

def failBatch (log : FlushLog) : FlushLog :=
  { log with fates := log.fates.map (.conclude .failed) }

def track (config : WalConfig) (log : FlushLog) : WorkerEvent → FlushLog
  | .recv (.append _) _ => { log with fates := log.fates ++ [.collected] }
  | .recv .flush (.ok _) => log.syncFile
  | .recv _ _ => log
  | .commit (.torn _ _) _ _ => log.failBatch
  | .commit .complete sync _ =>
      if config.syncToDisk then
        match sync with
        | .ok _ => log.writeBatch.syncFile
        | .error _ => log.failBatch
      else log.writeBatch

def exec (config : WalConfig) (log : FlushLog) (event : WorkerEvent) : Option FlushLog :=
  (step config log.worker event).map fun worker =>
    { log.track config event with worker := worker }

structure Kept (log : FlushLog) (done : List AppendFate) (n : ℕ) : Prop where
  fates : log.fates = done ++ List.replicate n .collected
  concluded : .collected ∉ done
  unsynced : ∀ path, .written path ∈ done ↔ path ∈ log.unsynced

namespace Kept

variable {log : FlushLog} {done : List AppendFate} {n : ℕ}

theorem mem_fates (h : Kept log done n) {fate : AppendFate} :
    fate ∈ log.fates ↔ fate ∈ done ∨ n ≠ 0 ∧ fate = .collected := by
  rw [h.fates, List.mem_append, List.mem_replicate]

theorem collect (h : Kept log done n) :
    Kept { log with fates := log.fates ++ [.collected] } done (n + 1) := by
  refine ⟨?_, h.concluded, h.unsynced⟩
  rw [h.fates, List.append_assoc, List.replicate_succ']

theorem syncFile (h : Kept log done n) :
    Kept log.syncFile (done.map (.sync log.worker.segment.path)) n := by
  refine ⟨?_, ?_, fun path => ?_⟩
  · rw [FlushLog.syncFile, h.fates, List.map_append, List.map_replicate]
    rfl
  · intro hmem
    obtain ⟨fate, hfate, hsync⟩ := List.mem_map.mp hmem
    rw [AppendFate.sync_collected_iff] at hsync
    exact h.concluded (hsync ▸ hfate)
  · rw [FlushLog.syncFile, List.mem_filter, decide_eq_true_iff, ← h.unsynced]
    simp only [List.mem_map, AppendFate.sync_written_iff]
    constructor
    · rintro ⟨fate, hfate, rfl, hne⟩
      exact ⟨hfate, hne⟩
    · rintro ⟨hfate, hne⟩
      exact ⟨_, hfate, rfl, hne⟩

theorem map_conclude (h : Kept log done n) (outcome : AppendFate) :
    log.fates.map (.conclude outcome) = done ++ List.replicate n outcome := by
  rw [h.fates, List.map_append, List.map_replicate]
  congr 1
  calc done.map (.conclude outcome)
    _ = done.map id := by
      refine List.map_congr_left fun fate hfate => AppendFate.conclude_of_ne ?_
      rintro rfl
      exact h.concluded hfate
    _ = done := List.map_id done

theorem writeBatch (h : Kept log done n) (hn : n ≠ 0) :
    Kept log.writeBatch (done ++ List.replicate n (.written log.worker.segment.path)) 0 := by
  refine ⟨?_, ?_, fun path => ?_⟩
  · rw [FlushLog.writeBatch, h.map_conclude, List.replicate_zero, List.append_nil]
  · simp [h.concluded]
  · rw [FlushLog.writeBatch, List.mem_append, h.unsynced, List.mem_cons, List.mem_replicate,
      AppendFate.written.injEq]
    constructor
    · rintro (hpath | ⟨-, rfl⟩)
      · exact Or.inr hpath
      · exact Or.inl rfl
    · rintro (rfl | hpath)
      · exact Or.inr ⟨hn, rfl⟩
      · exact Or.inl hpath

theorem failBatch (h : Kept log done n) :
    Kept log.failBatch (done ++ List.replicate n .failed) 0 := by
  refine ⟨?_, ?_, fun path => ?_⟩
  · rw [FlushLog.failBatch, h.map_conclude, List.replicate_zero, List.append_nil]
  · simp [h.concluded]
  · rw [FlushLog.failBatch, List.mem_append, h.unsynced]
    simp

end Kept

theorem isOk_answers (batch : List AppendRequest) (seq : UInt64) (finalErr : Option OxideMqError) :
    (appendAnswers (answers batch (assignSeqs seq batch) finalErr)).map
        (fun answer => answer.2.isOk) =
      List.replicate batch.length finalErr.isNone := by
  cases finalErr with
  | none =>
    rw [appendAnswers_answers]
    induction batch generalizing seq with
    | nil => rfl
    | cons req batch ih =>
      rw [assignSeqs, List.zipWith_cons_cons, List.map_cons, ih]
      rfl
  | some e =>
    induction batch with
    | nil => rfl
    | cons req batch ih =>
      rw [List.length_cons, List.replicate_succ, ← ih]
      rfl

def commitError (config : WalConfig) (write : WriteOutcome) (sync : Except OxideMqError Unit) :
    Option OxideMqError :=
  match write with
  | .torn _ error => some (.io error)
  | .complete => if config.syncToDisk then errorOf sync else none

theorem responses_commitBatch (cfg : WalConfig) (w : Worker) (batch : List AppendRequest)
    (write : WriteOutcome) (sync create : Except OxideMqError Unit) :
    (commitBatch cfg w batch write sync create).responses = w.responses ++
        answers batch (assignSeqs w.nextSeq batch) (commitError cfg write sync) := by
  cases write with
  | torn written error => rfl
  | complete =>
    rw [commitError]
    cases hsync : cfg.syncToDisk with
    | false => simp [commitBatch, append, errorOf, hsync]
    | true => simp [commitBatch, append, errorOf, hsync, Except.isOk, Except.toBool]

theorem Kept.commit {log : FlushLog} {done : List AppendFate} {n : ℕ} (h : Kept log done n)
    (hn : n ≠ 0) (cfg : WalConfig) (write : WriteOutcome)
    (sync create : Except OxideMqError Unit) :
    ∃ done', Kept (log.track cfg (.commit write sync create)) done' 0 ∧
      done'.map AppendFate.answeredOk = done.map AppendFate.answeredOk ++
          List.replicate n (commitError cfg write sync).isNone := by
  have hfailed : ∀ e : OxideMqError,
      (done ++ List.replicate n AppendFate.failed).map AppendFate.answeredOk =
        done.map AppendFate.answeredOk ++ List.replicate n (some e).isNone := by
    intro e
    rw [List.map_append, List.map_replicate]
    rfl
  have hwr : ∀ path,
      (done ++ List.replicate n (AppendFate.written path)).map AppendFate.answeredOk =
        done.map AppendFate.answeredOk ++ List.replicate n true := by
    intro path
    rw [List.map_append, List.map_replicate]
    rfl
  cases write with
  | torn written error => exact ⟨_, h.failBatch, hfailed _⟩
  | complete =>
    simp only [track, commitError]
    by_cases hdisk : cfg.syncToDisk
    · rw [if_pos hdisk, if_pos hdisk]
      cases sync with
      | ok _ =>
        refine ⟨_, (h.writeBatch hn).syncFile, ?_⟩
        show _ = done.map AppendFate.answeredOk ++ List.replicate n true
        rw [List.map_map, ← hwr log.worker.segment.path]
        exact List.map_congr_left fun fate _ => AppendFate.answeredOk_sync _ fate
      | error e => exact ⟨_, h.failBatch, hfailed e⟩
    · rw [if_neg hdisk, if_neg hdisk]
      exact ⟨_, h.writeBatch hn, hwr _⟩

structure Tracks (log : FlushLog) (done : List AppendFate) (n : ℕ) : Prop where
  kept : Kept log done n
  answered : done.map AppendFate.answeredOk =
    (appendAnswers log.worker.responses).map fun answer => answer.2.isOk
  waiting : log.worker.phase = .waiting → n = 0
  draining : ∀ batch, log.worker.phase = .draining batch → n = batch.length ∧ n ≠ 0

theorem tracks_opened (dir : Directory) : Tracks (opened dir) [] 0 := by
  have hp : (opened dir).worker.phase = .waiting := rfl
  refine ⟨⟨rfl, List.not_mem_nil, fun path => ?_⟩, rfl, fun _ => rfl, fun batch hbatch => ?_⟩
  · exact iff_of_false List.not_mem_nil List.not_mem_nil
  · rw [hp] at hbatch
    exact absurd hbatch (by simp)

section Step

variable {config : WalConfig} {log log' : FlushLog} {done : List AppendFate} {n : ℕ}
variable {create sync : Except OxideMqError Unit}

theorem exec_recv {msg : WalMessage} (h : exec config log (.recv msg sync) = some log') :
    ∃ batch, (log.worker.phase = .waiting ∧ batch = [] ∨ log.worker.phase = .draining batch) ∧
      log' = { log.track config (.recv msg sync) with
        worker := receive log.worker batch sync msg } := by
  obtain ⟨w, hstep, rfl⟩ := Option.map_eq_some_iff.mp h
  obtain ⟨batch, hp, rfl⟩ := step_recv hstep
  exact ⟨batch, hp, rfl⟩

theorem exec_commit {write : WriteOutcome}
    (h : exec config log (.commit write sync create) = some log') :
    ∃ batch, log.worker.phase = .draining batch ∧
      log' = { log.track config (.commit write sync create) with
        worker := commitBatch config log.worker batch write sync create } := by
  obtain ⟨w, hstep, rfl⟩ := Option.map_eq_some_iff.mp h
  obtain ⟨batch, hp, rfl⟩ := step_commit hstep
  exact ⟨batch, hp, rfl⟩

theorem Tracks.batch_length (h : Tracks log done n) {batch : List AppendRequest}
    (hp : log.worker.phase = .waiting ∧ batch = [] ∨ log.worker.phase = .draining batch) :
    n = batch.length := by
  rcases hp with ⟨hp, rfl⟩ | hp
  · exact h.waiting hp
  · exact (h.draining batch hp).1

theorem Tracks.recv (h : Tracks log done n) {msg : WalMessage}
    (hexec : exec config log (.recv msg sync) = some log') :
    ∃ done' n', Tracks log' done' n' := by
  obtain ⟨batch, hp, rfl⟩ := exec_recv hexec
  have hans := h.answered
  rw [← appendAnswers_receive log.worker batch sync msg] at hans
  cases msg with
  | append req =>
    have hlen : n + 1 = (batch ++ [req]).length := by
      rw [h.batch_length hp, List.length_append]
      rfl
    refine ⟨done, n + 1, ⟨h.kept.collect.fates, h.kept.concluded, h.kept.unsynced⟩, hans,
      fun hwait => ?_, fun batch' hbatch' => ?_⟩
    · exact absurd hwait (by simp [receive])
    · rw [← Phase.draining.inj hbatch']
      exact ⟨hlen, Nat.succ_ne_zero n⟩
  | flush =>
    cases sync with
    | ok _ =>
      have hkept := h.kept.syncFile
      refine ⟨_, n, ⟨hkept.fates, hkept.concluded, hkept.unsynced⟩, ?_, h.waiting, h.draining⟩
      rw [← hans, List.map_map]
      exact List.map_congr_left fun fate _ => AppendFate.answeredOk_sync _ fate
    | error e =>
      exact ⟨done, n, ⟨h.kept.fates, h.kept.concluded, h.kept.unsynced⟩, hans, h.waiting,
        h.draining⟩
  | trim =>
    exact ⟨done, n, ⟨h.kept.fates, h.kept.concluded, h.kept.unsynced⟩, hans, h.waiting, h.draining⟩
  | shutdown =>
    refine ⟨done, n, ⟨h.kept.fates, h.kept.concluded, h.kept.unsynced⟩, hans,
      fun hwait => ?_, fun batch' hbatch' => ?_⟩
    · exact absurd hwait (by simp [receive])
    · exact absurd hbatch' (by simp [receive])

theorem Tracks.commit (h : Tracks log done n) {write : WriteOutcome}
    (hexec : exec config log (.commit write sync create) = some log') :
    ∃ done' n', Tracks log' done' n' := by
  obtain ⟨batch, hp, rfl⟩ := exec_commit hexec
  obtain ⟨hlen, hn⟩ := h.draining batch hp
  obtain ⟨done', hkept, hdone'⟩ := h.kept.commit hn config write sync create
  refine ⟨done', 0, ⟨hkept.fates, hkept.concluded, hkept.unsynced⟩, ?_, fun _ => rfl,
    fun batch' hb' => ?_⟩
  · rw [hdone', responses_commitBatch, appendAnswers_append, List.map_append, isOk_answers,
      h.answered, hlen]
  · have hwait : (commitBatch config log.worker batch write sync create).phase = .waiting := rfl
    exact absurd (hwait.symm.trans hb') (by simp)

theorem tracks_run {dir : Directory} {events : List WorkerEvent}
    (hrun : run (exec config) (opened dir) events = some log) :
    ∃ done n, Tracks log done n := by
  have hstep : ∀ log event log', (∃ done n, Tracks log done n) → True →
      exec config log event = some log' → ∃ done n, Tracks log' done n := by
    rintro log event log' ⟨done, n, h⟩ - hexec
    cases event with
    | recv msg sync => exact h.recv hexec
    | commit write sync create => exact h.commit hexec
  exact run_invariant hstep ⟨_, _, tracks_opened dir⟩ (along_of_forall fun _ _ => trivial) hrun

end Step

theorem flush_settles_iff {config : WalConfig} {dir : Directory} {events : List WorkerEvent}
    {log log' : FlushLog} (hrun : run (exec config) (opened dir) events = some log)
    (hflush : exec config log (.recv .flush (.ok ())) = some log') :
    (∀ fate ∈ log'.fates, fate.Settled) ↔
      log.worker.phase = .waiting ∧ ∀ path ∈ log.unsynced, path = log.worker.segment.path := by
  obtain ⟨done, n, h⟩ := tracks_run hrun
  obtain ⟨batch, hp, rfl⟩ := exec_recv hflush
  have hsettled : (∀ fate ∈ log.syncFile.fates, fate.Settled) ↔
      ∀ fate ∈ log.fates, fate ≠ .collected ∧
        ∀ path, fate = .written path → path = log.worker.segment.path := by
    simp only [syncFile, List.forall_mem_map, AppendFate.settled_sync_iff]
  refine hsettled.trans ⟨fun hall => ⟨?_, fun path hpath => ?_⟩, ?_⟩
  · rcases hp with ⟨hwait, -⟩ | hdraining
    · exact hwait
    · have hopen : .collected ∈ log.fates :=
        h.kept.mem_fates.mpr (Or.inr ⟨(h.draining batch hdraining).2, rfl⟩)
      exact absurd rfl (hall _ hopen).1
  · have hwr : .written path ∈ log.fates :=
      h.kept.mem_fates.mpr (Or.inl ((h.kept.unsynced path).mpr hpath))
    exact (hall _ hwr).2 path rfl
  · rintro ⟨hwait, hactive⟩ fate hfate
    rcases h.kept.mem_fates.mp hfate with hdone | ⟨hn, -⟩
    · refine ⟨?_, ?_⟩
      · rintro rfl
        exact h.kept.concluded hdone
      · rintro path rfl
        exact hactive path ((h.kept.unsynced path).mp hdone)
    · exact absurd (h.waiting hwait) hn

def received : WorkerEvent := .recv (.append ⟨10, 0, [7]⟩) (.ok ())

def committed : WorkerEvent := .commit .complete (.ok ()) (.ok ())

def flushed : WorkerEvent := .recv .flush (.ok ())

def flushAfter (config : WalConfig) (events : List WorkerEvent) :
    Option (Phase × List String × String × List AppendFate) :=
  (run (exec config) (opened ∅) events).bind fun log => (exec config log flushed).map fun log' =>
    (log.worker.phase, log.unsynced, log.worker.segment.path, log'.fates)

theorem flushAfter_eq_some {cfg : WalConfig} {events : List WorkerEvent} {phase : Phase}
    {unsynced : List String} {path : String} {fates : List AppendFate}
    (h : flushAfter cfg events = some (phase, unsynced, path, fates)) :
    ∃ log log', run (exec cfg) (opened ∅) events = some log ∧
      exec cfg log flushed = some log' ∧ log.worker.phase = phase ∧ log.unsynced = unsynced ∧
      log.worker.segment.path = path ∧ log'.fates = fates := by
  obtain ⟨log, hlog, h⟩ := Option.bind_eq_some_iff.mp h
  obtain ⟨log', hlog', h⟩ := Option.map_eq_some_iff.mp h
  simp only [Prod.mk.injEq] at h
  exact ⟨log, log', hlog, hlog', h.1, h.2.1, h.2.2.1, h.2.2.2⟩

theorem flush_settles_append :
    ∃ log log', run (exec ⟨1000, 10, false⟩) (opened ∅) [received, committed] = some log ∧
      exec ⟨1000, 10, false⟩ log flushed = some log' ∧ log'.fates = [.synced] ∧
      ∀ fate ∈ log'.fates, fate.Settled := by
  have hafter : flushAfter ⟨1000, 10, false⟩ [received, committed] =
      some (.waiting, [filename 1], filename 1, [.synced]) := by
    decide +kernel
  obtain ⟨log, log', hlog, hlog', hp, hunsynced, hpath, hfates⟩ := flushAfter_eq_some hafter
  refine ⟨log, log', hlog, hlog', hfates, (flush_settles_iff hlog hlog').mpr ⟨hp, ?_⟩⟩
  rw [hunsynced, hpath]
  exact fun path => List.mem_singleton.mp

theorem flush_misses_appends :
    (∃ log log', run (exec ⟨1000, 10, true⟩) (opened ∅) [received] = some log ∧
      exec ⟨1000, 10, true⟩ log (.recv .flush (.ok ())) = some log' ∧
      log'.fates = [.collected]) ∧
    (∃ log log', run (exec ⟨0, 10, false⟩) (opened ∅) [received, committed] = some log ∧
      exec ⟨0, 10, false⟩ log (.recv .flush (.ok ())) = some log' ∧
      log'.fates = [.written (WalSegment.filename 1)]) := by
  have hdrain : flushAfter ⟨1000, 10, true⟩ [received] =
      some (.draining [⟨10, 0, [7]⟩], [], filename 1, [.collected]) := by
    decide +kernel
  have hroll : flushAfter ⟨0, 10, false⟩ [received, committed] =
      some (.waiting, [filename 1], filename 2, [.written (filename 1)]) := by
    decide +kernel
  constructor
  · obtain ⟨log, log', hlog, hlog', -, -, -, hfates⟩ := flushAfter_eq_some hdrain
    exact ⟨log, log', hlog, hlog', hfates⟩
  · obtain ⟨log, log', hlog, hlog', -, -, -, hfates⟩ := flushAfter_eq_some hroll
    exact ⟨log, log', hlog, hlog', hfates⟩

end FlushLog

end OxideMq.Wal
