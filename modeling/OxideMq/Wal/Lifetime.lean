import OxideMq.Wal.CommitOrder

/-! A log directory over its whole lifetime: it is opened, written, rolled, purged and closed, any
number of times. -/

namespace OxideMq.Wal

open Lib OxideMq.Core WalSegment List Option UInt64 AList

namespace FileWal

def purgeSegmentsBefore (dir : Directory) (minSeq : UInt64) : Directory × ℕ :=
  let old (name : String) : Bool :=
    (WalSegment.parseBaseSeqFromFilename name).any fun baseSeq => baseSeq < minSeq
  (dir.retainKeys fun name => !old name, (dir.keys.filter old).length)

end FileWal

inductive LifetimeAction where
  | reopen (config : WalConfig)
  | recv (message : WalMessage) (sync : Except OxideMqError Unit)
  | commit
  | purge (minSeq : UInt64)
  | close

/-- A directory, the worker that runs on it if it is open, the appends acknowledged before the last
opening, and the acknowledged records that lay in a file when `WalSegment::create` was called for
it. -/
structure Lifetime where
  closedDir : Directory
  running : Option (WalConfig × Worker)
  past : List WalRecord
  destroyed : List WalRecord

namespace Lifetime

open FileWal WalRecovery CommitLog

def fresh : Lifetime := ⟨∅, none, [], []⟩

def dir (life : Lifetime) : Directory :=
  match life.running with
  | some (_, worker) => worker.dir
  | none => life.closedDir

def acknowledged (responses : List WalResponse) : List WalRecord :=
  responses.filterMap fun
    | .append request (.ok seq) => some (request.record seq)
    | _ => none

def acked (life : Lifetime) : List WalRecord :=
  match life.running with
  | some (_, worker) => life.past ++ acknowledged worker.responses
  | none => life.past

def lostAt (acked : List WalRecord) (dir : Directory) (baseSeq : UInt64) : List WalRecord :=
  (segmentRecords (fileOf dir (WalSegment.filename baseSeq))).filter (· ∈ acked)

def openCreates (dir : Directory) : List UInt64 :=
  match highestSegment (recover dir).2.keys none with
  | some _ => []
  | none => [(recover dir).1.highestSeq + 1]

def shutDown (config : WalConfig) (worker : Worker) : Option Worker :=
  match worker.phase with
  | .stopped => some worker
  | _ => step config worker (.recv .shutdown (.ok ()))

def completeCommit : WorkerEvent := .commit .complete (.ok ()) (.ok ())

def exec (life : Lifetime) : LifetimeAction → Option Lifetime
  | .reopen config =>
      match life.running with
      | none => some ⟨life.closedDir, some (config, openWal life.closedDir), life.past,
          life.destroyed ++ (openCreates life.closedDir).flatMap
            (lostAt life.past (recover life.closedDir).2)⟩
      | some _ => none
  | .recv message sync => do
      let (config, worker) ← life.running
      let worker' ← step config worker (.recv message sync)
      some { life with running := some (config, worker') }
  | .commit => do
      let (config, worker) ← life.running
      let .draining batch := worker.phase | none
      let worker' ← step config worker completeCommit
      -- a roll comes behind the write and the answers of the batch
      let dir := (written worker batch).dir
      let acked := life.past ++ acknowledged worker'.responses
      some ⟨life.closedDir, some (config, worker'), life.past,
        life.destroyed ++ (rollOf config worker completeCommit).flatMap (lostAt acked dir)⟩
  | .purge minSeq => do
      let (config, worker) ← life.running
      let (dir', _) := purgeSegmentsBefore worker.dir minSeq
      some { life with running := some (config, { worker with dir := dir' }) }
  | .close => do
      let (config, worker) ← life.running
      let stopped ← shutDown config worker
      some ⟨stopped.dir, none, life.past ++ acknowledged stopped.responses, life.destroyed⟩

structure Intact (life : Lifetime) : Prop where
  increasing : (life.acked.map WalRecord.seq).Pairwise (· < ·)
  kept : life.destroyed = []

def Safe (life : Lifetime) : LifetimeAction → Prop
  | .reopen _ =>
      (∀ a ∈ life.acked, ∃ r ∈ recoveredRecords life.dir, a.seq ≤ r.seq) ∧
        ∀ r ∈ recoveredRecords life.dir, r.seq.toNat + 1 < 2 ^ 64
  | .commit =>
      match life.running with
      | some (_, ⟨_, _, nextSeq, .draining batch, _⟩) => nextSeq.toNat + batch.length < 2 ^ 64
      | _ => True
  | _ => True

instance (life : Lifetime) (action : LifetimeAction) : Decidable (Safe life action) :=
  match action with
  | .reopen _ => inferInstanceAs (Decidable (_ ∧ _))
  | .commit =>
      match h : life.running with
      | some (_, ⟨_, _, nextSeq, .draining batch, _⟩) =>
          decidable_of_iff (nextSeq.toNat + batch.length < 2 ^ 64) (by simp only [Safe, h])
      | some (_, ⟨_, _, _, .waiting, _⟩) => isTrue (by simp only [Safe, h])
      | some (_, ⟨_, _, _, .stopped, _⟩) => isTrue (by simp only [Safe, h])
      | none => isTrue (by simp only [Safe, h])
  | .recv _ _ => isTrue trivial
  | .purge _ => isTrue trivial
  | .close => isTrue trivial

theorem room_of_safe {life : Lifetime} {cfg : WalConfig} {w : Worker}
    {batch : List AppendRequest} (h : Safe life .commit)
    (hrun : life.running = some (cfg, w)) (hp : w.phase = .draining batch) :
    w.nextSeq.toNat + batch.length < 2 ^ 64 := by
  cases w
  subst hp
  simpa only [Safe, hrun] using h

section Cases

variable {life life' : Lifetime}

theorem exec_reopen {cfg : WalConfig} (h : exec life (.reopen cfg) = some life') :
    life.running = none ∧ life' = ⟨life.closedDir, some (cfg, openWal life.closedDir), life.past,
        life.destroyed ++ (openCreates life.closedDir).flatMap
          (lostAt life.past (recover life.closedDir).2)⟩ := by
  rw [exec] at h
  split at h
  · rename_i hrun
    exact ⟨hrun, (some.inj h).symm⟩
  · simp at h

theorem exec_recv {msg : WalMessage} {sync : Except OxideMqError Unit}
    (h : exec life (.recv msg sync) = some life') :
    ∃ cfg w batch, life.running = some (cfg, w) ∧
      life' = { life with running := some (cfg, receive w batch sync msg) } := by
  simp only [exec, bind_eq_bind, bind_eq_some_iff] at h
  obtain ⟨⟨cfg, w⟩, hrun, w', hstep, hlife⟩ := h
  obtain ⟨batch, -, rfl⟩ := step_recv hstep
  exact ⟨cfg, w, batch, hrun, (some.inj hlife).symm⟩

theorem exec_commit (h : exec life .commit = some life') :
    ∃ cfg w batch, life.running = some (cfg, w) ∧ w.phase = .draining batch ∧
      life' = ⟨life.closedDir,
        some (cfg, commitBatch cfg w batch .complete (.ok ()) (.ok ())), life.past,
        life.destroyed ++ (rollOf cfg w completeCommit).flatMap (lostAt (life.past ++ acknowledged
            (commitBatch cfg w batch .complete (.ok ()) (.ok ())).responses)
          (written w batch).dir)⟩ := by
  simp only [exec, bind_eq_bind, bind_eq_some_iff] at h
  obtain ⟨⟨cfg, w⟩, hrun, h⟩ := h
  dsimp only at h
  split at h
  · rename_i batch hp
    simp only [bind_eq_some_iff, completeCommit, step, hp, some.injEq] at h
    obtain ⟨w', rfl, hlife⟩ := h
    exact ⟨cfg, w, batch, hrun, hp, hlife.symm⟩
  · simp at h

theorem exec_purge {minSeq : UInt64} (h : exec life (.purge minSeq) = some life') :
    ∃ cfg w, life.running = some (cfg, w) ∧ life' = { life with running := some (cfg,
        { w with dir := (purgeSegmentsBefore w.dir minSeq).1 }) } := by
  simp only [exec, bind_eq_bind, bind_eq_some_iff] at h
  obtain ⟨⟨cfg, w⟩, hrun, hlife⟩ := h
  exact ⟨cfg, w, hrun, (some.inj hlife).symm⟩

theorem shutDown_same {cfg : WalConfig} {w stopped : Worker} (h : shutDown cfg w = some stopped) :
    stopped.dir = w.dir ∧ stopped.responses = w.responses := by
  rw [shutDown] at h
  split at h
  · rw [some.inj h]
    exact ⟨rfl, rfl⟩
  · obtain ⟨batch, -, rfl⟩ := step_recv h
    exact ⟨rfl, rfl⟩

theorem exec_close (h : exec life .close = some life') : ∃ cfg w, life.running = some (cfg, w) ∧
      life' = ⟨w.dir, none, life.past ++ acknowledged w.responses, life.destroyed⟩ := by
  simp only [exec, bind_eq_bind, bind_eq_some_iff] at h
  obtain ⟨⟨cfg, w⟩, hrun, stopped, hstop, hlife⟩ := h
  obtain ⟨hdir, hresponses⟩ := shutDown_same hstop
  refine ⟨cfg, w, hrun, ?_⟩
  rw [← some.inj hlife, hdir, hresponses]

end Cases

theorem acknowledged_append (responses more : List WalResponse) :
    acknowledged (responses ++ more) = acknowledged responses ++ acknowledged more :=
  filterMap_append

theorem acknowledged_answers (seq : UInt64) (batch : List AppendRequest) :
    acknowledged (answers batch (assignSeqs seq batch) none) = assignSeqs seq batch := by
  rw [answers]
  induction batch generalizing seq with
  | nil => rfl
  | cons req batch ih =>
    rw [assignSeqs, zipWith_cons_cons]
    exact congrArg (req.record seq :: ·) (ih (seq + 1))

theorem acknowledged_receive (w : Worker) (batch : List AppendRequest)
    (sync : Except OxideMqError Unit) (msg : WalMessage) :
    acknowledged (receive w batch sync msg).responses = acknowledged w.responses := by
  cases msg with
  | append | shutdown => rfl
  | flush | trim => simp [receive, acknowledged]

theorem acknowledged_commit (cfg : WalConfig) (w : Worker) (batch : List AppendRequest) :
    acknowledged (commitBatch cfg w batch .complete (.ok ()) (.ok ())).responses =
      acknowledged w.responses ++ assignSeqs w.nextSeq batch := by
  rw [commitBatch_responses, acknowledged_append, acknowledged_answers]

theorem seqs_increasing {seq : UInt64} {batch : List AppendRequest}
    (hroom : seq.toNat + batch.length < 2 ^ 64) :
    ((assignSeqs seq batch).map WalRecord.seq).Pairwise (· < ·) ∧
      ∀ r ∈ assignSeqs seq batch, seq.toNat ≤ r.seq.toNat ∧
        r.seq.toNat < seq.toNat + batch.length := by
  have hseqs := seqs_assignSeqs (Nat.le_of_lt hroom)
  constructor
  · have hsort : ((assignSeqs seq batch).map fun r => r.seq.toNat).Pairwise (· < ·) := by
      rw [hseqs]
      exact pairwise_lt_range' 1
    rw [pairwise_map] at hsort ⊢
    exact hsort.imp lt_iff_toNat_lt.mpr
  · intro r hr
    have hmem : r.seq.toNat ∈ range' seq.toNat batch.length := by
      rw [← hseqs]
      exact mem_map.mpr ⟨r, hr, rfl⟩
    exact mem_range'_1.mp hmem

theorem exists_last_seq {seq : UInt64} {batch : List AppendRequest}
    (hroom : seq.toNat + batch.length < 2 ^ 64) (hlen : 0 < batch.length) :
    ∃ r ∈ assignSeqs seq batch, r.seq.toNat + 1 = seq.toNat + batch.length := by
  have hlast : seq.toNat + batch.length - 1 ∈ (assignSeqs seq batch).map fun r => r.seq.toNat := by
    rw [seqs_assignSeqs (Nat.le_of_lt hroom), mem_range'_1]
    omega
  obtain ⟨r, hr, hseq⟩ := mem_map.mp hlast
  exact ⟨r, hr, by omega⟩

def Reached (acked : List WalRecord) (baseSeq : UInt64) : Prop :=
  baseSeq.toNat ≤ 1 ∨ ∃ a ∈ acked, baseSeq.toNat ≤ a.seq.toNat + 1

def Named (acked : List WalRecord) (dir : Directory) : Prop :=
  ∀ name ∈ dir.keys, ∃ baseSeq, name = WalSegment.filename baseSeq ∧ Reached acked baseSeq

theorem Reached.mono {acked acked' : List WalRecord} {baseSeq : UInt64} (h : Reached acked baseSeq)
    (hsub : acked ⊆ acked') : Reached acked' baseSeq :=
  h.imp_right fun ⟨a, ha, hle⟩ => ⟨a, hsub ha, hle⟩

theorem Reached.le {acked : List WalRecord} {seq next : UInt64} (h : Reached acked seq)
    (hone : 1 ≤ next.toNat) (hahead : ∀ a ∈ acked, a.seq < next) :
    seq.toNat ≤ next.toNat := by
  rcases h with h | ⟨a, ha, hle⟩
  · omega
  · have hlt := lt_iff_toNat_lt.mp (hahead a ha)
    omega

theorem Named.mono {acked acked' : List WalRecord} {dir dir' : Directory} (h : Named acked dir)
    (hsub : acked ⊆ acked') (hkeys : ∀ name ∈ dir'.keys, name ∈ dir.keys) : Named acked' dir' := by
  intro name hname
  obtain ⟨baseSeq, hfile, hreach⟩ := h name (hkeys name hname)
  exact ⟨baseSeq, hfile, hreach.mono hsub⟩

theorem Named.create {acked : List WalRecord} {dir : Directory} {seq : UInt64}
    (h : Named acked dir) (hreach : Reached acked seq) :
    Named acked (create dir seq).1 := by
  intro name hname
  rcases (mem_insert _).mp (mem_keys.mpr hname) with rfl | hname
  · exact ⟨seq, rfl, hreach⟩
  · exact h name (mem_keys.mp hname)

theorem lostAt_of_absent {acked : List WalRecord} {dir : Directory} {seq : UInt64}
    (h : filename seq ∉ dir.keys) : lostAt acked dir seq = [] := by
  have hnone : dir.lookup (filename seq) = none :=
    lookup_eq_none.mpr fun hmem => h (mem_keys.mp hmem)
  rw [lostAt, fileOf, hnone]
  rfl

theorem keys_purgeSegmentsBefore {dir : Directory} {minSeq : UInt64} {name : String}
    (h : name ∈ (purgeSegmentsBefore dir minSeq).1.keys) : name ∈ dir.keys := by
  obtain ⟨raw, hraw⟩ := HashMap.mem_iff.mp (mem_keys.mpr h)
  rw [purgeSegmentsBefore, HashMap.lookup_retainKeys, ite_none_right_eq_some] at hraw
  exact mem_keys.mp (HashMap.mem_iff.mpr ⟨raw, hraw.2⟩)

theorem openWal_nextSeq {dir : Directory}
    (hroom : ∀ r ∈ recoveredRecords dir, r.seq.toNat + 1 < 2 ^ 64) :
    1 ≤ (openWal dir).nextSeq.toNat ∧
      ∀ r ∈ recoveredRecords dir, r.seq < (openWal dir).nextSeq := by
  have hhi : (recover dir).1.highestSeq.toNat =
      ((recoveredRecords dir).map fun r => r.seq.toNat).foldr max 0 := by
    rw [recover_report]
    exact (RecoveryReport.foldl_observe_highestSeq _ _).trans (Nat.zero_max _)
  have hbd : (recover dir).1.highestSeq.toNat ≤ 2 ^ 64 - 2 := by
    rw [hhi]
    apply max_le_of_forall_le
    intro n hn
    obtain ⟨r, hr, rfl⟩ := mem_map.mp hn
    have := hroom r hr
    omega
  have hnext : (openWal dir).nextSeq.toNat = (recover dir).1.highestSeq.toNat + 1 :=
    @toNat_add_ofNat (recover dir).1.highestSeq 1 (by omega)
  refine ⟨by omega, fun r hr => ?_⟩
  have hle : r.seq.toNat ≤ (recover dir).1.highestSeq.toNat := by
    rw [hhi]
    exact le_max_of_le (mem_map.mpr ⟨r, hr, rfl⟩) le_rfl
  rw [lt_iff_toNat_lt, hnext]
  omega

structure Ahead (acked : List WalRecord) (worker : Worker) : Prop where
  one_le : 1 ≤ worker.nextSeq.toNat
  above : ∀ a ∈ acked, a.seq < worker.nextSeq
  nonempty : worker.phase ≠ .draining []

theorem Ahead.length_pos {acked : List WalRecord} {w : Worker} {batch : List AppendRequest}
    (h : Ahead acked w) (hp : w.phase = .draining batch) : 0 < batch.length := by
  apply length_pos_iff.mpr
  rintro rfl
  exact h.nonempty hp

structure Sound (life : Lifetime) : Prop where
  intact : Intact life
  named : Named life.acked life.dir
  ahead : ∀ config worker, life.running = some (config, worker) → Ahead life.acked worker

theorem sound_fresh : Sound fresh :=
  ⟨⟨List.Pairwise.nil, rfl⟩, forall_mem_nil _, fun _ _ h => by simp [fresh] at h⟩

theorem dir_of_running {life : Lifetime} {cfg : WalConfig} {w : Worker}
    (h : life.running = some (cfg, w)) : life.dir = w.dir := by
  rw [dir, h]

theorem acked_of_running {life : Lifetime} {cfg : WalConfig} {w : Worker}
    (h : life.running = some (cfg, w)) :
    life.acked = life.past ++ acknowledged w.responses := by
  rw [acked, h]

theorem initActiveSegment_named {acked : List WalRecord} {dir : Directory} (h : Named acked dir) :
    Named acked (openWal dir).dir ∧
      (openCreates dir).flatMap (lostAt acked (recover dir).2) = [] := by
  have hrecover : Named acked (recover dir).2 :=
    h.mono (List.Subset.refl _) fun name hname => by rwa [keys_recover] at hname
  have hopen : (openWal dir).dir =
      (initActiveSegment (recover dir).2 ((recover dir).1.highestSeq + 1)).1 := rfl
  rw [hopen, initActiveSegment, openCreates]
  cases hhi : highestSegment (recover dir).2.keys none with
  | some highest => exact ⟨hrecover, rfl⟩
  | none =>
    have habsent : ∀ seq, filename seq ∉ (recover dir).2.keys := by
      intro seq hmem
      have hparse := parseBaseSeqFromFilename_filename seq
      obtain ⟨q, hq, -⟩ := (highestSegment_spec _).2 _ hmem _ hparse
      cases hhi.symm.trans hq
    -- no file, hence no record, and the numbers start at one
    have hnone : recoveredRecords dir = [] := by
      refine eq_nil_iff_forall_not_mem.mpr fun r hr => ?_
      obtain ⟨p, hp, -⟩ := mem_recoveredRecords.mp hr
      obtain ⟨seq, hname, -⟩ := h p.2 (mem_segmentPaths.mp hp).1
      apply habsent seq
      rw [keys_recover, ← hname]
      exact (mem_segmentPaths.mp hp).1
    have hzero : (recover dir).1.highestSeq = 0 := by
      rw [recover_report, hnone]
      rfl
    refine ⟨hrecover.create (Or.inl ?_), ?_⟩
    · rw [hzero]
      decide
    · rw [flatMap_singleton, lostAt_of_absent (habsent _)]

theorem sound_reopen {life life' : Lifetime} {cfg : WalConfig} (h : Sound life)
    (hsafe : Safe life (.reopen cfg)) (hexec : exec life (.reopen cfg) = some life') :
    Sound life' := by
  obtain ⟨hrun, rfl⟩ := exec_reopen hexec
  have hdir : life.dir = life.closedDir := by rw [dir, hrun]
  have hacked : life.acked = life.past := by rw [acked, hrun]
  obtain ⟨hfound, hroom⟩ := hsafe
  rw [hdir] at hfound hroom
  have hnamed := h.named
  rw [hdir, hacked] at hnamed
  obtain ⟨hopen, hlost⟩ := initActiveSegment_named hnamed
  obtain ⟨hone, habove⟩ := openWal_nextSeq hroom
  have hacked' : acked ⟨life.closedDir, some (cfg, openWal life.closedDir), life.past,
      life.destroyed ++ (openCreates life.closedDir).flatMap
        (lostAt life.past (recover life.closedDir).2)⟩ = life.past :=
    append_nil _
  refine ⟨⟨?_, ?_⟩, ?_, ?_⟩
  · rw [hacked', ← hacked]
    exact h.intact.increasing
  · show life.destroyed ++ _ = []
    rw [hlost, h.intact.kept, append_nil]
  · rw [hacked']
    exact hopen
  · intro cfg' w' hrun'
    cases hrun'
    rw [hacked']
    refine ⟨hone, fun a ha => ?_, by simp [openWal]⟩
    rw [hacked] at hfound
    obtain ⟨r, hr, hle⟩ := hfound a ha
    exact UInt64.lt_of_le_of_lt hle (habove r hr)

theorem Sound.of_running {life : Lifetime} {cfg : WalConfig} {w w' : Worker}
    (h : Sound life) (hrun : life.running = some (cfg, w))
    (hkeys : ∀ name ∈ w'.dir.keys, name ∈ w.dir.keys)
    (hacknowledged : acknowledged w'.responses = acknowledged w.responses)
    (hnext : w'.nextSeq = w.nextSeq)
    (hp : w.phase ≠ .draining [] → w'.phase ≠ .draining []) :
    Sound { life with running := some (cfg, w') } := by
  have hacked : acked { life with running := some (cfg, w') } = life.acked := by
    rw [acked_of_running hrun, acked_of_running rfl, hacknowledged]
  have hahead := h.ahead cfg w hrun
  refine ⟨⟨?_, h.intact.kept⟩, ?_, ?_⟩
  · rw [hacked]
    exact h.intact.increasing
  · have hnamed := h.named
    rw [dir_of_running hrun] at hnamed
    rw [hacked]
    exact hnamed.mono (List.Subset.refl _) hkeys
  · intro cfg'' w'' hrun''
    cases hrun''
    rw [hacked]
    refine ⟨?_, ?_, hp hahead.nonempty⟩
    · rw [hnext]
      exact hahead.one_le
    · rw [hnext]
      exact hahead.above

theorem sound_recv {life life' : Lifetime} {msg : WalMessage}
    {sync : Except OxideMqError Unit} (h : Sound life)
    (hexec : exec life (.recv msg sync) = some life') : Sound life' := by
  obtain ⟨cfg, w, batch, hrun, rfl⟩ := exec_recv hexec
  obtain ⟨hdir, -, hnext⟩ := receive_frame w batch sync msg
  refine h.of_running hrun (fun _ hname => ?_) (acknowledged_receive _ _ _ _) hnext fun hne => ?_
  · rwa [hdir] at hname
  · cases msg with
    | append | shutdown => simp [receive]
    | flush | trim => exact hne

theorem sound_purge {life life' : Lifetime} {minSeq : UInt64} (h : Sound life)
    (hexec : exec life (.purge minSeq) = some life') : Sound life' := by
  obtain ⟨cfg, w, hrun, rfl⟩ := exec_purge hexec
  exact h.of_running hrun (fun _ => keys_purgeSegmentsBefore) rfl rfl id

theorem sound_close {life life' : Lifetime} (h : Sound life)
    (hexec : exec life .close = some life') : Sound life' := by
  obtain ⟨cfg, w, hrun, rfl⟩ := exec_close hexec
  have hintact := h.intact
  have hnamed := h.named
  rw [dir_of_running hrun, acked_of_running hrun] at hnamed
  refine ⟨⟨?_, hintact.kept⟩, hnamed, fun _ _ hcl => by simp at hcl⟩
  have hinc := hintact.increasing
  rw [acked_of_running hrun] at hinc
  exact hinc

theorem increasing_append {acked : List WalRecord} {w : Worker} {batch : List AppendRequest}
    (h : (acked.map WalRecord.seq).Pairwise (· < ·)) (hahead : Ahead acked w)
    (hroom : w.nextSeq.toNat + batch.length < 2 ^ 64) :
    ((acked ++ assignSeqs w.nextSeq batch).map WalRecord.seq).Pairwise (· < ·) := by
  obtain ⟨hb, hrange⟩ := seqs_increasing hroom
  rw [map_append, pairwise_append]
  refine ⟨h, hb, ?_⟩
  intro seq hseq seq' hseq'
  obtain ⟨a, ha, rfl⟩ := mem_map.mp hseq
  obtain ⟨r, hr, rfl⟩ := mem_map.mp hseq'
  have hlt := lt_iff_toNat_lt.mp (hahead.above a ha)
  have habove := (hrange r hr).1
  rw [lt_iff_toNat_lt]
  omega

theorem ahead_commit {acked : List WalRecord} {w : Worker} {batch : List AppendRequest}
    (cfg : WalConfig) (hahead : Ahead acked w)
    (hroom : w.nextSeq.toNat + batch.length < 2 ^ 64) :
    Ahead (acked ++ assignSeqs w.nextSeq batch)
      (commitBatch cfg w batch .complete (.ok ()) (.ok ())) := by
  have hnext : (commitBatch cfg w batch .complete (.ok ()) (.ok ())).nextSeq.toNat =
      w.nextSeq.toNat + batch.length := toNat_add_ofNat hroom
  have hp : (commitBatch cfg w batch .complete (.ok ()) (.ok ())).phase = .waiting := rfl
  have hone := hahead.one_le
  refine ⟨by omega, fun a ha => ?_, by simp [hp]⟩
  rw [lt_iff_toNat_lt, hnext]
  rcases mem_append.mp ha with ha | ha
  · have hlt := lt_iff_toNat_lt.mp (hahead.above a ha)
    omega
  · exact ((seqs_increasing hroom).2 a ha).2

theorem named_commit {acked : List WalRecord} {w : Worker} {batch : List AppendRequest}
    (cfg : WalConfig) (h : Named acked w.dir) (hahead : Ahead acked w)
    (hp : w.phase = .draining batch)
    (hroom : w.nextSeq.toNat + batch.length < 2 ^ 64) :
    Named (acked ++ assignSeqs w.nextSeq batch)
        (commitBatch cfg w batch .complete (.ok ()) (.ok ())).dir ∧
      (rollOf cfg w completeCommit).flatMap
        (lostAt (acked ++ assignSeqs w.nextSeq batch) (written w batch).dir) = [] := by
  have hkeys : (written w batch).dir.keys = w.dir.keys := keys_append _ _ _ _
  have hwr : Named (acked ++ assignSeqs w.nextSeq batch) (written w batch).dir :=
    h.mono (subset_append_left _ _) fun name hname => by rwa [hkeys] at hname
  have hnext := toNat_add_ofNat hroom
  rw [commitBatch_complete, completeCommit, rollOf]
  simp only [hp]
  by_cases hfull : cfg.maxSegmentSizeBytes ≤ sizeAfter w batch .complete
  · rw [if_pos hfull, if_pos ⟨hfull, rfl⟩]
    constructor
    · refine hwr.create (Or.inr ?_)
      obtain ⟨r, hr, hseq⟩ := exists_last_seq hroom (hahead.length_pos hp)
      refine ⟨r, mem_append_right _ hr, ?_⟩
      rw [hnext, hseq]
    · rw [flatMap_singleton]
      refine lostAt_of_absent fun hmem => ?_
      rw [hkeys] at hmem
      obtain ⟨seq, hname, hreach⟩ := h _ hmem
      have hle := hreach.le hahead.one_le hahead.above
      have hlen := hahead.length_pos hp
      rw [← filename_injective hname, hnext] at hle
      omega
  · rw [if_neg hfull, if_neg fun hboth => hfull hboth.1]
    exact ⟨hwr, rfl⟩

theorem sound_commit {life life' : Lifetime} (h : Sound life) (hsafe : Safe life .commit)
    (hexec : exec life .commit = some life') : Sound life' := by
  obtain ⟨cfg, w, batch, hrun, hp, rfl⟩ := exec_commit hexec
  have hroom := room_of_safe hsafe hrun hp
  have hahead := h.ahead cfg w hrun
  have hnamed := h.named
  rw [dir_of_running hrun] at hnamed
  have hacked : life.past ++ acknowledged
      (commitBatch cfg w batch .complete (.ok ()) (.ok ())).responses =
        life.acked ++ assignSeqs w.nextSeq batch := by
    rw [acknowledged_commit, acked_of_running hrun, append_assoc]
  obtain ⟨hnamed', hlost⟩ := named_commit cfg hnamed hahead hp hroom
  rw [hacked, hlost, append_nil]
  refine ⟨⟨?_, h.intact.kept⟩, ?_, ?_⟩
  · rw [acked_of_running rfl, hacked]
    exact increasing_append h.intact.increasing hahead hroom
  · rw [acked_of_running rfl, hacked]
    exact hnamed'
  · intro cfg' w' hrun'
    cases hrun'
    rw [acked_of_running rfl, hacked]
    exact ahead_commit _ hahead hroom

theorem sound_exec (life : Lifetime) (act : LifetimeAction) (life' : Lifetime)
    (h : Sound life) (hsafe : Safe life act) (hexec : exec life act = some life') :
    Sound life' := by
  cases act with
  | reopen cfg => exact sound_reopen h hsafe hexec
  | recv msg sync => exact sound_recv h hexec
  | commit => exact sound_commit h hsafe hexec
  | purge minSeq => exact sound_purge h hexec
  | close => exact sound_close h hexec

theorem intact_of_safe {actions : List LifetimeAction} {life : Lifetime}
    (hsafe : Along exec Safe fresh actions) (hrun : run exec fresh actions = some life) :
    Intact life :=
  (run_invariant sound_exec sound_fresh hsafe hrun).intact

def appendOne (payload : Bytes) : List LifetimeAction :=
  [.recv (.append ⟨10, 0, payload⟩) (.ok ()), .commit]

def closeAndReopen : List LifetimeAction :=
  .reopen ⟨1000, 10, true⟩ :: (appendOne [7] ++
    (.close :: .reopen ⟨1000, 10, true⟩ :: appendOne [8]))

def purgeAndReopen : List LifetimeAction :=
  .reopen rollAlways :: (appendOne [7] ++
    (.purge 2 :: .close :: .reopen rollAlways :: appendOne [8]))

theorem reopened_intact : ∃ life, run exec fresh ([.reopen ⟨1000, 10, true⟩] ++ appendOne [7] ++
        [.close, .reopen ⟨1000, 10, true⟩] ++ appendOne [8]) = some life ∧
      Intact life ∧ life.acked.map WalRecord.seq = [1, 2] := by
  have hsafe : Along exec Safe fresh closeAndReopen := by decide +kernel
  have hrun : (run exec fresh closeAndReopen).map (fun life => life.acked.map WalRecord.seq) =
      some [1, 2] := by decide +kernel
  obtain ⟨life, hlife, hacked⟩ := Option.map_eq_some_iff.mp hrun
  exact ⟨life, hlife, intact_of_safe hsafe hlife, hacked⟩

theorem purged_reused : ∃ life, run exec fresh ([.reopen rollAlways] ++ appendOne [7] ++
        [.purge 2, .close, .reopen rollAlways] ++ appendOne [8]) = some life ∧
      life.acked.map WalRecord.seq = [1, 1] ∧
      life.destroyed = [⟨1, 10, 0, [8]⟩] ∧ ¬Intact life := by
  have hrun : (run exec fresh purgeAndReopen).map
      (fun life => (life.acked.map WalRecord.seq, life.destroyed)) =
        some ([1, 1], [⟨1, 10, 0, [8]⟩]) := by decide +kernel
  obtain ⟨life, hlife, hres⟩ := Option.map_eq_some_iff.mp hrun
  obtain ⟨hacked, hdestroyed⟩ := Prod.mk.inj hres
  refine ⟨life, hlife, hacked, hdestroyed, fun hintact => ?_⟩
  have hkept := hintact.kept
  rw [hdestroyed] at hkept
  simp at hkept

end Lifetime

end OxideMq.Wal
