import OxideMq.Broker.AppendEffects

/-! Idempotent appends. -/

namespace OxideMq.Broker

open Lib OxideMq.Core OxideMq.Protocol OxideMq.Wal OxideMq.Stream PartitionLog List Option

variable {W : Type}

/-- A call of `append_idempotent`: the epoch is an `i16`, the sequence number an `i32`. -/
structure IdempotentCall where
  producerId : ℤ
  producerEpoch : ℤ
  sequence : ℤ
  records : Bytes
  epochFits : FitsSigned 16 producerEpoch
  sequenceFits : FitsSigned 32 sequence

namespace IdempotentCall

def order (call : IdempotentCall) : ℤ ×ₗ ℤ := toLex (call.producerEpoch, call.sequence)

def Next (call later : IdempotentCall) : Prop :=
  call.producerEpoch < later.producerEpoch ∨
    call.producerEpoch = later.producerEpoch ∧ later.sequence = call.sequence + 1

def SameBatch (call later : IdempotentCall) : Prop :=
  call.producerId = later.producerId ∧ call.producerEpoch = later.producerEpoch ∧
    call.sequence = later.sequence

instance (call later : IdempotentCall) : Decidable (call.SameBatch later) :=
  inferInstanceAs (Decidable (_ ∧ _))

theorem Next.order_lt {call later : IdempotentCall} (h : call.Next later) :
    call.order < later.order := by
  rw [order, order, Prod.Lex.toLex_lt_toLex]
  refine h.imp id fun ⟨hep, hsequence⟩ => ⟨hep, ?_⟩
  show call.sequence < later.sequence
  omega

end IdempotentCall

abbrev Answered := IdempotentCall × Except OxideMqError (ℤ × Bool)

def Answered.taken : Answered → Option (IdempotentCall × ℤ)
  | (call, .ok (baseOffset, false)) => some (call, baseOffset)
  | _ => none

structure IdempotentLog (W : Type) where
  partition : Partition
  tiers : Tiers W
  answered : List Answered

namespace IdempotentLog

variable {log log' : IdempotentLog W} {call : IdempotentCall} {entry : IdempotentCall × ℤ}

def exec [WalEngine W] (log : IdempotentLog W) (call : IdempotentCall) :
    Option (IdempotentLog W) :=
  (log.partition.appendIdempotent log.tiers call.producerId call.producerEpoch call.sequence
    call.records).map fun (partition, tiers, answer) =>
      ⟨partition, tiers, log.answered ++ [(call, answer)]⟩

def takenBy (log : IdempotentLog W) (producerId : ℤ) : List (IdempotentCall × ℤ) :=
  (log.answered.filterMap Answered.taken).filter fun entry => entry.1.producerId = producerId

theorem mem_takenBy {producerId : ℤ} : entry ∈ log.takenBy producerId ↔
      (entry.1, .ok (entry.2, false)) ∈ log.answered ∧ entry.1.producerId = producerId := by
  rw [takenBy, mem_filter, decide_eq_true_eq, mem_filterMap]
  refine and_congr_left fun _ => ⟨?_, fun h => ⟨_, h, rfl⟩⟩
  rintro ⟨⟨call, answer⟩, hmem, htake⟩
  unfold Answered.taken at htake
  split at htake
  · rename_i heq
    cases heq
    cases htake
    exact hmem
  · cases htake

theorem takenBy_concat {entry : Answered} (h : log'.answered = log.answered ++ [entry]) (pid : ℤ) :
    log'.takenBy pid = log.takenBy pid ++
      (entry.taken.toList.filter fun e => e.1.producerId = pid) := by
  rw [takenBy, h, filterMap_append, filter_append, takenBy]
  congr 2

/-- The stored sequence numbers are `i32`. -/
def SequencesFit (partition : Partition) : Prop :=
  ∀ producerId, ∀ last ∈ partition.producerStates.lookup producerId, FitsSigned 32 last.2.1

structure Remembers (log : IdempotentLog W) : Prop where
  fits : SequencesFit log.partition
  last : ∀ producerId, ∀ entry ∈ (log.takenBy producerId).getLast?,
    log.partition.producerStates.lookup producerId =
      some (entry.1.producerEpoch, entry.1.sequence, entry.2)
  chain : ∀ producerId, (log.takenBy producerId).IsChain fun a b => a.1.Next b.1

theorem exec_eq_some [WalEngine W] (h : log.exec call = some log') :
    ∃ answer, log'.answered = log.answered ++ [(call, answer)] ∧
      (log.partition.Admits call.producerId call.producerEpoch call.sequence ∧
          (∃ appended res, log.partition.appendRecords log.tiers call.records =
              some (appended, log'.tiers, res) ∧
            ((∃ e, res = .error e ∧ log'.partition = appended ∧ answer = .error e) ∨
              ∃ base, res = .ok base ∧ answer = .ok (base, false) ∧ log'.partition = { appended with
                  producerStates := appended.producerStates.insert call.producerId
                    (call.producerEpoch, call.sequence, base) })) ∨
        ¬log.partition.Admits call.producerId call.producerEpoch call.sequence ∧
          log'.partition = log.partition ∧ log'.tiers = log.tiers ∧
          ((∃ last lastOffset, log.partition.producerStates.lookup call.producerId =
              some (call.producerEpoch, last, lastOffset) ∧ call.sequence ≤ last ∧
              answer = .ok (lastOffset, true)) ∨
            ∃ msg, answer = .error (.protocol msg))) := by
  obtain ⟨⟨partition, tiers, answer⟩, happ, rfl⟩ := map_eq_some_iff.mp h
  exact ⟨answer, rfl, Partition.appendIdempotent_eq_some happ⟩

theorem producerStates_append [WalEngine W] {part part' : Partition}
    {tiers tiers' : Tiers W} {recs : Bytes} {res : Except OxideMqError ℤ}
    (h : part.appendRecords tiers recs = some (part', tiers', res)) :
    part'.producerStates = part.producerStates := by
  obtain ⟨patched, count, -, rfl, -⟩ := Partition.appendRecords_eq_some h
  exact Partition.noteTransaction_producerStates _ _ _

theorem Remembers.unchanged (h : Remembers log) {entry : Answered}
    (hans : log'.answered = log.answered ++ [entry]) (hnone : entry.taken = none)
    (hstates : log'.partition.producerStates = log.partition.producerStates) :
    Remembers log' := by
  have htake : ∀ producerId, log'.takenBy producerId = log.takenBy producerId := by
    intro producerId
    rw [takenBy_concat hans, hnone]
    exact append_nil _
  refine ⟨?_, ?_, ?_⟩
  · rw [SequencesFit, hstates]
    exact h.fits
  · intro producerId
    rw [htake, hstates]
    exact h.last producerId
  · intro producerId
    rw [htake]
    exact h.chain producerId

theorem Remembers.next (h : Remembers log)
    (hadm : log.partition.Admits call.producerId call.producerEpoch call.sequence)
    (hlast : entry ∈ (log.takenBy call.producerId).getLast?) :
    entry.1.Next call := by
  obtain ⟨hep, hseq⟩ := hadm _ (h.last _ entry hlast)
  rcases hep.lt_or_eq with hlt | heq
  · exact Or.inl hlt
  · refine Or.inr ⟨heq, ?_⟩
    obtain ⟨habove, hbelow⟩ := hseq heq.symm
    -- a number above the last one is an `i32`, so the next one is as well
    have hnext : FitsSigned 32 (entry.1.sequence + 1) := by
      have hlo := entry.1.sequenceFits.1
      have hhi := call.sequenceFits.2
      have hlt : entry.1.sequence < call.sequence := habove
      constructor <;> omega
    rw [wrapSigned_of_fits (by norm_num) hnext] at hbelow
    have hlt : entry.1.sequence < call.sequence := habove
    omega

theorem Remembers.taken (h : Remembers log) {base : ℤ}
    (hans : log'.answered = log.answered ++ [(call, .ok (base, false))])
    (hadm : log.partition.Admits call.producerId call.producerEpoch call.sequence)
    (hstates : log'.partition.producerStates = log.partition.producerStates.insert
      call.producerId (call.producerEpoch, call.sequence, base)) : Remembers log' := by
  have htake : ∀ producerId, log'.takenBy producerId = log.takenBy producerId ++
      if call.producerId = producerId then [(call, base)] else [] := by
    intro producerId
    rw [takenBy_concat hans]
    by_cases hown : call.producerId = producerId <;> simp [Answered.taken, hown]
  refine ⟨?_, ?_, ?_⟩
  · intro producerId last hlast
    rw [hstates, HashMap.lookup_insert_ite] at hlast
    split at hlast
    · cases hlast
      exact call.sequenceFits
    · exact h.fits producerId last hlast
  · intro producerId entry he
    rw [hstates, HashMap.lookup_insert_ite]
    by_cases hown : call.producerId = producerId
    · rw [htake, if_pos hown, getLast?_append] at he
      obtain rfl : (call, base) = entry := by simpa using he
      rw [if_pos hown.symm]
    · rw [htake, if_neg hown, append_nil] at he
      rw [if_neg (Ne.symm hown)]
      exact h.last producerId entry he
  · intro producerId
    rw [htake]
    split
    · rename_i hown
      subst hown
      refine isChain_append.mpr ⟨h.chain _, isChain_singleton _, ?_⟩
      intro entry he later hlater
      obtain rfl : (call, base) = later := by simpa using hlater
      exact h.next hadm he
    · rw [append_nil]
      exact h.chain producerId

theorem remembers_exec [WalEngine W] (log : IdempotentLog W) (call : IdempotentCall)
    (log' : IdempotentLog W) (h : Remembers log) (hexec : log.exec call = some log') :
    Remembers log' := by
  obtain ⟨answer, hans, ⟨hadm, appended, res, happ, hend⟩ |
    ⟨-, hpart, -, hend⟩⟩ := exec_eq_some hexec
  · have hstates := producerStates_append happ
    obtain ⟨e, -, hpart, rfl⟩ | ⟨base, -, rfl, hpart⟩ := hend
    · exact h.unchanged hans rfl (by rw [hpart, hstates])
    · exact h.taken hans hadm (by rw [hpart, hstates])
  · obtain ⟨last, lastOffset, -, -, rfl⟩ | ⟨msg, rfl⟩ := hend
    · exact h.unchanged hans rfl (by rw [hpart])
    · exact h.unchanged hans rfl (by rw [hpart])

theorem calls_of_run [WalEngine W] {calls : List IdempotentCall}
    (hrun : run exec log calls = some log') :
    log'.answered.map Prod.fst = log.answered.map Prod.fst ++ calls := by
  induction calls generalizing log with
  | nil => rw [← some.inj hrun, append_nil]
  | cons call calls ih =>
    obtain ⟨mid, hexec, hrest⟩ := run_cons_eq_some.mp hrun
    obtain ⟨answer, hans, -⟩ := exec_eq_some hexec
    rw [ih hrest, hans, map_append, append_assoc]
    rfl

def TakesLast (log log' : IdempotentLog W) (call : IdempotentCall) : Prop :=
  ∃ baseOffset, log'.answered = log.answered ++ [(call, .ok (baseOffset, false))]

def OnlyTakenChange (log log' : IdempotentLog W) (call : IdempotentCall) : Prop :=
  (log'.partition.highWatermark ≠ log.partition.highWatermark → TakesLast log log' call) ∧
    (¬TakesLast log log' call → log'.partition = log.partition ∧ log'.tiers = log.tiers)

theorem onlyTakenChange_exec [WalEngine W] (hwal : WalEngine.NeverFails W)
    (hexec : log.exec call = some log') :
    OnlyTakenChange log log' call := by
  have hcases : TakesLast log log' call ∨
      log'.partition = log.partition ∧ log'.tiers = log.tiers := by
    obtain ⟨answer, hans, ⟨-, appended, res, happ, hend⟩ |
      ⟨-, hpartition, htiers, -⟩⟩ := exec_eq_some hexec
    · obtain ⟨e, rfl, -⟩ | ⟨base, -, rfl, -⟩ := hend
      · -- only the log could have refused the append
        obtain ⟨patched, count, -, -, ⟨seq, -, herr, -⟩ | ⟨e', herr, -⟩⟩ :=
          Partition.appendRecords_eq_some happ
        · cases herr
        · obtain ⟨seq, hok⟩ := hwal log.tiers.wal log.partition.stream.streamId
            log.partition.stream.nextOffset patched
          rw [hok] at herr
          cases herr
      · exact Or.inl ⟨base, hans⟩
    · exact Or.inr ⟨hpartition, htiers⟩
  refine ⟨fun hmoved => hcases.resolve_right fun hsame => ?_, fun hnot => hcases.resolve_left hnot⟩
  exact hmoved (by rw [hsame.1])

theorem remembers_start {part : Partition} (hfits : SequencesFit part)
    (tiers : Tiers W) : Remembers ⟨part, tiers, []⟩ :=
  ⟨hfits, fun _ _ hlast => by simp [takenBy] at hlast, fun _ => isChain_nil⟩

theorem Remembers.ordered (h : Remembers log) (pid : ℤ) :
    (log.takenBy pid).Pairwise fun a b => a.1.order < b.1.order := by
  have htrans : Trans (fun a b : IdempotentCall × ℤ => a.1.order < b.1.order)
      (fun a b : IdempotentCall × ℤ => a.1.order < b.1.order)
      (fun a b : IdempotentCall × ℤ => a.1.order < b.1.order) :=
    ⟨fun hab hbc => lt_trans hab hbc⟩
  exact isChain_iff_pairwise.mp ((h.chain pid).imp fun _ _ hnext => hnext.order_lt)

theorem taken_exactly_once [WalEngine W] (hwal : WalEngine.NeverFails W) {partition : Partition}
    (hfits : SequencesFit partition) {tiers : Tiers W} {calls : List IdempotentCall}
    {log : IdempotentLog W} (hrun : run exec ⟨partition, tiers, []⟩ calls = some log) :
    (∀ producerId, ((log.takenBy producerId).Pairwise fun a b => a.1.order < b.1.order) ∧
      (log.takenBy producerId).IsChain fun a b =>
        a.1.producerEpoch = b.1.producerEpoch → b.1.sequence = a.1.sequence + 1) ∧
    Along exec (fun s call => ∀ s', exec s call = some s' → OnlyTakenChange s s' call)
      ⟨partition, tiers, []⟩ calls := by
  have htrivial : Along exec (fun (_ : IdempotentLog W) (_ : IdempotentCall) => True)
      ⟨partition, tiers, []⟩ calls :=
    along_of_forall (P := fun _ => True) fun _ _ => trivial
  have hremembers : Remembers log :=
    run_invariant (fun s call s' hs _ hexec => remembers_exec s call s' hs hexec)
      (remembers_start hfits tiers) htrivial hrun
  refine ⟨fun producerId => ⟨hremembers.ordered producerId, ?_⟩, ?_⟩
  · refine (hremembers.chain producerId).imp fun a b hnext hsame => ?_
    rcases hnext with hlt | ⟨-, hseq⟩
    · exact absurd hsame hlt.ne
    · exact hseq
  · exact htrivial.imp fun s call _ s' hexec => onlyTakenChange_exec hwal hexec

def newLog : IdempotentLog MemoryWal := ⟨newPartition, PartitionLog.emptyTiers, []⟩

theorem sequencesFit_newPartition : SequencesFit newPartition :=
  fun _ last hlast => by cases hlast

def oneByte (producerId : ℤ) (producerEpoch : Fin 100) (sequence : Fin 100) : IdempotentCall where
  producerId := producerId
  producerEpoch := producerEpoch
  sequence := sequence
  records := [1]
  epochFits := by
    have hlt := producerEpoch.isLt
    exact ⟨by norm_num, by norm_num; omega⟩
  sequenceFits := by
    have hlt := sequence.isLt
    exact ⟨by norm_num, by norm_num; omega⟩

theorem taken_exactly_once_retried :
    ∃ log, run exec newLog [oneByte 7 0 0, oneByte 7 0 0, oneByte 7 0 1, oneByte 7 0 3,
        oneByte 8 0 5, oneByte 7 1 0, oneByte 7 0 2] = some log ∧
      (log.takenBy 7).map Prod.snd = [0, 1, 3] ∧
      (log.takenBy 7).Pairwise fun a b => a.1.order < b.1.order := by
  have hend : (run exec newLog [oneByte 7 0 0, oneByte 7 0 0, oneByte 7 0 1, oneByte 7 0 3,
      oneByte 8 0 5, oneByte 7 1 0, oneByte 7 0 2]).map
        (fun log => (log.takenBy 7).map Prod.snd) = some [0, 1, 3] := by
    decide +kernel
  obtain ⟨log, hrun, htake⟩ := Option.map_eq_some_iff.mp hend
  exact ⟨log, hrun, htake,
    ((taken_exactly_once MemoryWal.neverFails sequencesFit_newPartition hrun).1 7).1⟩

def OwnOffsets (answered : List Answered) : Prop :=
  answered.Pairwise fun first later => ∀ baseOffset answer, first.2 = .ok (baseOffset, false) →
    later.2 = .ok (answer, true) → first.1.SameBatch later.1 → answer = baseOffset

def NotOutdated (log : IdempotentLog W) (call : IdempotentCall) : Prop :=
  ∀ last ∈ log.partition.producerStates.lookup call.producerId,
    last.1 = call.producerEpoch → call.sequence < last.2.1 →
      ∀ entry ∈ log.takenBy call.producerId, ¬entry.1.SameBatch call

instance (log : IdempotentLog W) (call : IdempotentCall) : Decidable (log.NotOutdated call) :=
  inferInstanceAs (Decidable (∀ last ∈ log.partition.producerStates.lookup call.producerId,
    last.1 = call.producerEpoch → call.sequence < last.2.1 →
      ∀ entry ∈ log.takenBy call.producerId, ¬entry.1.SameBatch call))

theorem Remembers.offset_eq (h : Remembers log) {pid : ℤ}
    (he : entry ∈ log.takenBy pid) {lastOffset : ℤ}
    (hlast : log.partition.producerStates.lookup pid =
      some (entry.1.producerEpoch, entry.1.sequence, lastOffset)) : lastOffset = entry.2 := by
  obtain ⟨front, last, htake⟩ :=
    (eq_nil_or_concat' (log.takenBy pid)).resolve_left (ne_nil_of_mem he)
  have hfound := h.last pid last (by rw [htake]; simp)
  have hord := h.ordered pid
  rw [htake] at he hord
  rw [hlast] at hfound
  obtain ⟨hep, hseq, hoff⟩ : _ ∧ _ ∧ _ := by
    simpa only [some.injEq, Prod.mk.injEq] using hfound
  rcases mem_append.mp he with hfront | hmem
  · -- an earlier one would be below the last in the order
    have hlt := (pairwise_append.mp hord).2.2 entry hfront last (mem_singleton_self _)
    rw [IdempotentCall.order, IdempotentCall.order, hep, hseq] at hlt
    exact absurd hlt (lt_irrefl _)
  · obtain rfl := mem_singleton.mp hmem
    exact hoff

theorem ownOffsets_exec [WalEngine W] (h : Remembers log) (hown : OwnOffsets log.answered)
    (hcond : NotOutdated log call) (hexec : log.exec call = some log') :
    OwnOffsets log'.answered := by
  obtain ⟨answer, hans, hcases⟩ := exec_eq_some hexec
  rw [hans]
  refine pairwise_append.mpr ⟨hown, pairwise_singleton _ _, ?_⟩
  intro first hfirst later hlater baseOffset duplicate htake hdup hsame
  obtain rfl := mem_singleton.mp hlater
  obtain rfl : answer = .ok (duplicate, true) := hdup
  have he : (first.1, baseOffset) ∈ log.takenBy call.producerId :=
    mem_takenBy.mpr ⟨by rw [← htake]; exact hfirst, hsame.1⟩
  obtain ⟨-, appended, result, -, ⟨e, -, -, herr⟩ | ⟨b, -, hnew, -⟩⟩ | ⟨-, -, -, hend⟩ := hcases
  · cases herr
  · cases hnew
  · obtain ⟨lastSeq, lastOffset, hlast, hle, heq⟩ | ⟨message, herr⟩ := hend
    · -- the batch is in the list, so it is not one before the last
      have hnot : ¬call.sequence < lastSeq :=
        fun hlt => hcond _ hlast rfl hlt _ he hsame
      obtain rfl : call.sequence = lastSeq := by omega
      rw [← hsame.2.1, ← hsame.2.2] at hlast
      calc duplicate = lastOffset := congrArg Prod.fst (Except.ok.inj heq)
        _ = baseOffset := h.offset_eq he hlast
    · cases herr

theorem duplicates_get_own_offset [WalEngine W] {partition : Partition}
    (hfits : SequencesFit partition) {tiers : Tiers W} {calls : List IdempotentCall}
    {log : IdempotentLog W} (hcond : Along exec NotOutdated ⟨partition, tiers, []⟩ calls)
    (hrun : run exec ⟨partition, tiers, []⟩ calls = some log) : OwnOffsets log.answered := by
  have hstep : ∀ (s : IdempotentLog W) call s', Remembers s ∧ OwnOffsets s.answered →
      NotOutdated s call → exec s call = some s' → Remembers s' ∧ OwnOffsets s'.answered :=
    fun s call s' hs hnot hexec =>
      ⟨remembers_exec s call s' hs.1 hexec, ownOffsets_exec hs.1 hs.2 hnot hexec⟩
  exact (run_invariant hstep ⟨remembers_start hfits tiers, List.Pairwise.nil⟩ hcond hrun).2

theorem outdated_duplicate_gets_last_offset :
    ∃ log, run exec newLog [oneByte 7 0 0, oneByte 7 0 1, oneByte 7 0 0] = some log ∧
      ¬OwnOffsets log.answered := by
  have hend : (run exec newLog [oneByte 7 0 0, oneByte 7 0 1, oneByte 7 0 0]).map
      (fun log => log.answered.map Prod.snd) =
        some [.ok (0, false), .ok (1, false), .ok (1, true)] := by
    decide +kernel
  obtain ⟨log, hrun, hans⟩ := Option.map_eq_some_iff.mp hend
  have hcalls : log.answered.map Prod.fst = [oneByte 7 0 0, oneByte 7 0 1, oneByte 7 0 0] :=
    calls_of_run hrun
  refine ⟨log, hrun, fun hown => ?_⟩
  have hlog : log.answered = [(oneByte 7 0 0, .ok (0, false)), (oneByte 7 0 1, .ok (1, false)),
      (oneByte 7 0 0, .ok (1, true))] := List.zip_of_prod hcalls hans
  rw [hlog, OwnOffsets, List.pairwise_cons] at hown
  have hsame := hown.1 (oneByte 7 0 0, .ok (1, true)) (by simp) 0 1 rfl rfl ⟨rfl, rfl, rfl⟩
  exact absurd hsame (by decide)

theorem duplicates_get_own_offset_retried :
    ∃ log, run exec newLog [oneByte 7 0 0, oneByte 7 0 0, oneByte 7 0 1, oneByte 7 0 1] =
        some log ∧ OwnOffsets log.answered := by
  have hsome : (run exec newLog
      [oneByte 7 0 0, oneByte 7 0 0, oneByte 7 0 1, oneByte 7 0 1]).isSome = true := by
    decide +kernel
  obtain ⟨log, hrun⟩ := Option.isSome_iff_exists.mp hsome
  exact ⟨log, hrun, duplicates_get_own_offset sequencesFit_newPartition (by decide +kernel) hrun⟩

end IdempotentLog

namespace InOrder

variable {partition : Partition} {producerEpoch producerId sequence : ℤ} {batch : Bytes}
  {tiers : Tiers W} {batches : List Bytes}

/-- The sequence number behind a batch, as a Kafka producer counts: one for each record, and 0
again after the largest `i32`. -/
def nextSequence (sequence : ℤ) (batch : Bytes) : ℤ := (sequence + recordCountOf batch) % 2 ^ 31

def send [WalEngine W] (producerId producerEpoch : ℤ) :
    Partition → Tiers W → ℤ → List Bytes → Option (List (Except OxideMqError (ℤ × Bool)))
  | _, _, _, [] => some []
  | partition, tiers, sequence, batch :: batches =>
      (partition.appendIdempotent tiers producerId producerEpoch sequence batch).bind
        fun (partition', tiers', answer) =>
          (send producerId producerEpoch partition' tiers' (nextSequence sequence batch)
            batches).map (answer :: ·)

def allNew : ℤ → List Bytes → List (Except OxideMqError (ℤ × Bool))
  | _, [] => []
  | offset, batch :: batches => .ok (offset, false) :: allNew (offset + recordCountOf batch) batches

def LogTakes [WalEngine W] (streamId : ℕ) : W → ℤ → List Bytes → Prop
  | _, _, [] => True
  | wal, offset, batch :: batches =>
      (∃ seq, (WalEngine.append wal streamId offset
        (patchHeader batch batch.length offset)).2 = .ok seq) ∧
      LogTakes streamId (WalEngine.append wal streamId offset
        (patchHeader batch batch.length offset)).1 (offset + recordCountOf batch) batches

theorem appendIdempotent_batch [WalEngine W] (tiers : Tiers W) (hb : WellFormed batch)
    (hadm : partition.Admits producerId producerEpoch sequence) :
    ∃ part' tiers' answer,
      partition.appendIdempotent tiers producerId producerEpoch sequence batch =
        some (part', tiers', answer) ∧
      (answer = .ok (partition.highWatermark, false) ↔
        ∃ seq, (WalEngine.append tiers.wal partition.stream.streamId partition.highWatermark
          (patchHeader batch batch.length partition.highWatermark)).2 = .ok seq) ∧
      (answer = .ok (partition.highWatermark, false) → part'.producerStates.lookup producerId =
          some (producerEpoch, sequence, partition.highWatermark)) ∧
      part'.stream.streamId = partition.stream.streamId ∧
      part'.highWatermark = wrapSigned 64 (partition.highWatermark + recordCountOf batch) ∧
      tiers'.wal = (WalEngine.append tiers.wal partition.stream.streamId partition.highWatermark
        (patchHeader batch batch.length partition.highWatermark)).1 := by
  obtain ⟨tiers', res, happ, hend⟩ := partition.appendRecords_batch tiers hb
  rw [Partition.appendIdempotent_of_admits hadm, happ]
  obtain ⟨seq, hwal, rfl, rfl⟩ | ⟨e, hwal, rfl, rfl⟩ := hend
  · refine ⟨_, _, _, rfl, iff_of_true rfl ⟨seq, hwal⟩, fun _ => ?_, rfl, rfl, rfl⟩
    exact AList.lookup_insert _
  · refine ⟨_, _, _, rfl, iff_of_false (by simp) ?_, by simp, rfl, rfl, rfl⟩
    rintro ⟨seq, hok⟩
    cases hwal.symm.trans hok

theorem admits_nextSequence_iff {lastOffset : ℤ} (hlo : 0 ≤ sequence) (hhi : sequence < 2 ^ 31)
    (hlast : partition.producerStates.lookup producerId =
      some (producerEpoch, sequence, lastOffset)) :
    partition.Admits producerId producerEpoch (nextSequence sequence batch) ↔
      recordCountOf batch = 1 ∧ sequence + 1 < 2 ^ 31 := by
  obtain ⟨hone, hmany⟩ := recordCountOf_le batch
  have hadm : partition.Admits producerId producerEpoch (nextSequence sequence batch) ↔
      sequence < nextSequence sequence batch ∧
        nextSequence sequence batch ≤ wrapSigned 32 (sequence + 1) := by
    rw [Partition.Admits, hlast]
    simp
  rw [hadm, nextSequence]
  by_cases hroom : sequence + 1 < 2 ^ 31
  · rw [wrapSigned_of_fits (by norm_num) ⟨by norm_num; omega, by norm_num; omega⟩]
    omega
  · rw [wrapSigned_of_overflow (by norm_num) (by norm_num; omega) (by norm_num; omega)]
    omega

theorem admits_of_new [WalEngine W] {partition' : Partition} {tiers' : Tiers W} {baseOffset : ℤ}
    {records : Bytes}
    (h : partition.appendIdempotent tiers producerId producerEpoch sequence records =
      some (partition', tiers', .ok (baseOffset, false))) :
    partition.Admits producerId producerEpoch sequence ∧ baseOffset = partition.highWatermark := by
  obtain ⟨hadm, appended, result, happ, ⟨e, -, -, herr⟩ | ⟨offset, rfl, heq, -⟩⟩ |
    ⟨-, -, -, ⟨lastSeq, lastOffset, -, -, heq⟩ | ⟨message, herr⟩⟩ :=
    Partition.appendIdempotent_eq_some h
  · cases herr
  · obtain ⟨patched, count, -, -, ⟨seq, -, hoff, -⟩ | ⟨e, -, herr, -⟩⟩ :=
      Partition.appendRecords_eq_some happ
    · refine ⟨hadm, ?_⟩
      calc baseOffset = offset := congrArg Prod.fst (Except.ok.inj heq)
        _ = partition.highWatermark := Except.ok.inj hoff
    · cases herr
  · cases heq
  · cases herr

theorem send_cons_eq_some [WalEngine W] {answer : Except OxideMqError (ℤ × Bool)}
    {answers : List (Except OxideMqError (ℤ × Bool))} :
    send producerId producerEpoch partition tiers sequence (batch :: batches) =
        some (answer :: answers) ↔
      ∃ part' tiers', partition.appendIdempotent tiers producerId producerEpoch sequence batch =
          some (part', tiers', answer) ∧
        send producerId producerEpoch part' tiers' (nextSequence sequence batch) batches =
          some answers := by
  rw [send, bind_eq_some_iff]
  constructor
  · rintro ⟨⟨part', tiers', answer'⟩, happend, hrest⟩
    obtain ⟨answers', hsend, heq⟩ := map_eq_some_iff.mp hrest
    obtain ⟨rfl, rfl⟩ := cons.inj heq
    exact ⟨part', tiers', happend, hsend⟩
  · rintro ⟨part', tiers', happend, hsend⟩
    exact ⟨_, happend, map_eq_some_iff.mpr ⟨answers, hsend, rfl⟩⟩

theorem admits_of_send [WalEngine W] {off : ℤ}
    (h : send producerId producerEpoch partition tiers sequence (batch :: batches) =
      some (allNew off (batch :: batches))) :
    partition.Admits producerId producerEpoch sequence ∧ off = partition.highWatermark := by
  obtain ⟨part', tiers', happ, -⟩ := send_cons_eq_some.mp h
  exact admits_of_new happ

theorem send_cons_iff [WalEngine W] (tiers : Tiers W) (hb : WellFormed batch)
    (hadm : partition.Admits producerId producerEpoch sequence) :
    ∃ part' tiers', part'.stream.streamId = partition.stream.streamId ∧
      part'.highWatermark = wrapSigned 64 (partition.highWatermark + recordCountOf batch) ∧
      tiers'.wal = (WalEngine.append tiers.wal partition.stream.streamId partition.highWatermark
        (patchHeader batch batch.length partition.highWatermark)).1 ∧
      ((∃ seq, (WalEngine.append tiers.wal partition.stream.streamId partition.highWatermark
          (patchHeader batch batch.length partition.highWatermark)).2 = .ok seq) →
        part'.producerStates.lookup producerId =
          some (producerEpoch, sequence, partition.highWatermark)) ∧
      ∀ batches, send producerId producerEpoch partition tiers sequence (batch :: batches) =
          some (allNew partition.highWatermark (batch :: batches)) ↔
        (∃ seq, (WalEngine.append tiers.wal partition.stream.streamId partition.highWatermark
          (patchHeader batch batch.length partition.highWatermark)).2 = .ok seq) ∧
        send producerId producerEpoch part' tiers' (nextSequence sequence batch) batches =
          some (allNew (partition.highWatermark + recordCountOf batch) batches) := by
  obtain ⟨part', tiers', answer, happ, hnew, hlast, hstr, hhigh, hwal⟩ :=
    appendIdempotent_batch tiers hb hadm
  refine ⟨part', tiers', hstr, hhigh, hwal, fun htake => hlast (hnew.mpr htake), ?_⟩
  intro batches
  rw [allNew, send_cons_eq_some, ← hnew]
  constructor
  · rintro ⟨part₀, tiers₀, happ₀, hsend⟩
    cases happ.symm.trans happ₀
    exact ⟨rfl, hsend⟩
  · rintro ⟨rfl, hsend⟩
    exact ⟨part', tiers', happ, hsend⟩

theorem send_eq_allNew_iff [WalEngine W] (hbs : ∀ b ∈ batch :: batches, WellFormed b)
    (hfits : FitsSigned 64 partition.highWatermark) (hlo : 0 ≤ sequence) (hhi : sequence < 2 ^ 31)
    (hadm : partition.Admits producerId producerEpoch sequence) :
    send producerId producerEpoch partition tiers sequence (batch :: batches) =
        some (allNew partition.highWatermark (batch :: batches)) ↔
      (∀ b ∈ (batch :: batches).dropLast, recordCountOf b = 1) ∧
        sequence + (batch :: batches).length ≤ 2 ^ 31 ∧
        partition.highWatermark + (batch :: batches).length ≤ 2 ^ 63 ∧
        LogTakes partition.stream.streamId tiers.wal partition.highWatermark
          (batch :: batches) := by
  induction batches generalizing batch partition tiers sequence with
  | nil =>
    obtain ⟨partition', tiers', -, -, -, -, hsend⟩ :=
      send_cons_iff tiers (hbs batch mem_cons_self) hadm
    have hlt : partition.highWatermark < 2 ^ 63 := hfits.2
    rw [hsend, LogTakes]
    simp only [dropLast_singleton, length_singleton, Nat.cast_one]
    constructor
    · rintro ⟨htake, -⟩
      exact ⟨by simp, by omega, by omega, htake, trivial⟩
    · rintro ⟨-, -, -, htake, -⟩
      exact ⟨htake, rfl⟩
  | cons next batches ih =>
    obtain ⟨partition', tiers', hstr, hhigh, hwal, hlast, hsend⟩ :=
      send_cons_iff tiers (hbs batch mem_cons_self) hadm
    have hlt : partition.highWatermark < 2 ^ 63 := hfits.2
    have habove : -2 ^ 63 ≤ partition.highWatermark := hfits.1
    have hfits' : FitsSigned 64 partition'.highWatermark := by
      rw [hhigh]
      exact wrapSigned_fits (by norm_num) _
    have hlen : ((batch :: next :: batches).length : ℤ) = (next :: batches).length + 1 :=
      Nat.cast_succ _
    have hpos : 0 < ((next :: batches).length : ℤ) := Nat.cast_pos.mpr (Nat.succ_pos _)
    rw [hsend, LogTakes, dropLast_cons_cons, forall_mem_cons, hlen, ← hwal]
    constructor
    · rintro ⟨htake, hrest⟩
      -- the next batch was admitted, at the offset it was due at
      obtain ⟨hnext, hoff⟩ := admits_of_send hrest
      obtain ⟨hone, hroom⟩ := (admits_nextSequence_iff hlo hhi (hlast htake)).mp hnext
      have hseq : nextSequence sequence batch = sequence + 1 := by
        rw [nextSequence, hone]
        omega
      rw [hseq] at hnext hrest
      rw [hoff] at hrest ⊢
      obtain ⟨hsingle, hnums, hoffs, hlog⟩ := (ih (fun b hb =>
        hbs b (mem_cons_of_mem _ hb)) hfits' (by omega) hroom hnext).mp hrest
      rw [hstr] at hlog
      exact ⟨⟨hone, hsingle⟩, by omega, by omega, htake, hlog⟩
    · rintro ⟨⟨hone, hsingle⟩, hnums, hoffs, htake, hlog⟩
      have hroom : sequence + 1 < 2 ^ 31 := by omega
      have hseq : nextSequence sequence batch = sequence + 1 := by
        rw [nextSequence, hone]
        omega
      have hoff : partition.highWatermark + recordCountOf batch = partition'.highWatermark := by
        rw [hhigh, hone, wrapSigned_of_fits (by norm_num) ⟨by norm_num; omega, by norm_num; omega⟩]
      have hnext : partition'.Admits producerId producerEpoch (nextSequence sequence batch) :=
        (admits_nextSequence_iff hlo hhi (hlast htake)).mpr ⟨hone, hroom⟩
      rw [hseq] at hnext ⊢
      rw [hoff, ← hstr] at hlog
      rw [hoff]
      refine ⟨htake, (ih (fun b hb => hbs b (mem_cons_of_mem _ hb)) hfits' (by omega)
        hroom hnext).mpr ⟨hsingle, by omega, by omega, hlog⟩⟩

theorem in_order_batches_new_iff [WalEngine W] {producerId producerEpoch : ℤ}
    {batches : List Bytes} {partition : Partition} {tiers : Tiers W}
    (hbatches : ∀ b ∈ batches, WellFormed b) (hfits : FitsSigned 64 partition.highWatermark)
    (hnew : ∀ last ∈ partition.producerStates.lookup producerId, last.1 < producerEpoch) :
    send producerId producerEpoch partition tiers 0 batches =
        some (allNew partition.highWatermark batches) ↔
      (∀ b ∈ batches.dropLast, recordCountOf b = 1) ∧ batches.length ≤ 2 ^ 31 ∧
        partition.highWatermark + batches.length ≤ 2 ^ 63 ∧
        LogTakes partition.stream.streamId tiers.wal partition.highWatermark batches := by
  cases batches with
  | nil =>
    have hbelow : partition.highWatermark < 2 ^ 63 := hfits.2
    refine iff_of_true rfl ⟨by simp, by simp, ?_, trivial⟩
    simp only [List.length_nil, Nat.cast_zero, add_zero]
    exact hbelow.le
  | cons batch batches =>
    have hadm : partition.Admits producerId producerEpoch 0 := by
      intro last hlast
      have hlt := hnew last hlast
      exact ⟨hlt.le, fun hsame => absurd hsame hlt.ne'⟩
    rw [send_eq_allNew_iff hbatches hfits le_rfl (by norm_num) hadm, zero_add]
    norm_cast

theorem batch_behind_two_records_refused : send 7 0 newPartition PartitionLog.emptyTiers 0
        [PartitionLog.headerOnly 1, PartitionLog.headerOnly 0] =
      some [.ok (0, false),
        .error (.protocol "Out of order sequence for producer 7: expected 1, got 2")] ∧
    (∀ b ∈ [PartitionLog.headerOnly 1, PartitionLog.headerOnly 0], WellFormed b) ∧
    send 7 0 newPartition PartitionLog.emptyTiers 0
        [PartitionLog.headerOnly 1, PartitionLog.headerOnly 0] ≠
      some (allNew newPartition.highWatermark
        [PartitionLog.headerOnly 1, PartitionLog.headerOnly 0]) := by
  have hsend : send 7 0 newPartition emptyTiers 0
      [headerOnly 1, headerOnly 0] =
        some [.ok (0, false),
          .error (.protocol "Out of order sequence for producer 7: expected 1, got 2")] := by
    decide +kernel
  refine ⟨hsend, by decide +kernel, ?_⟩
  rw [hsend]
  simp [allNew]

theorem in_order_batches_new_single : send 7 0 newPartition PartitionLog.emptyTiers 0
        [PartitionLog.headerOnly 0, PartitionLog.headerOnly 0, PartitionLog.headerOnly 2] =
      some [.ok (0, false), .ok (1, false), .ok (2, false)] := by
  have hnone : newPartition.producerStates.lookup 7 = none := rfl
  have hnew : send 7 0 newPartition emptyTiers 0
      [headerOnly 0, headerOnly 0, headerOnly 2] =
        some (allNew newPartition.highWatermark [headerOnly 0, headerOnly 0, headerOnly 2]) := by
    refine (in_order_batches_new_iff (by decide +kernel) (by decide +kernel) ?_).mpr
      ⟨by decide +kernel, by decide, by decide +kernel, ⟨_, rfl⟩, ⟨_, rfl⟩, ⟨_, rfl⟩, trivial⟩
    simp [hnone]
  exact hnew.trans (by decide +kernel)

end InOrder

end OxideMq.Broker
