import OxideMq.Broker.AppendEffects
import OxideMq.Broker.ConcurrentAppend

/-! Deleting the front of a partition. -/

namespace OxideMq.Broker

open Lib OxideMq.Core OxideMq.Protocol OxideMq.Wal OxideMq.Stream OxideMq.Broker.Partition List Option S3Stream

variable {W : Type}

namespace Partition

/-- `delete_records` on a partition that was found. -/
def deleteRecords (partition : Partition) (tiers : Tiers W) (beforeOffset : ℤ) :
    Partition × Tiers W × Except KafkaErrorCode ℤ :=
  let hw := partition.highWatermark
  if beforeOffset ≠ -1 ∧ (beforeOffset < 0 ∨ beforeOffset > hw) then
    (partition, tiers, .error .offsetOutOfRange)
  else
    let targetOffset := if beforeOffset = -1 then hw else beforeOffset
    let currentStart := partition.logStartOffset
    if targetOffset ≤ currentStart then (partition, tiers, .ok currentStart)
    else
      let (partition', tiers', newLw) := partition.advanceLogStartOffset tiers targetOffset
      (partition', tiers', .ok newLw)

def startingAt (partition : Partition) (offset : ℤ) : Partition :=
  { partition with stream := { partition.stream with startOffset := offset } }

def trimmedTiers (partition : Partition) (tiers : Tiers W) (offset : ℤ) : Tiers W :=
  { tiers with logCache := tiers.logCache.trim partition.stream.streamId offset }

theorem not_inRange_iff {part : Partition} {before : ℤ} : ¬part.InRange before ↔
      before ≠ -1 ∧ (before < 0 ∨ before > part.highWatermark) := by
  rw [InRange]
  omega

theorem deleteRecords_cases (part : Partition) (tiers : Tiers W) (before : ℤ) :
    ¬part.InRange before ∧
        part.deleteRecords tiers before = (part, tiers, .error .offsetOutOfRange) ∨
      part.InRange before ∧ part.deletionTarget before ≤ part.logStartOffset ∧
        part.deleteRecords tiers before = (part, tiers, .ok part.logStartOffset) ∨
      part.InRange before ∧ part.logStartOffset < part.deletionTarget before ∧
        part.deleteRecords tiers before = (part.startingAt (part.deletionTarget before),
            part.trimmedTiers tiers (part.deletionTarget before),
            .ok (part.deletionTarget before)) := by
  rw [deleteRecords]
  rw [← deletionTarget]
  by_cases hrange : part.InRange before
  · rw [if_neg fun h => not_inRange_iff.mpr h hrange]
    by_cases hmove : part.logStartOffset < part.deletionTarget before
    · refine Or.inr (Or.inr ⟨hrange, hmove, ?_⟩)
      rw [if_neg (not_le.mpr hmove), advanceLogStartOffset, advanceStartOffset,
        if_pos (show _ > part.stream.startOffset from hmove)]
      rfl
    · refine Or.inr (Or.inl ⟨hrange, not_lt.mp hmove, ?_⟩)
      rw [if_pos (not_lt.mp hmove)]
  · exact Or.inl ⟨hrange, by rw [if_pos (not_inRange_iff.mp hrange)]⟩

end Partition

namespace PartitionLog

variable {log : PartitionLog W}

def Returns (partition : Partition) (tiers : Tiers W) (batch : StoredBatch) (offset : ℤ)
    (maxBytes : ℕ) : Prop :=
  ∃ records, (partition.readRecords tiers offset maxBytes).2 = .ok records ∧
    (batch.base, batch.bytes) ∈ records

def RestReadable (log : PartitionLog W) (partition' : Partition) (tiers' : Tiers W)
    (lowWatermark : ℤ) : Prop :=
  ∀ batch ∈ log.stored, ∀ offset, batch.base ≤ offset → offset < batch.base + batch.count →
    lowWatermark ≤ offset → offset < log.partition.highWatermark →
    (∃ before maxBytes, Returns log.partition log.tiers batch before maxBytes) →
      ∃ after, lowWatermark ≤ after ∧ after < partition'.highWatermark ∧
        ∀ maxBytes, Returns partition' tiers' batch after maxBytes

def NoneAcross (log : PartitionLog W) (target : ℤ) : Prop :=
  target < log.partition.highWatermark → ∀ batch ∈ log.stored,
    log.partition.logStartOffset ≤ batch.base →
    log.tiers.logCache.get log.partition.stream.streamId batch.base = some batch.bytes →
    batch.base < target → batch.base + batch.count ≤ target

instance (log : PartitionLog W) (target : ℤ) : Decidable (log.NoneAcross target) :=
  inferInstanceAs (Decidable (target < log.partition.highWatermark → ∀ batch ∈ log.stored,
    log.partition.logStartOffset ≤ batch.base →
    log.tiers.logCache.get log.partition.stream.streamId batch.base = some batch.bytes →
    batch.base < target → batch.base + batch.count ≤ target))

theorem cached_of_returns {part : Partition} {tiers : Tiers W} {batch : StoredBatch}
    {off : ℤ} {limit : ℕ} (hobjs : part.stream.s3Objects = [])
    (h : Returns part tiers batch off limit) :
    part.logStartOffset ≤ batch.base ∧
      tiers.logCache.get part.stream.streamId batch.base = some batch.bytes := by
  obtain ⟨recs, hread, hmem⟩ := h
  obtain ⟨hrange, cached, hcached, hmem⟩ := (mem_readRecords_iff hobjs hread).mp hmem
  obtain ⟨hle, hget⟩ := (LogCache.readRange_eq_some hcached).2 _ hmem
  exact ⟨hrange.1.trans hle, hget⟩

theorem returns_of_cached {partition : Partition} {tiers : Tiers W} {batch : StoredBatch}
    (hstart : partition.logStartOffset ≤ batch.base) (hend : batch.base < partition.highWatermark)
    (hcached : tiers.logCache.get partition.stream.streamId batch.base = some batch.bytes)
    (maxBytes : ℕ) : Returns partition tiers batch batch.base maxBytes := by
  obtain ⟨rest, hfetch⟩ := fetch_of_cached ⟨hstart, hend⟩ hcached maxBytes
  exact ⟨_, by rw [readRecords, hfetch], mem_cons_self⟩

theorem restReadable_moved_iff (hobjs : log.partition.stream.s3Objects = []) (target : ℤ) :
    log.RestReadable (log.partition.startingAt target) (log.partition.trimmedTiers log.tiers target)
        target ↔
      log.NoneAcross target := by
  have hget : ∀ offset, (log.partition.trimmedTiers log.tiers target).logCache.get
      log.partition.stream.streamId offset =
        if offset < target then none
        else log.tiers.logCache.get log.partition.stream.streamId offset := by
    intro offset
    rw [trimmedTiers, LogCache.get_trim]
    simp
  have hobjs' : (log.partition.startingAt target).stream.s3Objects = [] := hobjs
  constructor
  · intro hrest hin batch hb hstart hcached hlt
    by_contra hacross
    -- the record at the new start is in a payload that was readable and is gone
    obtain ⟨after, -, -, hret⟩ := hrest batch hb target hlt.le (not_le.mp hacross)
      le_rfl hin
      ⟨batch.base, 0, returns_of_cached hstart (hlt.trans hin) hcached 0⟩
    obtain ⟨-, hkept⟩ := cached_of_returns hobjs' (hret 0)
    have hgone : (log.partition.trimmedTiers log.tiers target).logCache.get
        log.partition.stream.streamId batch.base = none := by rw [hget, if_pos hlt]
    exact absurd (hgone.symm.trans hkept) (by simp)
  · rintro hnone batch hb offset hlo hhi hkept hin ⟨before, maxBytes, hret⟩
    obtain ⟨hstart, hcached⟩ := cached_of_returns hobjs hret
    have habove : target ≤ batch.base := by
      by_contra hlt
      have hends := hnone (hkept.trans_lt hin) batch hb hstart hcached (not_le.mp hlt)
      omega
    refine ⟨batch.base, habove, hlo.trans_lt hin, fun maxBytes => ?_⟩
    apply returns_of_cached
    · exact habove
    · exact hlo.trans_lt hin
    · exact (hget batch.base).trans (by rw [if_neg (not_lt.mpr habove), hcached])

theorem s3Objects_run [WalEngine W] {pays : List Bytes} {log' : PartitionLog W}
    (hobjs : log.partition.stream.s3Objects = []) (hrun : run append log pays = some log') :
    log'.partition.stream.s3Objects = [] := by
  induction pays generalizing log with
  | nil => exact some.inj hrun ▸ hobjs
  | cons recs pays ih =>
    obtain ⟨mid, happ, hrest⟩ := run_cons_eq_some.mp hrun
    obtain ⟨patched, count, -, hstr, -⟩ := append_cases happ
    exact ih (by rw [hstr]; exact hobjs) hrest

theorem deletion_keeps_rest_iff [WalEngine W] {topicPartition : TopicPartition} {streamId : ℕ}
    {startOffset : ℤ} {tiers : Tiers W} {payloads : List Bytes} {log : PartitionLog W}
    (hrun : run append (fresh topicPartition streamId startOffset tiers) payloads = some log)
    {beforeOffset lowWatermark : ℤ} {partition' : Partition} {tiers' : Tiers W}
    (hdelete : log.partition.deleteRecords log.tiers beforeOffset =
      (partition', tiers', .ok lowWatermark)) :
    log.RestReadable partition' tiers' lowWatermark ↔
      log.NoneAcross (log.partition.deletionTarget beforeOffset) := by
  have hobjs : log.partition.stream.s3Objects = [] := s3Objects_run rfl hrun
  obtain ⟨-, herr⟩ | ⟨-, hstay, hok⟩ | ⟨-, hmove, hok⟩ :=
    log.partition.deleteRecords_cases log.tiers beforeOffset
  · rw [herr] at hdelete
    simp at hdelete
  · rw [hok] at hdelete
    obtain ⟨rfl, rfl, hlow⟩ : _ ∧ _ ∧ _ := by simpa only [Prod.mk.injEq] using hdelete
    cases hlow
    -- nothing has changed, and nothing below the log start was readable
    refine iff_of_true ?_ fun _ batch _ hstart _ hlt => absurd hlt (by omega)
    rintro batch - off hlo hhi - hin ⟨before, maxBytes, hret⟩
    obtain ⟨hstart, hcached⟩ := cached_of_returns hobjs hret
    exact ⟨batch.base, hstart, hlo.trans_lt hin,
      returns_of_cached hstart (hlo.trans_lt hin) hcached⟩
  · rw [hok] at hdelete
    obtain ⟨rfl, rfl, hlow⟩ : _ ∧ _ ∧ _ := by simpa only [Prod.mk.injEq] using hdelete
    cases hlow
    exact restReadable_moved_iff hobjs _

theorem deleteRecords_above_start {target high : ℤ}
    (hstate : (log.partition.logStartOffset, log.partition.highWatermark) = (0, high))
    (hlo : 0 < target) (hhi : target ≤ high) :
    log.partition.deletionTarget target = target ∧
      log.partition.deleteRecords log.tiers target = (log.partition.startingAt target,
        log.partition.trimmedTiers log.tiers target, .ok target) := by
  obtain ⟨hstart, hhigh⟩ := Prod.mk.inj hstate
  have hrange : log.partition.InRange target := Or.inr ⟨hlo.le, by omega⟩
  have htarget : log.partition.deletionTarget target = target := if_neg (by omega)
  obtain ⟨hout, -⟩ | ⟨-, hstay, -⟩ | ⟨-, -, hok⟩ :=
    log.partition.deleteRecords_cases log.tiers target
  · exact absurd hrange hout
  · omega
  · rw [htarget] at hok
    exact ⟨htarget, hok⟩

theorem deletion_takes_next_record :
    ∃ (log : PartitionLog MemoryWal) (partition' : Partition) (tiers' : Tiers MemoryWal),
      run append (fresh ⟨"orders", 0⟩ 1 0 emptyTiers) [headerOnly 1] = some log ∧
      log.partition.deleteRecords log.tiers 1 = (partition', tiers', .ok 1) ∧
      ¬log.RestReadable partition' tiers' 1 := by
  have hend : (run append (fresh ⟨"orders", 0⟩ 1 0 emptyTiers) [headerOnly 1]).map (fun log =>
      ((log.partition.logStartOffset, log.partition.highWatermark),
        decide (log.NoneAcross 1))) = some ((0, 2), false) := by
    decide +kernel
  obtain ⟨log, hrun, hlog⟩ := Option.map_eq_some_iff.mp hend
  obtain ⟨hstate, hacross⟩ := Prod.mk.inj hlog
  obtain ⟨-, hdelete⟩ := deleteRecords_above_start hstate one_pos (by decide)
  refine ⟨log, _, _, hrun, hdelete, fun hrest => of_decide_eq_false hacross ?_⟩
  exact (restReadable_moved_iff (s3Objects_run rfl hrun) 1).mp hrest

theorem deletion_keeps_rest_boundary :
    ∃ (log : PartitionLog MemoryWal) (partition' : Partition) (tiers' : Tiers MemoryWal),
      run append (fresh ⟨"orders", 0⟩ 1 0 emptyTiers) [headerOnly 1, headerOnly 0] = some log ∧
      log.partition.deleteRecords log.tiers 2 = (partition', tiers', .ok 2) ∧
      log.RestReadable partition' tiers' 2 := by
  have hend : (run append (fresh ⟨"orders", 0⟩ 1 0 emptyTiers) [headerOnly 1, headerOnly 0]).map
      (fun log => ((log.partition.logStartOffset, log.partition.highWatermark),
        decide (log.NoneAcross 2))) = some ((0, 3), true) := by
    decide +kernel
  obtain ⟨log, hrun, hlog⟩ := Option.map_eq_some_iff.mp hend
  obtain ⟨hstate, hacross⟩ := Prod.mk.inj hlog
  obtain ⟨htarget, hdelete⟩ := deleteRecords_above_start hstate two_pos (by decide)
  refine ⟨log, _, _, hrun, hdelete, (deletion_keeps_rest_iff hrun hdelete).mpr ?_⟩
  rw [htarget]
  exact of_decide_eq_true hacross

end PartitionLog

/-- The count of a patched payload is an `i64`. -/
def Phase.CountFits : Phase → Prop
  | .patched call | .noted call => call.count < 2 ^ 63
  | _ => True

namespace Appends

variable {s : Appends W}

/-- The offsets that a step takes from the partition: `fetch_add` is the only step that takes any.
-/
def taken (s : Appends W) : AppendAction → ℤ
  | .call _ _ => 0
  | .step caller =>
      match s.phase caller with
      | .noted call => max call.count 1
      | _ => 0

theorem taken_bounds (hcnts : ∀ c, (s.phase c).CountFits) (act : AppendAction) :
    0 ≤ s.taken act ∧ s.taken act < 2 ^ 63 := by
  cases act with
  | call c recs => exact ⟨le_rfl, show (0 : ℤ) < 2 ^ 63 by decide⟩
  | step c =>
    have hcnt := hcnts c
    rw [taken]
    split
    · rename_i call hp
      rw [hp] at hcnt
      exact ⟨le_max_of_le_right zero_le_one, max_lt hcnt (by decide)⟩
    · exact ⟨le_rfl, by decide⟩

structure Moves (s s' : Appends W) (count : ℤ) : Prop where
  start : s'.partition.logStartOffset = s.partition.logStartOffset
  high : s'.partition.highWatermark = wrapSigned 64 (s.partition.highWatermark + count)
  counts : (∀ caller, (s.phase caller).CountFits) → ∀ caller, (s'.phase caller).CountFits

theorem Moves.of_quiet {s' : Appends W} (hfits : FitsSigned 64 s.partition.highWatermark)
    {c : ℕ} {p : Phase} (hp : s'.phase = Function.update s.phase c p)
    (hstr : s'.partition.stream = s.partition.stream)
    (hcnt : (s.phase c).CountFits → p.CountFits) : Moves s s' 0 := by
  refine ⟨congrArg startOffset hstr, ?_, fun hcnts => ?_⟩
  · rw [add_zero, wrapSigned_of_fits (by norm_num) hfits]
    exact congrArg nextOffset hstr
  · rw [hp]
    exact (Function.forall_update_iff s.phase fun _ q => q.CountFits).mpr
      ⟨hcnt (hcnts c), fun other _ => hcnts other⟩

theorem moves_step [WalEngine W] {s' : Appends W} {c : ℕ}
    (hfits : FitsSigned 64 s.partition.highWatermark) (hstep : s.step c = some s') :
    Moves s s' (s.taken (.step c)) := by
  unfold step stepFrom at hstep
  unfold taken
  cases hp : s.phase c with
  | idle => simp [hp] at hstep
  | waiting recs =>
    simp only [hp] at hstep ⊢
    split at hstep
    · cases hstep
      exact Moves.of_quiet hfits rfl rfl fun _ => trivial
    · simp at hstep
  | locked recs =>
    simp only [hp] at hstep ⊢
    cases hstep
    exact Moves.of_quiet hfits rfl rfl fun _ => trivial
  | offsetRead recs base =>
    simp only [hp] at hstep ⊢
    obtain ⟨⟨bytes, count⟩, hpat, rfl⟩ := map_eq_some_iff.mp hstep
    exact Moves.of_quiet hfits rfl rfl fun _ => patchRecordBatches_lt hpat
  | patched call =>
    simp only [hp] at hstep ⊢
    cases hstep
    refine Moves.of_quiet hfits rfl (noteTransaction_stream _ _ _) ?_
    rw [hp]
    exact id
  | noted call =>
    simp only [hp] at hstep ⊢
    cases hstep
    refine ⟨rfl, rfl, fun hcnts => ?_⟩
    exact (Function.forall_update_iff s.phase fun _ q => q.CountFits).mpr
      ⟨trivial, fun other _ => hcnts other⟩
  | advanced call off =>
    simp only [hp] at hstep ⊢
    split at hstep
    all_goals
      rename_i appends _ hlog
      cases hstep
      obtain rfl := congrArg Prod.fst hlog
      exact Moves.of_quiet hfits rfl rfl fun _ => trivial
  | logged call off =>
    simp only [hp] at hstep ⊢
    cases hstep
    exact Moves.of_quiet hfits rfl rfl fun _ => trivial
  | finished call res =>
    simp only [hp] at hstep ⊢
    cases hstep
    exact Moves.of_quiet hfits rfl rfl fun _ => trivial
  | returned call res => simp [hp] at hstep

theorem moves_exec [WalEngine W] {s' : Appends W} {act : AppendAction}
    (hfits : FitsSigned 64 s.partition.highWatermark) (hexec : s.exec act = some s') :
    Moves s s' (s.taken act) := by
  cases act with
  | step c => exact moves_step hfits hexec
  | call c recs =>
    cases hp : s.phase c with
    | idle =>
      simp only [exec, hp] at hexec
      cases hexec
      exact Moves.of_quiet hfits rfl rfl fun _ => trivial
    | _ => simp [exec, hp] at hexec

end Appends

structure DeleteCall where
  beforeOffset : ℤ
  hw : ℤ
  deriving DecidableEq, Repr

def DeleteCall.targetOffset (call : DeleteCall) : ℤ :=
  if call.beforeOffset = -1 then call.hw else call.beforeOffset

inductive DeletePhase where
  | entered (beforeOffset : ℤ)
  | checked (call : DeleteCall)
  | advancing (call : DeleteCall)
  | looping (call : DeleteCall) (current : ℤ)
  | swapped (call : DeleteCall)
  | returned (call : DeleteCall) (lowWatermark : ℤ)
  | refused
  deriving DecidableEq, Repr

structure Deletions (W : Type) where
  appends : Appends W
  calls : List DeletePhase

inductive DeletionAction where
  | append (action : AppendAction)
  | delete (beforeOffset : ℤ)
  | step (index : ℕ) (spurious : Bool)

namespace Deletions

def quiet (partition : Partition) (tiers : Tiers W) : Deletions W :=
  ⟨⟨partition, tiers, none, fun _ => .idle, [], [], []⟩, []⟩

def start (s : Deletions W) : ℤ := s.appends.partition.logStartOffset

def high (s : Deletions W) : ℤ := s.appends.partition.highWatermark

def setCall (s : Deletions W) (index : ℕ) (p : DeletePhase) : Deletions W :=
  { s with calls := s.calls.set index p }

def setStart (s : Deletions W) (offset : ℤ) : Deletions W :=
  { s with appends := { s.appends with partition := s.appends.partition.startingAt offset } }

def trimCache (s : Deletions W) (offset : ℤ) : Deletions W :=
  { s with
    appends := { s.appends with
      tiers := s.appends.partition.trimmedTiers s.appends.tiers offset } }

def stepFrom (s : Deletions W) (index : ℕ) (spurious : Bool) : DeletePhase → Option (Deletions W)
  | .entered beforeOffset =>
      let hw := s.high
      if beforeOffset ≠ -1 ∧ (beforeOffset < 0 ∨ beforeOffset > hw) then
        some (s.setCall index .refused)
      else some (s.setCall index (.checked ⟨beforeOffset, hw⟩))
  | .checked call =>
      let currentStart := s.start
      if call.targetOffset ≤ currentStart then
        some (s.setCall index (.returned call currentStart))
      else some (s.setCall index (.advancing call))
  | .advancing call => some (s.setCall index (.looping call s.start))
  | .looping call current =>
      if call.targetOffset > current then
        -- a failed swap hands back the value it found, also when it failed spuriously
        let actual := s.start
        if actual = current ∧ spurious = false then
          some ((s.setStart call.targetOffset).setCall index (.swapped call))
        else some (s.setCall index (.looping call actual))
      else some (s.setCall index (.returned call current))
  | .swapped call =>
      some ((s.trimCache call.targetOffset).setCall index (.returned call call.targetOffset))
  | .returned _ _ | .refused => none

def exec [WalEngine W] (s : Deletions W) : DeletionAction → Option (Deletions W)
  | .append action => (s.appends.exec action).map fun appends => { s with appends := appends }
  | .delete beforeOffset => some { s with calls := s.calls ++ [.entered beforeOffset] }
  | .step index spurious => (s.calls[index]?).bind (s.stepFrom index spurious)

end Deletions

def DeletePhase.Bounded (start high : ℤ) : DeletePhase → Prop
  | .entered _ | .refused => True
  | .checked call | .advancing call => call.targetOffset ≤ high
  | .looping call current => call.targetOffset ≤ high ∧ current ≤ start
  | .swapped call => call.targetOffset ≤ start
  | .returned call lowWatermark => call.targetOffset ≤ lowWatermark ∧ lowWatermark ≤ start

theorem DeletePhase.Bounded.mono {start start' high high' : ℤ} (hstart : start ≤ start')
    (hhigh : high ≤ high') {p : DeletePhase} (h : p.Bounded start high) :
    p.Bounded start' high' := by
  cases p with
  | entered before => trivial
  | checked call => exact h.trans hhigh
  | advancing call => exact h.trans hhigh
  | looping call current => exact ⟨h.1.trans hhigh, h.2.trans hstart⟩
  | swapped call => exact h.trans hstart
  | returned call lowWatermark => exact ⟨h.1, h.2.trans hstart⟩
  | refused => trivial

namespace Deletions

variable {s s' : Deletions W} {index : ℕ} {p : DeletePhase} {action : DeletionAction}

structure Progress (s s' : Deletions W) (p p' : DeletePhase) : Prop where
  high : s'.high = s.high
  appending : s'.appends.phase = s.appends.phase
  start : s.start ≤ s'.start
  ordered : p.Bounded s.start s.high → s.start ≤ s.high → s'.start ≤ s.high
  bounded : p.Bounded s.start s.high → p'.Bounded s'.start s.high
  refused : p' = .refused → (∃ beforeOffset, p = .entered beforeOffset) ∧ s'.appends = s.appends

theorem Progress.of_read {p' : DeletePhase}
    (hbd : p.Bounded s.start s.high → p'.Bounded s.start s.high)
    (href : p' = .refused → ∃ before, p = .entered before) :
    Progress s (s.setCall index p') p p' :=
  ⟨rfl, rfl, le_rfl, fun _ hord => hord, hbd, fun h => ⟨href h, rfl⟩⟩

theorem stepFrom_eq_some {spurious : Bool} (h : s.stepFrom index spurious p = some s') :
    ∃ p', s'.calls = s.calls.set index p' ∧ Progress s s' p p' := by
  cases p with
  | entered before =>
    rw [stepFrom] at h
    split at h
    · cases h
      exact ⟨_, rfl, .of_read (fun _ => trivial) fun _ => ⟨before, rfl⟩⟩
    · rename_i hrange
      cases h
      refine ⟨_, rfl, .of_read (fun _ => ?_) nofun⟩
      show DeleteCall.targetOffset ⟨before, s.high⟩ ≤ s.high
      rw [DeleteCall.targetOffset]
      dsimp only
      split <;> omega
  | checked call =>
    rw [stepFrom] at h
    split at h
    · rename_i hreach
      cases h
      exact ⟨_, rfl, .of_read (fun _ => ⟨hreach, le_rfl⟩) nofun⟩
    · cases h
      exact ⟨_, rfl, .of_read id nofun⟩
  | advancing call =>
    cases h
    exact ⟨_, rfl, .of_read (fun hbd => ⟨hbd, le_rfl⟩) nofun⟩
  | looping call current =>
    rw [stepFrom] at h
    dsimp only at h
    split at h
    · rename_i hlt
      split at h
      · rename_i hcur
        cases h
        -- the value in hand is still the log start, so the swap moves it up
        refine ⟨_, rfl, rfl, rfl, ?_, fun hbd _ => hbd.1, fun _ => ?_, nofun⟩
        · show s.start ≤ call.targetOffset
          omega
        · exact le_refl call.targetOffset
      · cases h
        exact ⟨_, rfl, .of_read (fun hbd => ⟨hbd.1, le_rfl⟩) nofun⟩
    · rename_i hreach
      cases h
      exact ⟨_, rfl, .of_read (fun hbd => ⟨not_lt.mp hreach, hbd.2⟩) nofun⟩
  | swapped call =>
    cases h
    exact ⟨_, rfl, rfl, rfl, le_rfl, fun _ hord => hord, fun hbd => ⟨le_rfl, hbd⟩, nofun⟩
  | returned call lowWatermark => cases h
  | refused => cases h

structure Inv (s : Deletions W) : Prop where
  fits : FitsSigned 64 s.high
  nonneg : 0 ≤ s.start
  ordered : s.start ≤ s.high
  counts : ∀ caller, (s.appends.phase caller).CountFits
  bounded : ∀ p ∈ s.calls, p.Bounded s.start s.high

/-- The end of the log stays in the `i64` range. -/
def NoOverflow (s : Deletions W) : DeletionAction → Prop
  | .append action => s.high + s.appends.taken action < 2 ^ 63
  | .delete _ | .step _ _ => True

instance (s : Deletions W) : (action : DeletionAction) → Decidable (s.NoOverflow action)
  | .append action => inferInstanceAs (Decidable (s.high + s.appends.taken action < 2 ^ 63))
  | .delete _ => inferInstanceAs (Decidable True)
  | .step _ _ => inferInstanceAs (Decidable True)

theorem inv_quiet {part : Partition} (tiers : Tiers W) (hfit : part.OffsetsFit)
    (hord : part.logStartOffset ≤ part.highWatermark) :
    Inv (quiet part tiers) :=
  ⟨hfit.next, hfit.start, hord, fun _ => trivial, forall_mem_nil _⟩

theorem inv_exec [WalEngine W] (hs : Inv s) (hroom : s.NoOverflow action)
    (hexec : s.exec action = some s') : Inv s' := by
  cases action with
  | append action =>
    obtain ⟨appends, happ, rfl⟩ := map_eq_some_iff.mp hexec
    obtain ⟨hstart, hhigh, hcnts⟩ := Appends.moves_exec hs.fits happ
    obtain ⟨htake, hlt⟩ := Appends.taken_bounds hs.counts action
    obtain ⟨-, hsum⟩ | ⟨hover, -⟩ := wrapSigned_add_cases hs.fits htake hlt
    swap
    · exact absurd hroom (not_lt.mpr hover)
    have hup : s.high ≤ appends.partition.highWatermark := by
      rw [hhigh.trans hsum]
      exact le_add_of_nonneg_right htake
    refine ⟨?_, hs.nonneg.trans_eq hstart.symm, ?_, hcnts hs.counts, ?_⟩
    · show FitsSigned 64 appends.partition.highWatermark
      rw [hhigh]
      exact wrapSigned_fits (by decide) _
    · show appends.partition.logStartOffset ≤ _
      rw [hstart]
      exact hs.ordered.trans hup
    · exact fun p hp => (hs.bounded p hp).mono hstart.ge hup
  | delete before =>
    cases hexec
    refine ⟨hs.fits, hs.nonneg, hs.ordered, hs.counts, ?_⟩
    exact forall_mem_append.mpr ⟨hs.bounded, forall_mem_singleton.mpr trivial⟩
  | step index spurious =>
    obtain ⟨p, hcall, hstep⟩ := bind_eq_some_iff.mp hexec
    obtain ⟨p', hcalls, hprog⟩ := stepFrom_eq_some hstep
    -- the high watermark may have moved on since this call read it, but only up
    have hp := hs.bounded p (mem_of_getElem? hcall)
    refine ⟨hprog.high ▸ hs.fits, hs.nonneg.trans hprog.start, ?_, ?_, ?_⟩
    · rw [hprog.high]
      exact hprog.ordered hp hs.ordered
    · rw [hprog.appending]
      exact hs.counts
    · intro q hq
      rw [hcalls] at hq
      rw [hprog.high]
      rcases mem_or_eq_of_mem_set hq with hold | rfl
      · exact (hs.bounded q hold).mono hprog.start le_rfl
      · exact hprog.bounded hp

theorem high_lt_start_of_overflow [WalEngine W] (hs : Inv s) (hover : ¬s.NoOverflow action)
    (hexec : s.exec action = some s') :
    s'.high < s'.start := by
  cases action with
  | append action =>
    obtain ⟨appends, happ, rfl⟩ := map_eq_some_iff.mp hexec
    obtain ⟨hstart, hhigh, -⟩ := Appends.moves_exec hs.fits happ
    obtain ⟨htake, hlt⟩ := Appends.taken_bounds hs.counts action
    obtain ⟨hroom, -⟩ | ⟨-, hsum⟩ := wrapSigned_add_cases hs.fits htake hlt
    · exact absurd hroom hover
    · have hhi : s.high < 2 ^ 63 := hs.fits.2
      have hnonneg := hs.nonneg
      show appends.partition.highWatermark < appends.partition.logStartOffset
      rw [hstart, hhigh.trans hsum]
      show s.high + s.appends.taken action - 2 ^ 64 < s.start
      omega
  | delete before => exact absurd trivial hover
  | step index spurious => exact absurd trivial hover

structure Sound (s : Deletions W) : Prop where
  ordered : s.start ≤ s.high
  returned : ∀ call lowWatermark, .returned call lowWatermark ∈ s.calls →
    call.targetOffset ≤ lowWatermark ∧ lowWatermark ≤ s.start ∧
      ∀ offset < lowWatermark, ∀ maxBytes,
        (s.appends.partition.readRecords s.appends.tiers offset maxBytes).2 = .ok []

structure Steady (s s' : Deletions W) : Prop where
  start : s.start ≤ s'.start
  refused : ∀ index : ℕ, s'.calls[index]? = some .refused → s.calls[index]? = some .refused ∨
    (∃ beforeOffset, s.calls[index]? = some (.entered beforeOffset)) ∧ s'.appends = s.appends

theorem Inv.sound (hs : Inv s) : Sound s := by
  refine ⟨hs.ordered, fun call lowWatermark hreturned => ?_⟩
  obtain ⟨htarget, hlow⟩ := hs.bounded _ hreturned
  refine ⟨htarget, hlow, fun off hlt limit => ?_⟩
  have hstart : off < s.appends.partition.stream.startOffset := hlt.trans_le hlow
  rw [readRecords, fetch, if_pos (Or.inl hstart)]

theorem sound_exec_iff [WalEngine W] (hs : Inv s) (hexec : s.exec action = some s') :
    Sound s' ↔ s.NoOverflow action := by
  constructor
  · intro hsound
    by_contra hover
    exact absurd hsound.ordered (not_le.mpr (high_lt_start_of_overflow hs hover hexec))
  · exact fun hroom => (inv_exec hs hroom hexec).sound

theorem steady_exec [WalEngine W] (hs : Inv s) (hexec : s.exec action = some s') : Steady s s' := by
  cases action with
  | append action =>
    obtain ⟨appends, happ, rfl⟩ := map_eq_some_iff.mp hexec
    exact ⟨(Appends.moves_exec hs.fits happ).start.ge, fun _ h => Or.inl h⟩
  | delete before =>
    cases hexec
    refine ⟨le_rfl, fun index href => Or.inl ?_⟩
    have hmem : (s.calls ++ [.entered before])[index]? = some .refused := href
    rw [getElem?_append] at hmem
    split at hmem
    · exact hmem
    · rw [getElem?_singleton] at hmem
      split at hmem <;> cases hmem
  | step index spurious =>
    obtain ⟨p, hcall, hstep⟩ := bind_eq_some_iff.mp hexec
    obtain ⟨p', hcalls, hprog⟩ := stepFrom_eq_some hstep
    refine ⟨hprog.start, fun other href => ?_⟩
    rw [hcalls, getElem?_set] at href
    split at href
    · rename_i hsame
      subst hsame
      split at href
      · obtain ⟨⟨before, rfl⟩, happends⟩ := hprog.refused (some.inj href)
        exact Or.inr ⟨⟨before, hcall⟩, happends⟩
      · cases href
    · exact Or.inl href

theorem deletions_sound_iff [WalEngine W] {partition : Partition} {tiers : Tiers W}
    (hfit : partition.OffsetsFit) (hordered : partition.logStartOffset ≤ partition.highWatermark)
    {actions : List DeletionAction} {t : Deletions W}
    (hrun : run exec (quiet partition tiers) actions = some t) :
    ((∀ front, front <+: actions → ∀ s, run exec (quiet partition tiers) front = some s → Sound s) ∧
      Along exec (fun s action => ∀ s', s.exec action = some s' → Steady s s')
        (quiet partition tiers) actions) ↔
      Along exec NoOverflow (quiet partition tiers) actions := by
  have hs : Inv (quiet partition tiers) := inv_quiet tiers hfit hordered
  have hstates : (∀ front, front <+: actions → ∀ s,
      run exec (quiet partition tiers) front = some s → Sound s) ↔
        Along exec NoOverflow (quiet partition tiers) actions :=
    reached_iff_along
      (fun s a s' hs hexec hsound => inv_exec hs ((sound_exec_iff hs hexec).mp hsound) hexec)
      (fun s a s' hs _ hexec => sound_exec_iff hs hexec) hs hs.sound hrun
  rw [hstates]
  -- the steps are steady wherever the invariant holds, so they add no condition
  refine ⟨And.left, fun hroom => ⟨hroom, ?_⟩⟩
  have hinv := hroom.invariant (fun _ _ _ hs hroom hexec => inv_exec hs hroom hexec) hs
  exact hinv.imp fun s action h s' hexec => steady_exec h.1 hexec

def twoRecords : Partition :=
  { newPartition with stream := { newPartition.stream with nextOffset := 2 } }

def racingDeletions : List DeletionAction :=
  [.delete 1, .delete (-1), .delete 9, .step 0 false, .step 0 false, .step 0 false,
    .step 1 false, .step 1 false, .step 1 false, .step 1 true, .append (.call 8 [1]),
    .step 1 false, .step 0 false, .step 2 false, .step 0 false, .step 1 false]

theorem deletions_sound_racing : ∃ s : Deletions MemoryWal,
      run exec (quiet twoRecords PartitionLog.emptyTiers) racingDeletions = some s ∧
      s.calls = [.returned ⟨1, 2⟩ 2, .returned ⟨-1, 2⟩ 2, .refused] ∧ s.start = 2 ∧ Sound s := by
  have hend : (run exec (quiet twoRecords PartitionLog.emptyTiers) racingDeletions).map
      (fun s => (s.calls, s.start)) =
        some ([.returned ⟨1, 2⟩ 2, .returned ⟨-1, 2⟩ 2, .refused], 2) := by
    decide +kernel
  obtain ⟨s, hrun, heq⟩ := Option.map_eq_some_iff.mp hend
  obtain ⟨hcalls, hstart⟩ := Prod.mk.inj heq
  have hroom : Along exec NoOverflow (quiet twoRecords PartitionLog.emptyTiers)
      racingDeletions := by
    decide +kernel
  have hsound := (deletions_sound_iff ⟨le_rfl, by decide⟩ (by decide) hrun).mpr hroom
  exact ⟨s, hrun, hcalls, hstart, hsound.1 _ List.prefix_rfl s hrun⟩

theorem append_wraps_below_start : ∃ s : Deletions MemoryWal,
      run exec (quiet (Partition.new ⟨"orders", 0⟩ (S3Stream.new 1 (2 ^ 63 - 1)))
          PartitionLog.emptyTiers)
        (.append (.call 7 []) :: List.replicate 5 (.append (.step 7))) = some s ∧
      s.start = 2 ^ 63 - 1 ∧ s.high = -2 ^ 63 ∧ ¬Sound s := by
  have hend : (run exec (quiet (new ⟨"orders", 0⟩ (S3Stream.new 1 (2 ^ 63 - 1)))
      PartitionLog.emptyTiers)
        (.append (.call 7 []) :: List.replicate 5 (.append (.step 7)))).map
          (fun s => (s.start, s.high)) = some (2 ^ 63 - 1, -2 ^ 63) := by
    decide +kernel
  obtain ⟨s, hrun, heq⟩ := Option.map_eq_some_iff.mp hend
  obtain ⟨hstart, hhigh⟩ := Prod.mk.inj heq
  refine ⟨s, hrun, hstart, hhigh, fun hsound => ?_⟩
  have hord := hsound.ordered
  rw [hstart, hhigh] at hord
  exact absurd hord (by decide)

end Deletions

end OxideMq.Broker
