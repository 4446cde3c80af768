import OxideMq.Stream.Readability
import OxideMq.Wal.GroupCommit
import OxideMq.Wal.Reconcile

/-! Recovery of streams from their log. -/

namespace OxideMq.Stream

open Lib OxideMq.Core OxideMq.Wal WalRecovery List Option HashMap UInt64

structure RecordLog where
  requests : List AppendRequest

namespace RecordLog

def request (streamId : ℕ) (offset : ℤ) (payload : Bytes) : AppendRequest :=
  ⟨UInt64.ofNat streamId, Int64.ofInt offset, payload⟩

instance : WalEngine RecordLog where
  append log streamId offset payload :=
    (⟨log.requests ++ [request streamId offset payload]⟩, .ok (log.requests.length + 1))
  trim log _ _ := (log, .ok ())

def records (log : RecordLog) : List WalRecord := FileWal.assignSeqs 1 log.requests

theorem offsets_ofStream (sid : UInt64) (seq : UInt64) (reqs : List AppendRequest) :
    (ofStream sid (FileWal.assignSeqs seq reqs)).map (fun r => r.offset.toInt) =
      (reqs.filter fun r => r.streamId = sid).map fun r => r.offset.toInt := by
  induction reqs generalizing seq with
  | nil => rfl
  | cons first reqs ih =>
    rw [FileWal.assignSeqs, ofStream, filter_cons, filter_cons]
    show (if decide (first.streamId = sid) then _ else _ : List WalRecord).map _ = _
    split
    · rw [map_cons, map_cons]
      exact congrArg _ (ih (seq + 1))
    · exact ih (seq + 1)

end RecordLog

namespace System

variable {streamId : ℕ} {sys : System RecordLog}

def next (sys : System RecordLog) (streamId : ℕ) : ℤ :=
  (sys.streams.lookup streamId).elim 0 S3Stream.nextOffset

def taken (sys : System RecordLog) (streamId : ℕ) : List ℤ :=
  ((sys.reserved.filter fun call => call.streamId = streamId).map Call.offset) ++
    (sys.tiers.wal.requests.filter fun r => r.streamId = UInt64.ofNat streamId).map
      fun r => r.offset.toInt

/-- The actions of appending: streams that start at zero, and the steps of `append_with_count`. -/
def Appending : SystemAction → Prop
  | .create streamId startOffset => streamId < 2 ^ 64 ∧ startOffset = 0
  | .reserve _ _ _ => True
  | .log _ => True
  | .finish _ => True
  | _ => False

def OffsetFits (streamId : ℕ) (sys : System RecordLog) : SystemAction → Prop
  | .reserve streamId' _ recordCount =>
      streamId' = streamId → sys.next streamId + max recordCount 1 ≤ i64Max
  | _ => True

def SingleRecord (streamId : ℕ) : SystemAction → Prop
  | .reserve streamId' _ recordCount => streamId' = streamId → recordCount ≤ 1
  | _ => True

structure Agrees (dir : Directory) (sys : System RecordLog) (streamId : ℕ) : Prop where
  watermark : ∃ wm, (WalRecovery.recover dir).1.streamWatermarks.lookup
      (UInt64.ofNat streamId) = some wm ∧ wm.nextOffset.toInt = sys.next streamId
  reconciled : ∀ ends : HashMap UInt64 Int64, ends.lookup (UInt64.ofNat streamId) = some 0 →
    ∃ kept, (WalRecovery.reconcileStreamRecords sys.tiers.wal.records ends).lookup
        (UInt64.ofNat streamId) = some kept ∧
      ∀ r ∈ WalRecovery.ofStream (UInt64.ofNat streamId) sys.tiers.wal.records, r ∈ kept

structure Known (sys : System RecordLog) : Prop where
  streams : ∀ streamId stream, sys.streams.lookup streamId = some stream → streamId < 2 ^ 64
  reserved : ∀ call ∈ sys.reserved, call.streamId < 2 ^ 64

theorem known_exec (sys : System RecordLog) (act : SystemAction) (sys' : System RecordLog)
    (h : Known sys) (happ : Appending act) (hexec : exec sys act = some sys') :
    Known sys' := by
  cases act with
  | create streamId start =>
    simp only [exec, ite_none_right_eq_some, some.injEq] at hexec
    obtain ⟨-, rfl⟩ := hexec
    refine ⟨fun sid' str hl => ?_, h.reserved⟩
    rw [lookup_insert_ite] at hl
    split at hl
    · rename_i hid
      rw [hid]
      exact happ.1
    · exact h.streams sid' str hl
  | reserve streamId payload cnt =>
    obtain ⟨str, hstr, rfl⟩ := map_eq_some_iff.mp hexec
    have hid := h.streams streamId str hstr
    refine ⟨fun sid' str' hl => ?_, forall_mem_cons.mpr ⟨hid, h.reserved⟩⟩
    dsimp only at hl
    rw [lookup_insert_ite] at hl
    split at hl
    · rename_i hsame
      rw [hsame]
      exact hid
    · exact h.streams sid' str' hl
  | log call =>
    simp only [exec, WalEngine.append, ite_none_right_eq_some, some.injEq] at hexec
    obtain ⟨-, rfl⟩ := hexec
    exact ⟨h.streams, fun c hc => h.reserved c (mem_of_mem_erase hc)⟩
  | finish call =>
    simp only [exec, ite_none_right_eq_some, some.injEq] at hexec
    obtain ⟨-, rfl⟩ := hexec
    exact ⟨h.streams, h.reserved⟩
  | upload => exact happ.elim
  | fetch => exact happ.elim
  | reorder => exact happ.elim

structure Numbered (streamId : ℕ) (sys : System RecordLog) : Prop where
  known : Known sys
  distinct : (sys.taken streamId).Nodup
  within : ∀ o ∈ sys.taken streamId, 0 ≤ o ∧ o < sys.next streamId
  count : ((sys.taken streamId).length : ℤ) ≤ sys.next streamId
  fits : sys.next streamId ≤ i64Max

theorem numbered_init (sid cacheBytes blockCacheBytes : ℕ) :
    Numbered sid (init ⟨[]⟩ cacheBytes blockCacheBytes) :=
  ⟨⟨fun _ _ h => by simp [init] at h, forall_mem_nil _⟩, nodup_nil,
    forall_mem_nil _, le_rfl, show (0 : ℤ) ≤ i64Max by decide⟩

theorem taken_log {call : Call} (h : Numbered streamId sys) (hid : streamId < 2 ^ 64)
    (hcall : call ∈ sys.reserved) :
    List.Perm (((sys.reserved.erase call).filter fun c => c.streamId = streamId).map Call.offset ++
        ((sys.tiers.wal.requests ++
          [RecordLog.request call.streamId call.offset call.payload]).filter
            fun r => r.streamId = ofNat streamId).map fun r => r.offset.toInt)
      (sys.taken streamId) := by
  have hsplit : List.Perm (sys.reserved.filter fun c => c.streamId = streamId)
      ((call :: sys.reserved.erase call).filter fun c => c.streamId = streamId) :=
    (perm_cons_erase hcall).filter _
  rw [filter_append, map_append, taken]
  by_cases hsame : call.streamId = streamId
  · have hmem : call.offset ∈ sys.taken streamId := by
      refine mem_append_left _ (mem_map.mpr ⟨call, ?_, rfl⟩)
      exact mem_filter.mpr ⟨hcall, decide_eq_true hsame⟩
    have hoff : (Int64.ofInt call.offset).toInt = call.offset := by
      obtain ⟨hlo, hhi⟩ := h.within call.offset hmem
      have hfits := h.fits
      apply Int64.toInt_ofInt_of_le
      · omega
      · simp only [i64Max] at hfits
        omega
    have hnew : ([RecordLog.request call.streamId call.offset call.payload].filter
        fun r => r.streamId = ofNat streamId).map (fun r => r.offset.toInt) = [call.offset] := by
      simp [RecordLog.request, hsame, hoff]
    rw [hnew]
    rw [filter_cons_of_pos (by simpa using hsame)] at hsplit
    refine List.Perm.trans ?_ ((hsplit.map Call.offset).append_right _).symm
    rw [map_cons, cons_append, ← append_assoc]
    exact perm_append_singleton _ _
  · have hword : ofNat call.streamId ≠ ofNat streamId := by
      intro heq
      have hnat := congrArg toNat heq
      rw [toNat_ofNat', toNat_ofNat',
        Nat.mod_eq_of_lt (h.known.reserved call hcall), Nat.mod_eq_of_lt hid] at hnat
      exact hsame hnat
    have hnew : [RecordLog.request call.streamId call.offset call.payload].filter
        (fun r => r.streamId = ofNat streamId) = [] := by
      simp [RecordLog.request, hword]
    rw [hnew, map_nil, append_nil]
    rw [filter_cons_of_neg (by simpa using hsame)] at hsplit
    exact ((hsplit.map Call.offset).append_right _).symm

theorem exec_taken {sys' : System RecordLog} {act : SystemAction} (h : Numbered streamId sys)
    (hid : streamId < 2 ^ 64) (happ : Appending act) (hfits : OffsetFits streamId sys act)
    (hexec : exec sys act = some sys') :
    (sys'.next streamId = sys.next streamId ∧
      (sys'.taken streamId).Perm (sys.taken streamId) ∧ SingleRecord streamId act) ∨
    ∃ payload cnt, act = .reserve streamId payload cnt ∧
      sys'.next streamId = sys.next streamId + max cnt 1 ∧
      sys'.taken streamId = sys.next streamId :: sys.taken streamId := by
  cases act with
  | create sid' start =>
    simp only [exec, ite_none_right_eq_some, some.injEq] at hexec
    obtain ⟨⟨hnew, -⟩, rfl⟩ := hexec
    refine Or.inl ⟨?_, List.Perm.refl _, trivial⟩
    rw [next, lookup_insert_ite, next]
    split
    · rename_i hsame
      rw [hsame, isNone_iff_eq_none.mp hnew]
      exact happ.2
    · rfl
  | reserve sid' payload cnt =>
    obtain ⟨str, hstr, rfl⟩ := map_eq_some_iff.mp hexec
    by_cases hsame : sid' = streamId
    · subst hsame
      have hnext : sys.next sid' = str.nextOffset := by rw [next, hstr]; rfl
      have hmax := hfits rfl
      have hcnt := h.count
      have hwrap : wrapSigned 64 (str.nextOffset + max cnt 1) = str.nextOffset + max cnt 1 := by
        apply wrapSigned_of_fits (by decide)
        simp only [FitsSigned, i64Max] at hmax ⊢
        omega
      refine Or.inr ⟨payload, cnt, rfl, ?_, ?_⟩
      · rw [next, lookup_insert_ite, if_pos rfl, hnext]
        exact hwrap
      · rw [taken, filter_cons_of_pos (by simp), hnext]
        rfl
    · refine Or.inl ⟨?_, ?_, fun heq => absurd heq hsame⟩
      · rw [next, lookup_insert_ite, if_neg (Ne.symm hsame), next]
      · rw [taken, filter_cons_of_neg (by simpa using hsame)]
        exact List.Perm.refl _
  | log call =>
    simp only [exec, WalEngine.append, ite_none_right_eq_some, some.injEq] at hexec
    obtain ⟨hcall, rfl⟩ := hexec
    exact Or.inl ⟨rfl, taken_log h hid hcall, trivial⟩
  | finish call =>
    simp only [exec, ite_none_right_eq_some, some.injEq] at hexec
    obtain ⟨-, rfl⟩ := hexec
    exact Or.inl ⟨rfl, List.Perm.refl _, trivial⟩
  | upload => exact happ.elim
  | fetch => exact happ.elim
  | reorder => exact happ.elim

theorem numbered_exec (hid : streamId < 2 ^ 64) (sys : System RecordLog) (act : SystemAction)
    (sys' : System RecordLog) (h : Numbered streamId sys)
    (hcond : Appending act ∧ OffsetFits streamId sys act)
    (hexec : exec sys act = some sys') : Numbered streamId sys' := by
  have hknown := known_exec sys act sys' h.known hcond.1 hexec
  obtain ⟨hnext, hperm, -⟩ | ⟨payload, cnt, rfl, hnext, htake⟩ :=
    exec_taken h hid hcond.1 hcond.2 hexec
  · refine ⟨hknown, hperm.nodup_iff.mpr h.distinct, fun o ho => ?_, ?_, ?_⟩
    · rw [hnext]
      exact h.within o (hperm.mem_iff.mp ho)
    · rw [hnext, hperm.length_eq]
      exact h.count
    · rw [hnext]
      exact h.fits
  · have hcnt := h.count
    have hone : 1 ≤ max cnt 1 := le_max_right _ _
    have hfresh : sys.next streamId ∉ sys.taken streamId := fun hmem =>
      lt_irrefl _ (h.within _ hmem).2
    refine ⟨hknown, ?_, ?_, ?_, ?_⟩
    · rw [htake]
      exact nodup_cons.mpr ⟨hfresh, h.distinct⟩
    · intro o ho
      rw [htake] at ho
      rw [hnext]
      rcases mem_cons.mp ho with rfl | ho
      · omega
      · have hwithin := h.within o ho
        omega
    · rw [htake, hnext, length_cons]
      push_cast
      omega
    · rw [hnext]
      exact hcond.2 rfl

def Tight (streamId : ℕ) (sys : System RecordLog) : Prop :=
  ((sys.taken streamId).length : ℤ) = sys.next streamId

theorem tight_exec (hid : streamId < 2 ^ 64) {sys' : System RecordLog} {action : SystemAction}
    (h : Numbered streamId sys) (hcond : Appending action ∧ OffsetFits streamId sys action)
    (hexec : exec sys action = some sys') :
    Tight streamId sys' ↔ Tight streamId sys ∧ SingleRecord streamId action := by
  obtain ⟨hnext, hperm, hsingle⟩ | ⟨payload, recordCount, rfl, hnext, htake⟩ :=
    exec_taken h hid hcond.1 hcond.2 hexec
  · rw [Tight, hnext, hperm.length_eq, Tight]
    exact ⟨fun htight => ⟨htight, hsingle⟩, fun htight => htight.1⟩
  · have hcnt := h.count
    have hsingle : SingleRecord streamId (.reserve streamId payload recordCount) ↔
        recordCount ≤ 1 := ⟨fun hle => hle rfl, fun hle _ => hle⟩
    rw [Tight, htake, hnext, Tight, hsingle, length_cons]
    push_cast
    omega

section Quiet

variable {dir : Directory} {sys : System RecordLog} {streamId : ℕ}

theorem taken_of_quiet (hquiet : ∀ call ∈ sys.reserved, call.streamId ≠ streamId) :
    sys.taken streamId = (ofStream (ofNat streamId)
      sys.tiers.wal.records).map fun r => r.offset.toInt := by
  have hnone : (sys.reserved.filter fun call => call.streamId = streamId) = [] :=
    filter_eq_nil_iff.mpr fun call hcall => by simpa using hquiet call hcall
  rw [taken, hnone, RecordLog.records, RecordLog.offsets_ofStream]
  rfl

theorem agrees_iff_tight (h : Numbered streamId sys)
    (hquiet : ∀ call ∈ sys.reserved, call.streamId ≠ streamId)
    (hlogged : ofStream (ofNat streamId) sys.tiers.wal.records ≠ [])
    (hdir : recoveredRecords dir = sys.tiers.wal.records) :
    Agrees dir sys streamId ↔ Tight streamId sys := by
  have htake := taken_of_quiet hquiet
  have hdist := h.distinct
  have hwithin := h.within
  have hcnt := h.count
  have hfits := h.fits
  rw [htake] at hdist hwithin hcnt
  rw [Tight, htake, length_map]
  rw [length_map] at hcnt
  -- the records of the stream, by their offsets
  have hrange : ∀ r ∈ ofStream (ofNat streamId) sys.tiers.wal.records,
      0 ≤ r.offset.toInt ∧ r.offset.toInt < sys.next streamId :=
    fun r hr => hwithin _ (mem_map.mpr ⟨r, hr, rfl⟩)
  have hsmall : ∀ r ∈ ofStream (ofNat streamId) sys.tiers.wal.records,
      r.offset.toInt < 2 ^ 63 - 1 := by
    intro r hr
    exact lt_of_lt_of_le (hrange r hr).2 hfits
  obtain ⟨wm, hwm, ⟨top, htop, hnext⟩, hbelow⟩ := (watermark_of_observe
    (segmentPaths dir).length _ _ hsmall).2 hlogged
  have hrep : (recover dir).1.streamWatermarks.lookup (ofNat streamId) = some wm := by
    rw [recover_report, hdir]
    exact hwm
  constructor
  · intro hagree
    obtain ⟨wm', hwm', hsame⟩ := hagree.watermark
    rw [hrep, some.injEq] at hwm'
    subst hwm'
    obtain ⟨kept, hkept, hall⟩ := hagree.reconciled
      (AList.insert (ofNat streamId) 0 ∅) (AList.lookup_insert _)
    rw [lookup_reconcileStreamRecords _ (AList.lookup_insert _),
      ite_none_left_eq_some, some.injEq] at hkept
    obtain ⟨-, rfl⟩ := hkept
    have hlt := lt_length_of_mem_reconcileStream hsmall (hall top htop)
    omega
  · intro htight
    obtain ⟨hreconciled, hfollow⟩ := reconcileStream_of_tight hdist
      (fun r hr => (hrange r hr).1) (fun r hr => by rw [htight]; exact (hrange r hr).2) hsmall
    have hperm := sortByOffset_perm (ofStream (ofNat streamId) sys.tiers.wal.records)
    have hne : sortByOffset (ofStream (ofNat streamId) sys.tiers.wal.records) ≠ [] := by
      intro hnil
      rw [hnil] at hperm
      exact hlogged hperm.nil_eq.symm
    refine ⟨⟨wm, hrep, ?_⟩, fun ends hend => ⟨_, ?_, fun r => hperm.mem_iff.mpr⟩⟩
    · obtain ⟨last, hlast, hoff⟩ := hfollow.exists_last hne
      have hle := hbelow last (hperm.mem_iff.mp hlast)
      have hlt := (hrange top htop).2
      rw [hperm.length_eq] at hoff
      omega
    · rw [lookup_reconcileStreamRecords _ hend, hreconciled, if_neg hne]

end Quiet

theorem agrees_iff_singleRecord {dir : Directory} {sys : System RecordLog} {streamId : ℕ}
    {cacheBytes blockCacheBytes : ℕ} {actions : List SystemAction} (hid : streamId < 2 ^ 64)
    (happend : ∀ action ∈ actions, Appending action)
    (hfits : Along exec (OffsetFits streamId) (init ⟨[]⟩ cacheBytes blockCacheBytes) actions)
    (hrun : run exec (init ⟨[]⟩ cacheBytes blockCacheBytes) actions = some sys)
    (hquiet : ∀ call ∈ sys.reserved, call.streamId ≠ streamId)
    (hlogged : WalRecovery.ofStream (UInt64.ofNat streamId) sys.tiers.wal.records ≠ [])
    (hdir : WalRecovery.recoveredRecords dir = sys.tiers.wal.records) :
    Agrees dir sys streamId ↔ ∀ action ∈ actions, SingleRecord streamId action := by
  have hstart := numbered_init streamId cacheBytes blockCacheBytes
  have hcond : Along exec (fun sys action => Appending action ∧ OffsetFits streamId sys action)
      (init ⟨[]⟩ cacheBytes blockCacheBytes) actions := (along_of_forall happend).and hfits
  have hnum := run_invariant (numbered_exec hid) hstart hcond hrun
  have hasm := hcond.invariant (numbered_exec hid) hstart
  rw [agrees_iff_tight hnum hquiet hlogged hdir]
  constructor
  · intro htight
    have hback : ∀ sys action sys', Numbered streamId sys ∧
        (Appending action ∧ OffsetFits streamId sys action) → exec sys action = some sys' →
          Tight streamId sys' → Tight streamId sys ∧ SingleRecord streamId action :=
      fun _ _ _ hasm hexec => (tight_exec hid hasm.1 hasm.2 hexec).mp
    exact forall_of_along (along_of_run hback hasm hrun htight).2 hrun
  · intro hsingle
    have hstep : ∀ sys action sys', Tight streamId sys →
        (Numbered streamId sys ∧ (Appending action ∧ OffsetFits streamId sys action)) ∧
          SingleRecord streamId action → exec sys action = some sys' → Tight streamId sys' :=
      fun _ _ _ htight hasm hexec =>
        (tight_exec hid hasm.1.1 hasm.1.2 hexec).mpr ⟨htight, hasm.2⟩
    have hemp : Tight streamId (init ⟨[]⟩ cacheBytes blockCacheBytes) := rfl
    exact run_invariant hstep hemp (hasm.and (along_of_forall hsingle)) hrun

def appendTo (streamId : ℕ) (payload : Bytes) (recordCount : ℤ) : List SystemAction :=
  [.create streamId 0, .reserve streamId payload recordCount, .log ⟨streamId, 0, payload⟩,
    .finish ⟨streamId, 0, payload⟩]

def oneRecordDir (streamId : UInt64) (payload : Bytes) : Directory :=
  AList.insert (WalSegment.filename 1) (encodeAll [⟨1, streamId, 0, payload⟩]) ∅

theorem oneRecord_agrees : ∃ sys, run exec (init ⟨[]⟩ 1000 1000) (appendTo 10 [7] 1) = some sys ∧
      Agrees (oneRecordDir 10 [7]) sys 10 := by
  have hfits : Along exec (OffsetFits 10) (init ⟨[]⟩ 1000 1000) (appendTo 10 [7] 1) := by
    refine ⟨trivial, fun sys hsys => ⟨fun _ => ?_, fun _ _ => ⟨trivial, fun _ _ =>
      ⟨trivial, fun _ _ => trivial⟩⟩⟩⟩
    rw [← Option.some.inj hsys]
    decide +kernel
  have hrun : (run exec (init ⟨[]⟩ 1000 1000) (appendTo 10 [7] 1)).map
      (fun sys : System RecordLog => (sys.reserved, sys.tiers.wal.records)) =
        some ([], [⟨1, 10, 0, [7]⟩]) := by decide +kernel
  obtain ⟨sys, hsys, hres⟩ := Option.map_eq_some_iff.mp hrun
  obtain ⟨hreserved, hrecs⟩ := Prod.mk.inj hres
  refine ⟨sys, hsys, (agrees_iff_singleRecord (by decide) ?_ hfits hsys ?_ ?_ ?_).mpr ?_⟩
  · simp [appendTo, Appending]
  · rw [hreserved]
    exact List.forall_mem_nil _
  · rw [hrecs]
    decide
  · rw [hrecs]
    decide +kernel
  · simp [appendTo, SingleRecord]

theorem fiveRecords_disagree :
    ∃ sys wm, run exec (init ⟨[]⟩ 1000 1000) (appendTo 10 [7] 5) = some sys ∧ sys.reserved = [] ∧
      WalRecovery.recoveredRecords (oneRecordDir 10 [7]) = sys.tiers.wal.records ∧
      sys.next 10 = 5 ∧
      (WalRecovery.recover (oneRecordDir 10 [7])).1.streamWatermarks.lookup 10 = some wm ∧
      wm.nextOffset = 1 ∧ ¬Agrees (oneRecordDir 10 [7]) sys 10 := by
  have hrun : (run exec (init ⟨[]⟩ 1000 1000) (appendTo 10 [7] 5)).map
      (fun sys : System RecordLog => (sys.reserved, sys.tiers.wal.records, sys.next 10)) =
        some ([], [⟨1, 10, 0, [7]⟩], 5) := by decide +kernel
  have hdir : recoveredRecords (oneRecordDir 10 [7]) = [⟨1, 10, 0, [7]⟩] := by
    decide +kernel
  have hrep : ((recover (oneRecordDir 10 [7])).1.streamWatermarks.lookup 10).map
      StreamWatermark.nextOffset = some 1 := by decide +kernel
  obtain ⟨sys, hsys, hres⟩ := Option.map_eq_some_iff.mp hrun
  obtain ⟨wm, hwm, hnext⟩ := Option.map_eq_some_iff.mp hrep
  obtain ⟨hreserved, hrest⟩ := Prod.mk.inj hres
  obtain ⟨hrecs, hlive⟩ := Prod.mk.inj hrest
  refine ⟨sys, wm, hsys, hreserved, hdir.trans hrecs.symm, hlive, hwm, hnext, fun hagree => ?_⟩
  obtain ⟨wm', hwm', hsame⟩ := hagree.watermark
  rw [← Option.some.inj (hwm.symm.trans hwm'), hnext, hlive] at hsame
  exact absurd hsame (by decide)

end System

end OxideMq.Stream
