import OxideMq.Wal.Lifetime

/-! What a purge takes away. -/

namespace OxideMq.Wal

open Lib OxideMq.Core WalSegment Lifetime SegmentLog List UInt64 WalRecovery

theorem exists_split_of_pairwise {α : Type} {r : α → α → Prop} {p : α → Prop}
    (hcarry : ∀ a b, r a b → p a → p b) {l : List α} (h : l.Pairwise r) :
    ∃ lower upper, l = lower ++ upper ∧ (∀ a ∈ lower, ¬p a) ∧ ∀ a ∈ upper, p a := by
  induction l with
  | nil => exact ⟨[], [], rfl, forall_mem_nil _, forall_mem_nil _⟩
  | cons a l ih =>
    obtain ⟨hhead, htail⟩ := pairwise_cons.mp h
    by_cases ha : p a
    · refine ⟨[], a :: l, rfl, forall_mem_nil _, forall_mem_cons.mpr ⟨ha, ?_⟩⟩
      exact fun b hb => hcarry a b (hhead b hb) ha
    · obtain ⟨lower, upper, rfl, hlo, hhi⟩ := ih htail
      exact ⟨a :: lower, upper, rfl, forall_mem_cons.mpr ⟨ha, hlo⟩, hhi⟩

namespace FileWal

def OnBoundary (dir : Directory) (minSeq : UInt64) : Prop :=
  minSeq ∈ (WalRecovery.segmentPaths dir).map Prod.fst ∨
    ∀ p ∈ WalRecovery.segmentPaths dir, minSeq ≤ p.1

instance (dir : Directory) (minSeq : UInt64) : Decidable (OnBoundary dir minSeq) :=
  inferInstanceAs (Decidable (_ ∨ _))

end FileWal

namespace CommitLog.HoldsLogs

open FileWal WalRecovery

variable {dir : Directory} {logs : List SegmentLog}

theorem segmentPaths_eq (h : HoldsLogs dir logs) :
    segmentPaths dir = logs.map fun s => (s.baseSeq, filename s.baseSeq) := by
  rw [h.segments.segmentPaths_eq, map_map]
  rfl

theorem onBoundary_iff (h : HoldsLogs dir logs) {minSeq : UInt64} : OnBoundary dir minSeq ↔
      (∃ s ∈ logs, s.baseSeq = minSeq) ∨ ∀ s ∈ logs, minSeq ≤ s.baseSeq := by
  rw [OnBoundary, h.segmentPaths_eq, map_map, mem_map, forall_mem_map]
  rfl

theorem purge {lower upper : List SegmentLog} (h : HoldsLogs dir (lower ++ upper))
    {minSeq : UInt64} (hlo : ∀ s ∈ lower, ¬minSeq ≤ s.baseSeq)
    (hhi : ∀ s ∈ upper, minSeq ≤ s.baseSeq) :
    HoldsLogs (purgeSegmentsBefore dir minSeq).1 upper := by
  have hl : ∀ seq, minSeq ≤ seq →
      (purgeSegmentsBefore dir minSeq).1.lookup (filename seq) = dir.lookup (filename seq) := by
    intro seq hle
    rw [purgeSegmentsBefore, HashMap.lookup_retainKeys, if_pos]
    simpa [parseBaseSeqFromFilename_filename] using hle
  have hfiles : ∀ s ∈ upper, (purgeSegmentsBefore dir minSeq).1.lookup
      (filename s.baseSeq) = some (encodeAll s.records) := fun s hs =>
    (hl s.baseSeq (hhi s hs)).trans (h.files s (mem_append_right _ hs))
  refine ⟨⟨?_, ?_, ?_⟩, hfiles⟩
  · have hinc := h.segments.increasing
    rw [map_append] at hinc
    exact (pairwise_append.mp hinc).2.1
  · intro seq hbase
    obtain ⟨s, hs, rfl⟩ := mem_map.mp hbase
    exact AList.mem_keys.mp (HashMap.mem_iff.mpr ⟨_, hfiles s hs⟩)
  · intro name hname hparse
    obtain ⟨seq, hbase, rfl⟩ :=
      h.segments.only name (keys_purgeSegmentsBefore hname) hparse
    obtain ⟨s, hs, rfl⟩ := mem_map.mp hbase
    obtain ⟨raw, hraw⟩ := HashMap.mem_iff.mp (AList.mem_keys.mpr hname)
    rw [purgeSegmentsBefore, HashMap.lookup_retainKeys, Option.ite_none_right_eq_some] at hraw
    have hkept : minSeq ≤ s.baseSeq := by
      simpa [parseBaseSeqFromFilename_filename] using hraw.1
    rcases mem_append.mp hs with hs | hs
    · exact absurd hkept (hlo s hs)
    · exact ⟨s.baseSeq, mem_map.mpr ⟨s, hs, rfl⟩, rfl⟩

theorem recover (h : HoldsLogs dir logs)
    (hpays : ∀ r ∈ logs.flatMap records, r.payload.length < 2 ^ 32) :
    HoldsLogs (recover dir).2 logs := by
  refine ⟨⟨h.segments.increasing, ?_, ?_⟩, fun s hs => ?_⟩
  · rw [keys_recover]
    exact h.segments.present
  · rw [keys_recover]
    exact h.segments.only
  · have hrecs : ∀ r ∈ s.records, r.payload.length < 2 ^ 32 :=
      fun r hr => hpays r (mem_flatMap.mpr ⟨s, hs, hr⟩)
    have hhealed : healed (encodeAll s.records) = encodeAll s.records := by
      rw [healed, segmentRecords_encodeAll hrecs]
    rw [lookup_recover, h.files s hs, Option.map_some, hhealed, ite_self]

theorem highestSegment_eq (h : HoldsLogs dir logs) {active : SegmentLog}
    (hlast : logs.getLast? = some active) :
    highestSegment dir.keys none = some (active.baseSeq, filename active.baseSeq) := by
  obtain ⟨earlier, rfl⟩ := getLast?_eq_some_iff.mp hlast
  have hpres : filename active.baseSeq ∈ dir.keys :=
    h.segments.present _ (mem_map.mpr ⟨active, by simp, rfl⟩)
  have hparse := parseBaseSeqFromFilename_filename active.baseSeq
  obtain ⟨⟨baseSeq, path⟩, hfound, hge⟩ := (highestSegment_spec _).2 _ hpres _ hparse
  obtain ⟨hkey, hname⟩ := (highestSegment_spec _).1 _ hfound
  obtain ⟨base, hbase, rfl⟩ := h.segments.only path hkey (by rw [hname]; rfl)
  obtain rfl := Option.some.inj ((parseBaseSeqFromFilename_filename _).symm.trans hname)
  have hinc := h.segments.increasing
  rw [map_append] at hbase hinc
  rcases mem_append.mp hbase with hbase | hbase
  · have hlt := (pairwise_append.mp hinc).2.2 _ hbase active.baseSeq (by simp)
    exact absurd hge (UInt64.not_le.mpr hlt)
  · obtain rfl : base = active.baseSeq := by simpa using hbase
    exact hfound

theorem highestSegment_nil (h : HoldsLogs dir []) : highestSegment dir.keys none = none := by
  cases hfound : highestSegment dir.keys none with
  | none => rfl
  | some found =>
    obtain ⟨hkey, hname⟩ := (highestSegment_spec _).1 _ hfound
    obtain ⟨base, hbase, -⟩ := h.segments.only _ hkey (by rw [hname]; rfl)
    cases hbase

end CommitLog.HoldsLogs

open FileWal WalRecovery CommitLog

structure Stored (dir : Directory) (acked : List WalRecord) (bounds : List UInt64)
    (logs : List SegmentLog) : Prop where
  holds : HoldsLogs dir logs
  payloads : ∀ r ∈ logs.flatMap SegmentLog.records, r.payload.length < 2 ^ 32
  owned : ∀ r ∈ logs.flatMap SegmentLog.records, r ∈ acked
  above : ∀ s ∈ logs, ∀ r ∈ s.records, s.baseSeq ≤ r.seq
  below : logs.Pairwise fun s t => ∀ r ∈ s.records, r.seq < t.baseSeq
  linked : logs.IsChain fun s t => ∃ r ∈ s.records, r.seq.toNat + 1 = t.baseSeq.toNat
  kept : ∀ a ∈ acked, (∀ bound ∈ bounds, bound ≤ a.seq) → a ∈ logs.flatMap SegmentLog.records

namespace Stored

variable {dir : Directory} {acked : List WalRecord} {bounds : List UInt64}
  {logs : List SegmentLog}
variable {minSeq : UInt64} {lower upper : List SegmentLog} {active : SegmentLog}

theorem recoveredRecords_eq (h : Stored dir acked bounds logs) :
    recoveredRecords dir = logs.flatMap records :=
  h.holds.recoveredRecords_eq_records h.payloads

theorem exists_split (h : Stored dir acked bounds logs) (minSeq : UInt64) :
    ∃ lower upper, logs = lower ++ upper ∧ (∀ s ∈ lower, ¬minSeq ≤ s.baseSeq) ∧
      ∀ s ∈ upper, minSeq ≤ s.baseSeq := by
  have hinc := pairwise_map.mp h.holds.segments.increasing
  refine exists_split_of_pairwise (fun s t hlt hle => ?_) hinc
  exact UInt64.le_trans hle (UInt64.le_of_lt hlt)

section Boundary

variable (h : Stored dir acked bounds (lower ++ upper)) (hbdy : OnBoundary dir minSeq)
  (hlo : ∀ s ∈ lower, ¬minSeq ≤ s.baseSeq)
include h hbdy hlo

theorem lt_of_onBoundary : ∀ r ∈ lower.flatMap records, r.seq < minSeq := by
  intro r hr
  obtain ⟨s, hs, hr⟩ := mem_flatMap.mp hr
  obtain ⟨t, ht, rfl⟩ | hall := h.holds.onBoundary_iff.mp hbdy
  · rcases mem_append.mp ht with ht | ht
    · exact absurd (UInt64.le_refl _) (hlo t ht)
    · exact (pairwise_append.mp h.below).2.2 s hs t ht r hr
  · exact absurd (hall s (mem_append_left _ hs)) (hlo s hs)

theorem mem_upper_of_onBoundary {r : WalRecord} (hr : r ∈ (lower ++ upper).flatMap records)
    (hle : minSeq ≤ r.seq) : r ∈ upper.flatMap records := by
  rw [flatMap_append] at hr
  rcases mem_append.mp hr with hr | hr
  · exact absurd hle (UInt64.not_le.mpr (h.lt_of_onBoundary hbdy hlo r hr))
  · exact hr

theorem purge (hhi : ∀ s ∈ upper, minSeq ≤ s.baseSeq) :
    Stored (purgeSegmentsBefore dir minSeq).1 acked (bounds ++ [minSeq]) upper := by
  have hrecs : ∀ r ∈ upper.flatMap records, r ∈ (lower ++ upper).flatMap records := by
    intro r hr
    rw [flatMap_append]
    exact mem_append_right _ hr
  refine ⟨h.holds.purge hlo hhi, ?_, ?_, ?_, ?_, ?_, ?_⟩
  · exact fun r hr => h.payloads r (hrecs r hr)
  · exact fun r hr => h.owned r (hrecs r hr)
  · exact fun s hs => h.above s (mem_append_right _ hs)
  · exact (pairwise_append.mp h.below).2.1
  · exact (isChain_append.mp h.linked).2.1
  · intro a ha hbds
    obtain ⟨hold, hnew⟩ := forall_mem_append.mp hbds
    exact h.mem_upper_of_onBoundary hbdy hlo (h.kept a ha hold) (hnew minSeq (mem_singleton_self _))

theorem getLast?_upper (hlast : (lower ++ upper).getLast? = some active) :
    upper.getLast? = some active := by
  have hne : upper ≠ [] := by
    rintro rfl
    rw [append_nil] at h hlast
    obtain ⟨s, hs, rfl⟩ | hall := h.holds.onBoundary_iff.mp hbdy
    · exact hlo s hs (UInt64.le_refl _)
    · exact hlo active (mem_of_getLast? hlast) (hall active (mem_of_getLast? hlast))
  rwa [getLast?_append_of_ne_nil _ hne] at hlast

end Boundary

theorem write {earlier : List SegmentLog} (h : Stored dir acked bounds (earlier ++ [active]))
    {segment : WalSegment} (hpath : segment.path = filename active.baseSeq)
    {records : List WalRecord} (hpays : ∀ r ∈ records, r.payload.length < 2 ^ 32)
    (hbase : ∀ r ∈ records, active.baseSeq ≤ r.seq) :
    Stored (segment.append dir (encodeAll records) .complete).1 (acked ++ records) bounds
      (earlier ++ [⟨active.baseSeq, active.records ++ records⟩]) := by
  have hflat : (earlier ++ [(⟨active.baseSeq, active.records ++ records⟩ : SegmentLog)]).flatMap
      SegmentLog.records = (earlier ++ [active]).flatMap SegmentLog.records ++ records := by
    simp
  refine ⟨h.holds.append hpath records, ?_, ?_, ?_, ?_, ?_, ?_⟩
  · rw [hflat]
    exact forall_mem_append.mpr ⟨h.payloads, hpays⟩
  · rw [hflat]
    refine forall_mem_append.mpr ⟨fun r hr => ?_, fun r hr => mem_append_right _ hr⟩
    exact mem_append_left _ (h.owned r hr)
  · obtain ⟨hearlier, hact⟩ := forall_mem_append.mp h.above
    refine forall_mem_append.mpr ⟨hearlier, forall_mem_singleton.mpr ?_⟩
    exact forall_mem_append.mpr ⟨forall_mem_singleton.mp hact, hbase⟩
  · obtain ⟨hearlier, -, hbef⟩ := pairwise_append.mp h.below
    refine pairwise_append.mpr ⟨hearlier, pairwise_singleton _ _, fun s hs t ht => ?_⟩
    rw [mem_singleton.mp ht]
    exact hbef s hs active (mem_singleton_self _)
  · obtain ⟨hearlier, -, hbef⟩ := isChain_append.mp h.linked
    refine isChain_append.mpr ⟨hearlier, isChain_singleton _, fun s hs t ht => ?_⟩
    cases ht
    exact hbef s hs active rfl
  · intro a ha hbds
    rw [hflat]
    rcases mem_append.mp ha with ha | ha
    · exact mem_append_left _ (h.kept a ha hbds)
    · exact mem_append_right _ ha

theorem create (h : Stored dir acked bounds logs) {baseSeq : UInt64}
    (hlast : ∀ s ∈ logs, s.baseSeq < baseSeq)
    (hlt : ∀ r ∈ logs.flatMap records, r.seq < baseSeq)
    (hlinked : ∀ s, logs.getLast? = some s → ∃ r ∈ s.records, r.seq.toNat + 1 = baseSeq.toNat) :
    Stored (create dir baseSeq).1 acked bounds (logs ++ [⟨baseSeq, []⟩]) := by
  have hflat : (logs ++ [(⟨baseSeq, []⟩ : SegmentLog)]).flatMap records = logs.flatMap records := by
    simp
  refine ⟨h.holds.create hlast, ?_, ?_, ?_, ?_, ?_, ?_⟩
  · rw [hflat]
    exact h.payloads
  · rw [hflat]
    exact h.owned
  · refine forall_mem_append.mpr ⟨h.above, forall_mem_singleton.mpr ?_⟩
    exact forall_mem_nil _
  · refine pairwise_append.mpr ⟨h.below, pairwise_singleton _ _, fun s hs t ht => ?_⟩
    rw [mem_singleton.mp ht]
    exact fun r hr => hlt r (mem_flatMap.mpr ⟨s, hs, hr⟩)
  · refine isChain_append.mpr ⟨h.linked, isChain_singleton _, fun s hs t ht => ?_⟩
    cases ht
    exact hlinked s hs
  · rw [hflat]
    exact h.kept

theorem reopen (h : Stored dir acked bounds logs) :
    ∃ logs' active, Stored (openWal dir).dir acked bounds logs' ∧ logs'.getLast? = some active ∧
      (openWal dir).segment.path = filename active.baseSeq := by
  have hrecover : Stored (recover dir).2 acked bounds logs :=
    ⟨h.holds.recover h.payloads, h.payloads, h.owned, h.above, h.below, h.linked, h.kept⟩
  have hopen : ((openWal dir).dir, (openWal dir).segment) =
      initActiveSegment (recover dir).2 ((recover dir).1.highestSeq + 1) := rfl
  rw [initActiveSegment] at hopen
  -- `init_active_segment` takes the highest base it lists, which is that of the last segment
  cases hlast : logs.getLast? with
  | none =>
    obtain rfl := getLast?_eq_none_iff.mp hlast
    rw [hrecover.holds.highestSegment_nil] at hopen
    obtain ⟨hdir, hsegment⟩ := Prod.mk.inj hopen
    refine ⟨[⟨(recover dir).1.highestSeq + 1, []⟩], _, ?_, rfl, ?_⟩
    · rw [hdir]
      exact hrecover.create (forall_mem_nil _) (forall_mem_nil _) (by rintro _ ⟨⟩)
    · rw [hsegment]
      rfl
  | some active =>
    rw [hrecover.holds.highestSegment_eq hlast] at hopen
    obtain ⟨hdir, hsegment⟩ := Prod.mk.inj hopen
    refine ⟨logs, active, ?_, hlast, ?_⟩
    · rw [hdir]
      exact hrecover
    · rw [hsegment]
      rfl

theorem onBoundary_of_kept (h : Stored dir acked bounds logs)
    (hrecs : ∀ r ∈ recoveredRecords dir, minSeq ≤ r.seq →
      r ∈ recoveredRecords (purgeSegmentsBefore dir minSeq).1)
    (hact : filename active.baseSeq ∈ (purgeSegmentsBefore dir minSeq).1.keys) :
    OnBoundary dir minSeq := by
  obtain ⟨lower, upper, rfl, hlo, hhi⟩ := h.exists_split minSeq
  have hpurged := h.holds.purge hlo hhi
  have hflat : ∀ r ∈ upper.flatMap records, r.payload.length < 2 ^ 32 := by
    intro r hr
    refine h.payloads r ?_
    rw [flatMap_append]
    exact mem_append_right _ hr
  rw [h.recoveredRecords_eq, hpurged.recoveredRecords_eq_records hflat] at hrecs
  rw [h.holds.onBoundary_iff]
  cases upper with
  | nil =>
    obtain ⟨baseSeq, hbase, -⟩ := hpurged.segments.only _ hact (by
      rw [parseBaseSeqFromFilename_filename]; rfl)
    cases hbase
  | cons next upper =>
    cases hlast : lower.getLast? with
    | none =>
      obtain rfl := getLast?_eq_none_iff.mp hlast
      exact Or.inr hhi
    | some s =>
      obtain ⟨r, hr, hseq⟩ :=
        (isChain_append.mp h.linked).2.2 s hlast next rfl
      refine Or.inl ⟨next, by simp, ?_⟩
      by_contra hne
      have hle := le_iff_toNat_le.mp (hhi next mem_cons_self)
      have hdiffers : next.baseSeq.toNat ≠ minSeq.toNat :=
        fun heq => hne (UInt64.toNat_inj.mp heq)
      -- the last record below the next base is gone, though it lies above the bound
      have hkept := hrecs r
        (mem_flatMap.mpr ⟨s, mem_append_left _ (mem_of_getLast? hlast), hr⟩)
        (le_iff_toNat_le.mpr (by omega))
      obtain ⟨t, ht, hrt⟩ := mem_flatMap.mp hkept
      have hbase := le_iff_toNat_le.mp (h.above t (mem_append_right _ ht) r hrt)
      have hnext : next.baseSeq.toNat ≤ t.baseSeq.toNat := by
        rcases mem_cons.mp ht with rfl | ht
        · exact le_rfl
        · have hlt := (pairwise_cons.mp (pairwise_map.mp hpurged.segments.increasing)).1 t ht
          exact (lt_iff_toNat_lt.mp hlt).le
      omega

theorem commit (h : Stored dir acked bounds logs) (config : WalConfig) {worker : Worker}
    (hdir : worker.dir = dir) (hlast : logs.getLast? = some active)
    (hpath : worker.segment.path = filename active.baseSeq)
    (hnamed : Lifetime.Named acked dir) (hahead : Lifetime.Ahead acked worker)
    {batch : List AppendRequest} (hp : worker.phase = .draining batch)
    (hroom : worker.nextSeq.toNat + batch.length < 2 ^ 64)
    (hpays : ∀ request ∈ batch, request.data.length < 2 ^ 32) :
    ∃ logs' active', Stored (commitBatch config worker batch .complete (.ok ()) (.ok ())).dir
        (acked ++ assignSeqs worker.nextSeq batch) bounds logs' ∧
      logs'.getLast? = some active' ∧
      (commitBatch config worker batch .complete (.ok ()) (.ok ())).segment.path =
        filename active'.baseSeq := by
  subst hdir
  obtain ⟨earlier, rfl⟩ := getLast?_eq_some_iff.mp hlast
  have hbases : ∀ s ∈ earlier ++ [active], s.baseSeq.toNat ≤ worker.nextSeq.toNat := by
    intro s hs
    obtain ⟨baseSeq, hname, hreach⟩ := hnamed _
      (h.holds.segments.present _ (mem_map.mpr ⟨s, hs, rfl⟩))
    rw [filename_injective hname]
    exact hreach.le hahead.one_le hahead.above
  obtain ⟨-, hrange⟩ := seqs_increasing hroom
  have hw := h.write hpath ((payloads_assignSeqs _).mpr hpays) fun r hr => le_iff_toNat_le.mpr
    ((hbases active (by simp)).trans (hrange r hr).1)
  have hlen := hahead.length_pos hp
  have hnext := toNat_add_ofNat hroom
  rw [commitBatch_complete]
  split
  · refine ⟨_, _, hw.create ?_ ?_ ?_, getLast?_concat, rfl⟩
    · intro s hs
      obtain ⟨t, ht, hbase⟩ := exists_same_base hs
      have hle := hbases t ht
      rw [← hbase, lt_iff_toNat_lt, hnext]
      omega
    · intro r hr
      have hacked := ahead_commit config hahead hroom
      exact hacked.above r (hw.owned r hr)
    · intro s hs
      rw [getLast?_concat] at hs
      cases hs
      obtain ⟨r, hr, hseq⟩ := exists_last_seq hroom hlen
      exact ⟨r, mem_append_right _ hr, hseq.trans hnext.symm⟩
  · exact ⟨_, _, hw, getLast?_concat, hpath⟩

end Stored

structure PurgeLog where
  life : Lifetime
  bounds : List UInt64

namespace PurgeLog

variable {log : PurgeLog} {action : LifetimeAction}

def fresh : PurgeLog := ⟨Lifetime.fresh, []⟩

def boundOf : LifetimeAction → List UInt64
  | .purge minSeq => [minSeq]
  | .reopen _ | .recv _ _ | .commit | .close => []

def exec (log : PurgeLog) (action : LifetimeAction) : Option PurgeLog :=
  (log.life.exec action).map fun life => ⟨life, log.bounds ++ boundOf action⟩

def Found (log : PurgeLog) : Prop :=
  ∀ a ∈ log.life.acked, (∀ bound ∈ log.bounds, bound ≤ a.seq) →
    a ∈ recoveredRecords log.life.dir

def Harmless (log : PurgeLog) : LifetimeAction → Prop
  | .purge minSeq => ∀ config worker log', log.life.running = some (config, worker) →
      log.exec (.purge minSeq) = some log' →
        (∀ r ∈ recoveredRecords log.life.dir, minSeq ≤ r.seq →
          r ∈ recoveredRecords log'.life.dir) ∧
        worker.segment.path ∈ log'.life.dir.keys
  | _ => True

def AtBoundary (log : PurgeLog) : LifetimeAction → Prop
  | .purge minSeq => OnBoundary log.life.dir minSeq
  | _ => True

def openBatch (life : Lifetime) : List AppendRequest :=
  match life.running with
  | some (_, ⟨_, _, _, .draining batch, _⟩) => batch
  | _ => []

def Sane (log : PurgeLog) (action : LifetimeAction) : Prop :=
  Lifetime.Safe log.life action ∧
    match action with
    | .commit => ∀ request ∈ openBatch log.life, request.data.length < 2 ^ 32
    | _ => True

instance (log : PurgeLog) : (action : LifetimeAction) → Decidable (log.AtBoundary action)
  | .purge minSeq => inferInstanceAs (Decidable (OnBoundary log.life.dir minSeq))
  | .reopen _ | .recv _ _ | .commit | .close => inferInstanceAs (Decidable True)

instance (log : PurgeLog) : (action : LifetimeAction) → Decidable (log.Sane action)
  | .commit => inferInstanceAs (Decidable (Lifetime.Safe log.life .commit ∧
      ∀ request ∈ openBatch log.life, request.data.length < 2 ^ 32))
  | .reopen config => inferInstanceAs (Decidable (Lifetime.Safe log.life (.reopen config) ∧ True))
  | .recv message sync =>
      inferInstanceAs (Decidable (Lifetime.Safe log.life (.recv message sync) ∧ True))
  | .purge minSeq => inferInstanceAs (Decidable (Lifetime.Safe log.life (.purge minSeq) ∧ True))
  | .close => inferInstanceAs (Decidable (Lifetime.Safe log.life .close ∧ True))

theorem openBatch_eq {life : Lifetime} {cfg : WalConfig} {w : Worker}
    {batch : List AppendRequest} (hrun : life.running = some (cfg, w))
    (hp : w.phase = .draining batch) : openBatch life = batch := by
  cases w
  subst hp
  simp only [openBatch, hrun]

structure Inv (log : PurgeLog) : Prop where
  sound : Lifetime.Sound log.life
  stored : ∃ logs, Stored log.life.dir log.life.acked log.bounds logs ∧
    ∀ config worker, log.life.running = some (config, worker) →
      ∃ active, logs.getLast? = some active ∧
        worker.segment.path = WalSegment.filename active.baseSeq

theorem inv_fresh : Inv fresh := by
  refine ⟨sound_fresh, [], ?_, fun _ _ hrun => by cases hrun⟩
  exact ⟨HoldsLogs.empty, forall_mem_nil _, forall_mem_nil _, forall_mem_nil _,
    List.Pairwise.nil, List.IsChain.nil, forall_mem_nil _⟩

theorem Inv.found (h : Inv log) : Found log := by
  obtain ⟨logs, hstored, -⟩ := h.stored
  intro a ha hbds
  rw [hstored.recoveredRecords_eq]
  exact hstored.kept a ha hbds

theorem stored_exec {life' : Lifetime} (h : Inv log) (hsane : log.Sane action)
    (hbdy : log.AtBoundary action) (hexec : log.life.exec action = some life') :
    ∃ logs, Stored life'.dir life'.acked (log.bounds ++ boundOf action) logs ∧
      ∀ cfg w, life'.running = some (cfg, w) → ∃ active, logs.getLast? = some active ∧
          w.segment.path = filename active.baseSeq := by
  obtain ⟨logs, hstored, hact⟩ := h.stored
  cases action with
  | reopen cfg =>
    obtain ⟨hrun, rfl⟩ := exec_reopen hexec
    rw [dir, acked, hrun] at hstored
    obtain ⟨logs', active, hstored', hlast, hpath⟩ := hstored.reopen
    refine ⟨logs', ?_, fun cfg' w' hrun' => ⟨active, hlast, ?_⟩⟩
    · show Stored (openWal log.life.closedDir).dir (log.life.past ++ []) (log.bounds ++ []) _
      rw [append_nil, append_nil]
      exact hstored'
    · cases hrun'
      exact hpath
  | recv msg sync =>
    obtain ⟨cfg, w, batch, hrun, rfl⟩ := exec_recv hexec
    obtain ⟨active, hlast, hpath⟩ := hact cfg w hrun
    obtain ⟨hdir, hseg, -⟩ := receive_frame w batch sync msg
    refine ⟨logs, ?_, fun cfg' w' hrun' => ⟨active, hlast, ?_⟩⟩
    · rw [dir_of_running hrun, acked_of_running hrun] at hstored
      rw [boundOf, append_nil, acked_of_running rfl,
        acknowledged_receive, dir_of_running rfl, hdir]
      exact hstored
    · cases hrun'
      rw [hseg]
      exact hpath
  | commit =>
    obtain ⟨cfg, w, batch, hrun, hp, rfl⟩ := exec_commit hexec
    obtain ⟨active, hlast, hpath⟩ := hact cfg w hrun
    have hdir := dir_of_running hrun
    have hpays : ∀ req ∈ openBatch log.life, req.data.length < 2 ^ 32 := hsane.2
    rw [openBatch_eq hrun hp] at hpays
    obtain ⟨logs', active', hstored', hlast', hpath'⟩ := hstored.commit cfg hdir.symm hlast
      hpath h.sound.named (h.sound.ahead cfg w hrun) hp
      (room_of_safe hsane.1 hrun hp) hpays
    refine ⟨logs', ?_, fun cfg'' w'' hrun'' => ⟨active', hlast', ?_⟩⟩
    · rw [acked_of_running hrun, append_assoc, ← acknowledged_commit cfg] at hstored'
      rw [boundOf, append_nil, acked_of_running rfl]
      exact hstored'
    · cases hrun''
      exact hpath'
  | purge minSeq =>
    obtain ⟨cfg, w, hrun, rfl⟩ := exec_purge hexec
    obtain ⟨active, hlast, hpath⟩ := hact cfg w hrun
    obtain ⟨lower, upper, rfl, hlo, hhi⟩ := hstored.exists_split minSeq
    have hpurged := hstored.purge hbdy hlo hhi
    rw [dir_of_running hrun, acked_of_running hrun] at hpurged
    refine ⟨upper, hpurged, fun cfg' w' hrun' => ⟨active, ?_, ?_⟩⟩
    · exact hstored.getLast?_upper hbdy hlo hlast
    · cases hrun'
      exact hpath
  | close =>
    obtain ⟨cfg, w, hrun, rfl⟩ := exec_close hexec
    rw [dir_of_running hrun, acked_of_running hrun] at hstored
    refine ⟨logs, ?_, fun _ _ hcl => by cases hcl⟩
    rw [boundOf, append_nil]
    exact hstored

theorem inv_exec {log' : PurgeLog} (h : Inv log) (hsane : log.Sane action)
    (hbdy : log.AtBoundary action) (hexec : log.exec action = some log') : Inv log' := by
  obtain ⟨life', hlife, rfl⟩ := Option.map_eq_some_iff.mp hexec
  exact ⟨sound_exec _ _ _ h.sound hsane.1 hlife, stored_exec h hsane hbdy hlife⟩

theorem harmless_iff {log' : PurgeLog} (h : Inv log) (hexec : log.exec action = some log') :
    log.Harmless action ↔ log.AtBoundary action := by
  cases action with
  | purge minSeq =>
    obtain ⟨life', hlife, rfl⟩ := Option.map_eq_some_iff.mp hexec
    obtain ⟨cfg, w, hrun, rfl⟩ := exec_purge hlife
    obtain ⟨logs, hstored, hact⟩ := h.stored
    obtain ⟨active, hlast, hpath⟩ := hact cfg w hrun
    have hdir := dir_of_running hrun
    rw [AtBoundary]
    constructor
    · intro hharmless
      obtain ⟨hrecs, hkept⟩ := hharmless cfg w _ hrun hexec
      rw [hdir] at hstored hrecs ⊢
      rw [hpath] at hkept
      exact hstored.onBoundary_of_kept hrecs hkept
    · -- the files above the bound are those of `upper`, and the active one is the last of them
      intro hbdy cfg' w' log'' hrun' hexec'
      cases hrun.symm.trans hrun'
      cases hexec.symm.trans hexec'
      obtain ⟨lower, upper, rfl, hlo, hhi⟩ := hstored.exists_split minSeq
      have hpurged := hstored.purge hbdy hlo hhi
      have hend := hstored.getLast?_upper hbdy hlo hlast
      rw [hdir] at hpurged
      constructor
      · intro r hr hle
        rw [hstored.recoveredRecords_eq] at hr
        show r ∈ recoveredRecords (purgeSegmentsBefore w.dir minSeq).1
        rw [hpurged.recoveredRecords_eq]
        exact hstored.mem_upper_of_onBoundary hbdy hlo hr hle
      · rw [hpath]
        exact hpurged.holds.segments.present _ (mem_map.mpr ⟨active, mem_of_getLast? hend, rfl⟩)
  | reopen | recv | commit | close => exact Iff.rfl

theorem purges_harmless_iff {actions : List LifetimeAction} {log : PurgeLog}
    (hsane : Along exec Sane fresh actions) (hrun : run exec fresh actions = some log) :
    ((∀ front, front <+: actions → ∀ reached, run exec fresh front = some reached → Found reached) ∧
      Along exec Harmless fresh actions) ↔ Along exec AtBoundary fresh actions := by
  -- a harmful purge ends the invariant, so the two conditions are compared up to the first one
  have hiff : Along exec Harmless fresh actions ↔ Along exec AtBoundary fresh actions :=
    along_iff_of_kept (I := Inv) (fun _ _ _ h hsane hexec =>
      ⟨harmless_iff h hexec, fun hbdy => inv_exec h hsane hbdy hexec⟩)
      inv_fresh hsane hrun
  refine ⟨fun h => hiff.mp h.2, fun hbdy => ⟨?_, hiff.mpr hbdy⟩⟩
  rintro front ⟨rest, rfl⟩ reached hreached
  have hboth := (along_append (hsane.and hbdy)).1
  exact (run_invariant (fun _ _ _ h hcond hexec => inv_exec h hcond.1 hcond.2 hexec)
    inv_fresh hboth hreached).found

def purgedAtBase : List LifetimeAction :=
  [.reopen rollAlways] ++ Lifetime.appendOne [7] ++ Lifetime.appendOne [8] ++ [.purge 2] ++
    Lifetime.appendOne [9] ++ [.close, .reopen rollAlways]

theorem purges_harmless_at_base : ∃ log, run exec fresh purgedAtBase = some log ∧
      log.life.acked.map WalRecord.seq = [1, 2, 3] ∧ Found log := by
  have hend : (run exec fresh purgedAtBase).map (fun log => log.life.acked.map WalRecord.seq) =
      some [1, 2, 3] := by
    decide +kernel
  obtain ⟨log, hrun, hacked⟩ := Option.map_eq_some_iff.mp hend
  have hsane : Along exec Sane fresh purgedAtBase := by decide +kernel
  have hbdy : Along exec AtBoundary fresh purgedAtBase := by decide +kernel
  obtain ⟨hfound, -⟩ := (purges_harmless_iff hsane hrun).mpr hbdy
  exact ⟨log, hrun, hacked, hfound purgedAtBase List.prefix_rfl log hrun⟩

def purgedInside : List LifetimeAction :=
  [.reopen ⟨1000, 10, true⟩] ++ Lifetime.appendOne [7] ++ Lifetime.appendOne [8] ++ [.purge 2] ++
    Lifetime.appendOne [9] ++ [.close, .reopen ⟨1000, 10, true⟩]

theorem purge_inside_segment : ∃ log, run exec fresh purgedInside = some log ∧
      log.life.acked.map WalRecord.seq = [1, 2, 3] ∧ log.bounds = [2] ∧
      recoveredRecords log.life.dir = [] ∧ ¬Found log := by
  have hend : (run exec fresh purgedInside).map (fun log =>
      (log.life.acked, log.bounds, recoveredRecords log.life.dir)) =
        some ([⟨1, 10, 0, [7]⟩, ⟨2, 10, 0, [8]⟩, ⟨3, 10, 0, [9]⟩], [2], []) := by
    decide +kernel
  obtain ⟨log, hrun, heq⟩ := Option.map_eq_some_iff.mp hend
  obtain ⟨hacked, hbds, hrecovered⟩ : _ ∧ _ ∧ _ := by simpa only [Prod.mk.injEq] using heq
  refine ⟨log, hrun, by rw [hacked]; rfl, hbds, hrecovered, fun hfound => ?_⟩
  have hlost := hfound ⟨2, 10, 0, [8]⟩ (by rw [hacked]; simp) (by rw [hbds]; simp)
  rw [hrecovered] at hlost
  cases hlost

end PurgeLog

end OxideMq.Wal
