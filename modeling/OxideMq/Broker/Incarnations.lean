import OxideMq.Broker.ClusterState
import OxideMq.Broker.CachedReads

/-! Isolation of partitions across their lifecycle. -/

namespace OxideMq.Broker

open Lib OxideMq.Core OxideMq.Protocol OxideMq.Wal OxideMq.Stream Option

structure Incarnations (W : Type) where
  cluster : ClusterState W
  appended : ℕ → List StoredBatch

inductive LifecycleAction where
  | createTopic (name : String) (numPartitions replicationFactor : ℤ)
      (configs : HashMap String String)
  | createPartitions (name : String) (newCount : ℤ) (assignments : Option ℕ)
      (validateOnly : Bool)
  | autoCreate (tp : TopicPartition)
  | deleteTopic (name : String)
  | reset
  | applySnapshot (snapshot : List PartitionSnapshot)
  | append (ref : ℕ) (records : Bytes)
  | reorder (streamId : ℕ)

namespace Incarnations

variable {W : Type}
variable {s s' : Incarnations W}

def fresh (tiers : Tiers W) : Incarnations W := ⟨ClusterState.new tiers, fun _ => []⟩

def reorderCache (cluster : ClusterState W) (streamId : ℕ) : ClusterState W :=
  { cluster with
    tiers := { cluster.tiers with logCache := cluster.tiers.logCache.reorder streamId } }

def exec [WalEngine W] (s : Incarnations W) : LifecycleAction → Option (Incarnations W)
  | .createTopic name numPartitions replicationFactor configs =>
      some { s with
        cluster := (s.cluster.createTopic name numPartitions replicationFactor configs).1 }
  | .createPartitions name newCount assignments validateOnly =>
      some { s with
        cluster := (s.cluster.createPartitions name newCount assignments validateOnly).1 }
  | .autoCreate tp => some { s with cluster := (s.cluster.getOrCreatePartition tp).1 }
  | .deleteTopic name => some { s with cluster := (s.cluster.deleteTopic name).1 }
  | .reset => some { s with cluster := s.cluster.reset }
  | .applySnapshot snapshot => some { s with cluster := s.cluster.applySnapshot snapshot }
  | .append ref records =>
      (s.cluster.heap[ref]?).bind fun partition =>
        (s.cluster.appendRecords ref records).map fun (cluster, result) =>
          ⟨cluster, Function.update s.appended ref (s.appended ref ++
            PartitionLog.storedBy records partition.stream.nextOffset result)⟩
  | .reorder streamId => some { s with cluster := reorderCache s.cluster streamId }

def ReadsOwn (s : Incarnations W) (ref : ℕ) (partition : Partition) : Prop :=
  ∀ offset maxBytes records,
    (partition.readRecords s.cluster.tiers offset maxBytes).2 = .ok records →
      ∀ e ∈ records, e.1 < partition.highWatermark ∧
        ∃ batch ∈ s.appended ref, batch.base = e.1 ∧ batch.bytes = e.2

def SafeAppend (s : Incarnations W) (ref : ℕ) (records : Bytes) : Prop :=
  ∀ partition, s.cluster.heap[ref]? = some partition →
    (∀ other partition', other ≠ ref → s.cluster.heap[other]? = some partition' →
      partition'.stream.streamId = partition.stream.streamId → partition'.highWatermark = 0) ∧
    ∀ patched count,
      patchRecordBatches records partition.stream.nextOffset = some (patched, count) →
        partition.stream.nextOffset < 0 → partition.stream.nextOffset + count < 0

def Safe (s : Incarnations W) : LifecycleAction → Prop
  | .append ref records => s.SafeAppend ref records
  | _ => True

structure Isolated (s : Incarnations W) : Prop where
  objects : ∀ (ref : ℕ) (partition : Partition), s.cluster.heap[ref]? = some partition →
    FitsSigned 64 partition.highWatermark ∧ partition.logStartOffset = 0 ∧
      partition.stream.s3Objects = []
  own : ∀ (ref : ℕ) (partition : Partition), s.cluster.heap[ref]? = some partition →
    0 < partition.highWatermark → ∀ offset bytes,
      s.cluster.tiers.logCache.get partition.stream.streamId offset = some bytes →
        offset < partition.highWatermark ∧
          ∃ batch ∈ s.appended ref, batch.base = offset ∧ batch.bytes = bytes
  owned : ∀ streamId offset bytes,
    s.cluster.tiers.logCache.get streamId offset = some bytes →
      ∃ (ref : ℕ) (partition : Partition), s.cluster.heap[ref]? = some partition ∧
        partition.stream.streamId = streamId ∧ partition.highWatermark ≠ 0

theorem isolated_fresh {tiers : Tiers W} (hemp : ∀ sid off, tiers.logCache.get sid off = none) :
    Isolated (fresh tiers) := by
  refine ⟨by simp [fresh, ClusterState.new], by simp [fresh, ClusterState.new], ?_⟩
  intro sid off bytes hget
  exact absurd ((hemp sid off).symm.trans hget) (by simp)

theorem Isolated.readsOwn (hs : Isolated s) {ref : ℕ} {partition : Partition}
    (hobj : s.cluster.heap[ref]? = some partition) : s.ReadsOwn ref partition := by
  intro offset maxBytes records hread e he
  obtain ⟨-, hstart, hobjs⟩ := hs.objects ref partition hobj
  obtain ⟨hrange, hcached⟩ := Partition.mem_readRecords hobjs hread he
  exact hs.own ref partition hobj (by omega) e.1 e.2 hcached

theorem Isolated.grows (hs : Isolated s) {cl : ClusterState W}
    (hgrows : s.cluster.Grows cl) : Isolated { s with cluster := cl } := by
  have hcache : cl.tiers = s.cluster.tiers := hgrows.tiers
  refine ⟨?_, ?_, ?_⟩
  · intro ref part hobj
    rcases hgrows.getElem? hobj with hold | ⟨tp, sid, rfl⟩
    · exact hs.objects ref part hold
    · exact ⟨(by decide : FitsSigned 64 0), rfl, rfl⟩
  · intro ref part hobj hpos off bytes hget
    rcases hgrows.getElem? hobj with hold | ⟨tp, sid, rfl⟩
    · rw [hcache] at hget
      exact hs.own ref part hold hpos off bytes hget
    · exact absurd hpos (lt_irrefl 0)
  · intro sid off bytes hget
    rw [hcache] at hget
    obtain ⟨ref, part, hobj, howner⟩ := hs.owned sid off bytes hget
    exact ⟨ref, part, hgrows.kept hobj, howner⟩

theorem append_cases [WalEngine W] {ref : ℕ} {records : Bytes}
    (hexec : s.exec (.append ref records) = some s') :
    ∃ partition partition' patched count, s.cluster.heap[ref]? = some partition ∧
      patchRecordBatches records partition.stream.nextOffset = some (patched, count) ∧
      partition'.stream = { partition.stream with
        nextOffset := wrapSigned 64 (partition.stream.nextOffset + count) } ∧
      (∀ other, s'.cluster.heap[other]? =
        if other = ref then some partition' else s.cluster.heap[other]?) ∧
      s'.cluster.partitions = s.cluster.partitions ∧
      (∀ other, other ≠ ref → s'.appended other = s.appended other) ∧
      (s'.appended ref = s.appended ref ++ [⟨partition.stream.nextOffset, count, patched⟩] ∧
          s'.cluster.tiers.logCache = s.cluster.tiers.logCache.put partition.stream.streamId
            partition.stream.nextOffset patched ∨
        s'.appended ref = s.appended ref ∧
          s'.cluster.tiers.logCache = s.cluster.tiers.logCache) := by
  obtain ⟨partition, hobj, hrest⟩ := bind_eq_some_iff.mp hexec
  obtain ⟨⟨cluster, result⟩, happ, rfl⟩ := map_eq_some_iff.mp hrest
  obtain ⟨partition₀, partition', tiers, hobj₀, hrecs, rfl⟩ :=
    ClusterState.appendRecords_eq_some happ
  obtain rfl : partition = partition₀ := some.inj (hobj.symm.trans hobj₀)
  obtain ⟨patched, count, hpat, rfl, hout⟩ := Partition.appendRecords_eq_some hrecs
  refine ⟨partition, _, patched, count, hobj, hpat, rfl,
    ClusterState.getElem?_setObject hobj _ tiers, rfl,
    fun other hoth => Function.update_of_ne hoth _ _, ?_⟩
  rcases hout with ⟨seq, -, rfl, rfl⟩ | ⟨e, -, rfl, rfl⟩
  · refine Or.inl ⟨?_, rfl⟩
    simp [PartitionLog.storedBy, hpat]
  · refine Or.inr ⟨?_, rfl⟩
    simp [PartitionLog.storedBy]

theorem watermark_append {next count : ℤ} (hfits : FitsSigned 64 next) (hcnt : 1 ≤ count)
    (hbd : count < 2 ^ 63) (hsafe : next < 0 → next + count < 0) :
    wrapSigned 64 (next + count) ≠ 0 ∧ (0 < wrapSigned 64 (next + count) →
        0 ≤ next ∧ wrapSigned 64 (next + count) = next + count) := by
  have hhi : next < 2 ^ 63 := hfits.2
  obtain ⟨-, hsum⟩ | ⟨hover, hsum⟩ := wrapSigned_add_cases hfits (by omega) hbd
  · rw [hsum]
    exact ⟨by omega, fun hpos => ⟨by omega, rfl⟩⟩
  · rw [hsum]
    omega

theorem Isolated.own_of_safe (hs : Isolated s) {ref : ℕ} {partition : Partition}
    (hobj : s.cluster.heap[ref]? = some partition) (hnext : 0 ≤ partition.highWatermark)
    (hoths : ∀ (other : ℕ) (partition' : Partition), other ≠ ref →
      s.cluster.heap[other]? = some partition' →
      partition'.stream.streamId = partition.stream.streamId → partition'.highWatermark = 0)
    {offset : ℤ} {bytes : Bytes}
    (hget : s.cluster.tiers.logCache.get partition.stream.streamId offset = some bytes) :
    offset < partition.highWatermark ∧
      ∃ batch ∈ s.appended ref, batch.base = offset ∧ batch.bytes = bytes := by
  rcases hnext.lt_or_eq with hpos | hzero
  · exact hs.own ref partition hobj hpos offset bytes hget
  · obtain ⟨owner, partition', howner, hid, hnz⟩ := hs.owned _ offset bytes hget
    have hne : owner ≠ ref := by
      rintro rfl
      obtain rfl : partition = partition' := some.inj (hobj.symm.trans howner)
      exact hnz hzero.symm
    exact absurd (hoths owner partition' hne howner hid) hnz

theorem Isolated.append [WalEngine W] (hs : Isolated s) {ref : ℕ} {records : Bytes}
    (hsafe : s.SafeAppend ref records) (hexec : s.exec (.append ref records) = some s') :
    Isolated s' := by
  obtain ⟨partition, partition', patched, count, hobj, hpat, hstr, hheap, -, hkept,
    hout⟩ := append_cases hexec
  obtain ⟨hoths, hwrap⟩ := hsafe partition hobj
  obtain ⟨hfits, hstart, hobjs⟩ := hs.objects ref partition hobj
  obtain ⟨hnz, hpositive⟩ := watermark_append hfits (one_le_patchRecordBatches hpat)
    (patchRecordBatches_lt hpat) (hwrap patched count hpat)
  have hcnt := one_le_patchRecordBatches hpat
  have hwm : partition'.highWatermark = wrapSigned 64 (partition.highWatermark + count) := by
    rw [Partition.highWatermark, hstr, Partition.highWatermark]
  have hid : partition'.stream.streamId = partition.stream.streamId := by rw [hstr]
  have hself : s'.cluster.heap[ref]? = some partition' := by rw [hheap, if_pos rfl]
  -- an entry of the new cache is the new one or an old one
  have he : ∀ streamId offset bytes, s'.cluster.tiers.logCache.get streamId offset = some bytes →
        (streamId = partition.stream.streamId ∧ offset = partition.highWatermark ∧
          ∃ batch ∈ s'.appended ref, batch.base = offset ∧ batch.bytes = bytes) ∨
        s.cluster.tiers.logCache.get streamId offset = some bytes := by
    intro streamId offset bytes hget
    rcases hout with ⟨hnew, hcache⟩ | ⟨-, hcache⟩
    · rw [hcache] at hget
      refine (LogCache.get_of_get_put hget).imp_left ?_
      rintro ⟨hstr', hoff, hbytes⟩
      refine ⟨hstr', hoff, ⟨partition.stream.nextOffset, count, patched⟩, ?_,
        hoff.symm, hbytes.symm⟩
      rw [hnew]
      exact List.mem_append_right _ (List.mem_singleton_self _)
    · rw [hcache] at hget
      exact Or.inr hget
  have hgrown : ∀ batch ∈ s.appended ref, batch ∈ s'.appended ref := by
    intro batch hb
    rcases hout with ⟨hnew, -⟩ | ⟨hnew, -⟩
    · rw [hnew]
      exact List.mem_append_left _ hb
    · rwa [hnew]
  refine ⟨?_, ?_, ?_⟩
  · intro other object hoth
    rw [hheap] at hoth
    split at hoth
    · cases hoth
      rw [hwm, Partition.logStartOffset, hstr]
      exact ⟨wrapSigned_fits (by decide) _, hstart, hobjs⟩
    · exact hs.objects other object hoth
  · intro other object hoth hpos offset bytes hget
    rw [hheap] at hoth
    split at hoth
    · rename_i heq
      subst heq
      cases hoth
      rw [hwm] at hpos ⊢
      obtain ⟨hnext, hsum⟩ := hpositive hpos
      have hsum' : wrapSigned 64 (partition.highWatermark + count) =
          partition.highWatermark + count := hsum
      rw [hsum']
      rw [hid] at hget
      rcases he _ offset bytes hget with ⟨-, hoff, hb⟩ | hold
      · exact ⟨by omega, hb⟩
      · obtain ⟨hlt, batch, hb, hown⟩ := hs.own_of_safe hobj hnext hoths hold
        exact ⟨by omega, batch, hgrown batch hb, hown⟩
    · rename_i hne
      rw [hkept other hne]
      rcases he _ offset bytes hget with ⟨hsame, -⟩ | hold
      · exact absurd (hoths other object hne hoth hsame) (by omega)
      · exact hs.own other object hoth hpos offset bytes hold
  · intro streamId offset bytes hget
    rcases he streamId offset bytes hget with ⟨hsame, -⟩ | hold
    · exact ⟨ref, partition', hself, by rw [hid, hsame], by rw [hwm]; exact hnz⟩
    · obtain ⟨owner, object, howner, hid', hnz'⟩ := hs.owned streamId offset bytes hold
      by_cases heq : owner = ref
      · subst heq
        obtain rfl : partition = object := some.inj (hobj.symm.trans howner)
        exact ⟨owner, partition', hself, hid.trans hid', by rw [hwm]; exact hnz⟩
      · exact ⟨owner, object, by rw [hheap, if_neg heq]; exact howner, hid', hnz'⟩

theorem isolated_exec [WalEngine W] {act : LifecycleAction} (hs : Isolated s)
    (hsafe : s.Safe act) (hexec : s.exec act = some s') :
    Isolated s' := by
  cases act with
  | append ref recs => exact hs.append hsafe hexec
  | createTopic name num repl configs =>
    cases hexec
    exact hs.grows (s.cluster.grows_createTopic name num repl configs)
  | createPartitions name cnt asgs valOnly =>
    cases hexec
    exact hs.grows (s.cluster.grows_createPartitions name cnt asgs valOnly)
  | autoCreate tp =>
    cases hexec
    exact hs.grows (s.cluster.grows_getOrCreatePartition tp)
  | deleteTopic name =>
    cases hexec
    exact hs.grows (s.cluster.grows_deleteTopic name)
  | reset =>
    cases hexec
    exact hs.grows s.cluster.grows_reset
  | applySnapshot snap =>
    cases hexec
    exact hs.grows (s.cluster.grows_applySnapshot snap)
  | reorder sid =>
    cases hexec
    refine ⟨hs.objects, ?_, ?_⟩
    · intro ref part hobj hpos off bytes hget
      exact hs.own ref part hobj hpos off bytes ((LogCache.get_reorder _ _ _ _).symm.trans hget)
    · intro owner off bytes hget
      exact hs.owned owner off bytes ((LogCache.get_reorder _ _ _ _).symm.trans hget)

theorem reads_own_incarnation [WalEngine W] {tiers : Tiers W} {actions : List LifecycleAction}
    {s : Incarnations W}
    (hempty : ∀ streamId offset, tiers.logCache.get streamId offset = none)
    (hsafe : Along exec Safe (fresh tiers) actions)
    (hrun : run exec (fresh tiers) actions = some s) (ref : ℕ) (partition : Partition)
    (hobject : s.cluster.heap[ref]? = some partition) : s.ReadsOwn ref partition := by
  have hs : Isolated s :=
    run_invariant (fun _ _ _ hs hsafe hexec => isolated_exec hs hsafe hexec)
      (isolated_fresh hempty) hsafe hrun
  exact hs.readsOwn hobject

theorem reads_own_after_deletion : ∃ s : Incarnations MemoryWal,
      run exec (fresh PartitionLog.emptyTiers)
        [.autoCreate ⟨"orders", 0⟩, .append 0 [1, 2, 3], .deleteTopic "orders",
          .autoCreate ⟨"orders", 0⟩, .append 1 [9]] = some s ∧
      ∀ partition, s.cluster.heap[1]? = some partition → s.ReadsOwn 1 partition := by
  have hsafe : Along exec Safe (fresh PartitionLog.emptyTiers)
      [.autoCreate ⟨"orders", 0⟩, .append 0 [1, 2, 3], .deleteTopic "orders",
        .autoCreate ⟨"orders", 0⟩, .append 1 [9]] := by
    refine Along.cons trivial rfl (Along.cons ?_ rfl (Along.cons trivial rfl
      (Along.cons trivial rfl (Along.cons ?_ rfl trivial))))
    · rintro partition hobj
      cases hobj
      refine ⟨?_, fun _ _ _ h => absurd h (by decide)⟩
      rintro (_ | other) part' hne hoth -
      · exact absurd rfl hne
      · exact absurd (List.getElem?_eq_some_iff.mp hoth).1 (not_lt.mpr (Nat.le_add_left 1 other))
    · rintro partition hobj
      cases hobj
      refine ⟨?_, fun _ _ _ h => absurd h (by decide)⟩
      rintro (_ | _ | other) part' hne hoth hid
      · cases hoth
        exact absurd hid (by decide +kernel)
      · exact absurd rfl hne
      · exact absurd (List.getElem?_eq_some_iff.mp hoth).1 (not_lt.mpr (Nat.le_add_left 2 other))
  refine ⟨_, rfl, ?_⟩
  exact reads_own_incarnation (fun _ _ => rfl) hsafe rfl 1

theorem old_record_read_after_reset : ∃ (s : Incarnations MemoryWal) (partition : Partition),
      run exec (fresh PartitionLog.emptyTiers)
        [.autoCreate ⟨"orders", 0⟩, .append 0 [1], .append 0 [2], .reset,
          .autoCreate ⟨"orders", 0⟩, .append 1 [9]] = some s ∧
      s.cluster.getPartition ⟨"orders", 0⟩ = some partition ∧
      (partition.readRecords s.cluster.tiers 0 1024).2 = .ok [(0, [9]), (1, [2])] ∧
      partition.highWatermark = 1 ∧ ¬s.ReadsOwn 1 partition := by
  refine ⟨_, _, rfl, rfl, rfl, rfl, ?_⟩
  intro hown
  have hlt := (hown 0 1024 [(0, [9]), (1, [2])] rfl (1, [2]) (by simp)).1
  exact absurd hlt (by decide +kernel)

def CacheLive (cluster : ClusterState W) : Prop :=
  ∀ streamId offset bytes, cluster.tiers.logCache.get streamId offset = some bytes →
    ∃ tp partition, cluster.getPartition tp = some partition ∧
      partition.stream.streamId = streamId

def Uncached (cluster : ClusterState W) (names : TopicPartition → Prop) : Prop :=
  ∀ tp partition, names tp → cluster.getPartition tp = some partition →
    ∀ offset, cluster.tiers.logCache.get partition.stream.streamId offset = none

def Emptied (s : Incarnations W) : LifecycleAction → Prop
  | .deleteTopic name => Uncached s.cluster fun tp => tp.topic = name
  | .reset | .applySnapshot _ => Uncached s.cluster fun _ => True
  | .append ref _ => ∃ tp, s.cluster.partitions.lookup tp = some ref
  | _ => True

section Cached

variable {cl cl' : ClusterState W}

theorem CacheLive.kept (h : CacheLive cl) (htiers : cl'.tiers = cl.tiers)
    (hkept : ∀ tp partition, cl.getPartition tp = some partition →
      (∃ offset, cl.tiers.logCache.get partition.stream.streamId offset ≠ none) →
        cl'.getPartition tp = some partition) : CacheLive cl' := by
  intro sid off bytes hget
  rw [htiers] at hget
  obtain ⟨tp, part, hpart, rfl⟩ := h sid off bytes hget
  exact ⟨tp, part, hkept tp part hpart ⟨off, by simp [hget]⟩, rfl⟩

theorem getPartition_createAll_of_some {tp : TopicPartition} {part : Partition}
    (tps : List TopicPartition) (h : cl.getPartition tp = some part) :
    (cl.createAll tps).getPartition tp = some part := by
  induction tps generalizing cl with
  | nil => exact h
  | cons first tps ih =>
    refine ih ?_
    rw [ClusterState.getPartition_getOrCreatePartition]
    split_ifs with hname
    · rw [← hname, ClusterState.partitionFor_of_some h]
    · exact h

theorem CacheLive.createAll (h : CacheLive cl) (tps : List TopicPartition) :
    CacheLive (cl.createAll tps) :=
  h.kept (cl.grows_createAll tps).tiers fun _ _ hpart _ => getPartition_createAll_of_some tps hpart

theorem CacheLive.reset (h : CacheLive cl) (hcond : Uncached cl fun _ => True) :
    CacheLive cl.reset := by
  refine h.kept rfl fun tp part hpart ⟨off, hcached⟩ => ?_
  exact absurd (hcond tp part trivial hpart off) hcached

theorem CacheLive.deleteTopic (h : CacheLive cl) {name : String}
    (hcond : Uncached cl fun tp => tp.topic = name) : CacheLive (cl.deleteTopic name).1 := by
  refine h.kept rfl fun tp part hpart ⟨off, hcached⟩ => ?_
  have hne : tp.topic ≠ name := fun heq => hcached (hcond tp part heq hpart off)
  simpa [ClusterState.deleteTopic, ClusterState.getPartition, HashMap.lookup_retainKeys, hne]
    using hpart

end Cached

theorem CacheLive.append [WalEngine W] (h : CacheLive s.cluster) {ref : ℕ} {records : Bytes}
    (hptr : ∃ tp, s.cluster.partitions.lookup tp = some ref)
    (hexec : s.exec (.append ref records) = some s') : CacheLive s'.cluster := by
  obtain ⟨partition, partition', patched, count, hobj, -, hstr, hheap, htable, -, hout⟩ :=
    append_cases hexec
  obtain ⟨tp, hptr⟩ := hptr
  have hself : ∃ tp partition', s'.cluster.getPartition tp = some partition' ∧
      partition'.stream.streamId = partition.stream.streamId :=
    ⟨tp, partition', ClusterState.getPartition_eq_some.mpr
      ⟨ref, by rw [htable, hptr], by rw [hheap, if_pos rfl]⟩, by rw [hstr]⟩
  intro sid off bytes hget
  have hentry : sid = partition.stream.streamId ∨
      s.cluster.tiers.logCache.get sid off = some bytes := by
    rcases hout with ⟨-, hcache⟩ | ⟨-, hcache⟩
    · rw [hcache] at hget
      exact (LogCache.get_of_get_put hget).imp_left And.left
    · exact Or.inr (hcache ▸ hget)
  rcases hentry with rfl | hold
  · exact hself
  · obtain ⟨tp', part, hpart, rfl⟩ := h sid off bytes hold
    obtain ⟨ref', hptr', hobj'⟩ := ClusterState.getPartition_eq_some.mp hpart
    by_cases heq : ref' = ref
    · obtain rfl : partition = part := some.inj (hobj.symm.trans (heq ▸ hobj'))
      exact hself
    · exact ⟨tp', part, ClusterState.getPartition_eq_some.mpr
        ⟨ref', by rw [htable, hptr'], by rw [hheap, if_neg heq, hobj']⟩, rfl⟩

theorem cacheLive_exec [WalEngine W] {act : LifecycleAction} (h : CacheLive s.cluster)
    (hcond : s.Emptied act) (hexec : s.exec act = some s') : CacheLive s'.cluster := by
  cases act with
  | append ref recs => exact h.append hcond hexec
  | createTopic name num repl configs =>
    cases hexec
    unfold ClusterState.createTopic
    dsimp only
    split_ifs
    all_goals first | exact h | exact h.createAll _
  | createPartitions name cnt asgs valOnly =>
    cases hexec
    unfold ClusterState.createPartitions
    dsimp only
    split_ifs
    all_goals first | exact h | exact h.createAll _
  | autoCreate tp =>
    cases hexec
    exact h.createAll [tp]
  | deleteTopic name =>
    cases hexec
    exact h.deleteTopic hcond
  | reset =>
    cases hexec
    exact h.reset hcond
  | applySnapshot snap =>
    cases hexec
    exact (h.reset hcond).createAll _
  | reorder sid =>
    cases hexec
    intro owner off bytes hget
    exact h owner off bytes ((LogCache.get_reorder _ _ _ _).symm.trans hget)

theorem cached_streams_exist [WalEngine W] {tiers : Tiers W} {actions : List LifecycleAction}
    {s : Incarnations W}
    (hempty : ∀ streamId offset, tiers.logCache.get streamId offset = none)
    (hemptied : Along exec Emptied (fresh tiers) actions)
    (hrun : run exec (fresh tiers) actions = some s) : CacheLive s.cluster := by
  have hfresh : CacheLive (fresh tiers).cluster := by
    intro sid off bytes hget
    exact absurd ((hempty sid off).symm.trans hget) (by simp)
  exact run_invariant (fun s _ _ (h : CacheLive s.cluster) hcond hexec =>
    cacheLive_exec h hcond hexec) hfresh hemptied hrun

theorem cached_streams_exist_after_deletion : ∃ s : Incarnations MemoryWal,
    run exec (fresh PartitionLog.emptyTiers)
      [.autoCreate ⟨"orders", 0⟩, .autoCreate ⟨"events", 0⟩, .append 1 [9],
        .deleteTopic "orders"] = some s ∧ CacheLive s.cluster := by
  have hemptied : Along exec Emptied (fresh PartitionLog.emptyTiers)
      [.autoCreate ⟨"orders", 0⟩, .autoCreate ⟨"events", 0⟩, .append 1 [9],
        .deleteTopic "orders"] := by
    refine Along.cons trivial rfl (Along.cons trivial rfl (Along.cons ⟨⟨"events", 0⟩, rfl⟩ rfl
      (Along.cons ?_ rfl trivial)))
    intro tp part htopic hpart off
    obtain ⟨ref, hptr, hobj⟩ := ClusterState.getPartition_eq_some.mp hpart
    rcases ref with _ | _ | ref
    · cases hobj
      rfl
    · have hname := ClusterState.unshared _ tp ⟨"events", 0⟩ 1 hptr rfl
      exact absurd (hname ▸ htopic) (by decide)
    · exact absurd (List.getElem?_eq_some_iff.mp hobj).1 (not_lt.mpr (Nat.le_add_left 2 ref))
  exact ⟨_, rfl, cached_streams_exist (fun _ _ => rfl) hemptied rfl⟩

theorem cached_stream_outlives_topic : ∃ s : Incarnations MemoryWal,
    run exec (fresh PartitionLog.emptyTiers)
      [.createTopic "orders" 1 1 ∅, .append 0 [9], .deleteTopic "orders"] = some s ∧
      s.cluster.tiers.logCache.get 100 0 = some [9] ∧ s.cluster.partitions.keys = [] ∧
      ¬CacheLive s.cluster := by
  refine ⟨_, rfl, rfl, rfl, ?_⟩
  intro h
  obtain ⟨tp, part, hpart, -⟩ := h 100 0 [9] rfl
  cases hpart

end Incarnations

end OxideMq.Broker
