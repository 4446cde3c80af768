import OxideMq.Protocol.ErrorCode
import OxideMq.Broker.Partition

/-! The cluster state: which topics and partitions exist. -/

namespace OxideMq.Broker

open Lib OxideMq.Core OxideMq.Protocol OxideMq.Wal OxideMq.Stream List Option

structure TopicRegistration where
  name : String
  numPartitions : ℤ
  replicationFactor : ℤ
  configs : HashMap String String

structure ClusterState (W : Type) where
  heap : List Partition
  partitions : HashMap TopicPartition ℕ
  topics : HashMap String TopicRegistration
  tiers : Tiers W
  nextStreamId : ℕ
  allocated : ∀ tp ref, partitions.lookup tp = some ref → ref < heap.length
  unshared : ∀ tp tp' ref, partitions.lookup tp = some ref →
    partitions.lookup tp' = some ref → tp = tp'

namespace ClusterState

variable {W : Type}

def new (tiers : Tiers W) : ClusterState W :=
  ⟨[], ∅, ∅, tiers, 100, by simp, by simp⟩

def getPartition (cluster : ClusterState W) (tp : TopicPartition) : Option Partition :=
  (cluster.partitions.lookup tp).bind (cluster.heap[·]?)

def newPartition (cluster : ClusterState W) (tp : TopicPartition) : Partition :=
  Partition.new tp (S3Stream.new cluster.nextStreamId 0)

theorem lookup_insert_length {heap : List Partition} {parts : HashMap TopicPartition ℕ}
    (hallocated : ∀ tp ref, parts.lookup tp = some ref → ref < heap.length)
    {tp tp' : TopicPartition} {ref : ℕ}
    (h : (parts.insert tp heap.length).lookup tp' = some ref) :
    tp' = tp ∧ ref = heap.length ∨ tp' ≠ tp ∧ parts.lookup tp' = some ref ∧ ref < heap.length := by
  rw [HashMap.lookup_insert_ite] at h
  split at h
  · exact Or.inl ⟨‹_›, (some.inj h).symm⟩
  · exact Or.inr ⟨‹_›, h, hallocated _ _ h⟩

theorem allocated_insert (cluster : ClusterState W) (tp tp' : TopicPartition) (ref : ℕ)
    (h : (cluster.partitions.insert tp cluster.heap.length).lookup tp' = some ref) :
    ref < (cluster.heap ++ [cluster.newPartition tp]).length := by
  rw [List.length_append, List.length_singleton]
  rcases lookup_insert_length cluster.allocated h with ⟨-, rfl⟩ | ⟨-, -, hlt⟩ <;> omega

theorem unshared_insert (cluster : ClusterState W) (tp tp₁ tp₂ : TopicPartition) (ref : ℕ)
    (h₁ : (cluster.partitions.insert tp cluster.heap.length).lookup tp₁ = some ref)
    (h₂ : (cluster.partitions.insert tp cluster.heap.length).lookup tp₂ = some ref) :
    tp₁ = tp₂ := by
  rcases lookup_insert_length cluster.allocated h₁ with ⟨rfl, rfl⟩ | ⟨-, hold₁, hlt₁⟩ <;>
    rcases lookup_insert_length cluster.allocated h₂ with ⟨rfl, heq⟩ | ⟨-, hold₂, hlt₂⟩
  · rfl
  · omega
  · omega
  · exact cluster.unshared _ _ _ hold₁ hold₂

def getOrCreatePartition (cluster : ClusterState W) (tp : TopicPartition) : ClusterState W × ℕ :=
  match cluster.partitions.lookup tp with
  | some ref => (cluster, ref)
  | none =>
      ({ cluster with
          heap := cluster.heap ++ [cluster.newPartition tp]
          partitions := cluster.partitions.insert tp cluster.heap.length
          nextStreamId := cluster.nextStreamId + 1
          allocated := cluster.allocated_insert tp
          unshared := cluster.unshared_insert tp },
        cluster.heap.length)

def setObject (cluster : ClusterState W) (ref : ℕ) (partition : Partition) (tiers : Tiers W) :
    ClusterState W :=
  { cluster with
    heap := cluster.heap.set ref partition
    tiers := tiers
    allocated := by simpa using cluster.allocated }

/-- `append_records` through a pointer; none when the process aborts. -/
def appendRecords [WalEngine W] (cluster : ClusterState W) (ref : ℕ) (records : Bytes) :
    Option (ClusterState W × Except OxideMqError ℤ) :=
  (cluster.heap[ref]?).bind fun partition =>
    (partition.appendRecords cluster.tiers records).map fun (partition', tiers, result) =>
      (cluster.setObject ref partition' tiers, result)

def modifyObject (cluster : ClusterState W) (ref : ℕ) (f : Partition → Partition) :
    ClusterState W :=
  { cluster with
    heap := cluster.heap.modify ref f
    allocated := by simpa using cluster.allocated }

/-- `append_records` on the partition of a name, which is created if need be. -/
def appendTo [WalEngine W] (cluster : ClusterState W) (tp : TopicPartition) (records : Bytes) :
    Option (ClusterState W × Except OxideMqError ℤ) :=
  let (cluster', ref) := cluster.getOrCreatePartition tp
  cluster'.appendRecords ref records

def createAll (cluster : ClusterState W) (tps : List TopicPartition) : ClusterState W :=
  tps.foldl (fun cluster tp => (cluster.getOrCreatePartition tp).1) cluster

def hasTopic (cluster : ClusterState W) (name : String) : Bool :=
  (cluster.topics.lookup name).isSome || cluster.partitions.keys.any fun tp => tp.topic = name

def validName (name : String) : Bool :=
  !(name.isEmpty || name == "." || name == ".." || decide (name.utf8ByteSize > 249)) &&
    name.toList.all fun c => c.isAlphanum || c == '.' || c == '_' || c == '-'

def topicPartitions (name : String) (lo hi : ℤ) : List TopicPartition :=
  (List.range (hi - lo).toNat).map fun i => ⟨name, lo + i⟩

def createTopic (cluster : ClusterState W) (name : String) (numPartitions replicationFactor : ℤ)
    (configs : HashMap String String) : ClusterState W × Except KafkaErrorCode Unit :=
  let parts := if numPartitions = -1 then 1 else numPartitions
  let rf := if replicationFactor = -1 then 1 else replicationFactor
  if !validName name then (cluster, .error .invalidTopicException)
  else if parts ≤ 0 ∨ parts > 10000 then (cluster, .error .invalidPartitions)
  else if rf ≤ 0 then (cluster, .error .invalidReplicationFactor)
  else if cluster.hasTopic name then (cluster, .error .topicAlreadyExists)
  else
    let cluster' := cluster.createAll (topicPartitions name 0 parts)
    ({ cluster' with topics := cluster'.topics.insert name ⟨name, parts, rf, configs⟩ }, .ok ())

def deleteTopic (cluster : ClusterState W) (name : String) :
    ClusterState W × Except KafkaErrorCode Unit :=
  let existedInTopics := (cluster.topics.lookup name).isSome
  let removedPartitions := cluster.partitions.keys.any fun tp => tp.topic = name
  ({ cluster with
      topics := cluster.topics.erase name
      partitions := cluster.partitions.retainKeys fun tp => tp.topic ≠ name
      allocated := by
        intro tp ref h
        rw [HashMap.lookup_retainKeys] at h
        split at h
        · exact cluster.allocated tp ref h
        · simp at h
      unshared := by
        intro tp tp' ref h h'
        rw [HashMap.lookup_retainKeys] at h h'
        split at h <;> split at h'
        · exact cluster.unshared tp tp' ref h h'
        all_goals simp_all },
    if !existedInTopics && !removedPartitions then .error .unknownTopicOrPartition else .ok ())

def currentCount (cluster : ClusterState W) (name : String) : ℤ :=
  match cluster.topics.lookup name with
  | some registration => registration.numPartitions
  | none =>
      (((cluster.partitions.keys.filter fun tp => tp.topic = name).map fun tp =>
        wrapSigned 32 (tp.partition + 1)).max?).getD 0

def createPartitions (cluster : ClusterState W) (name : String) (newCount : ℤ)
    (assignments : Option ℕ) (validateOnly : Bool) :
    ClusterState W × Except KafkaErrorCode Unit :=
  let current := cluster.currentCount name
  if !cluster.hasTopic name then (cluster, .error .unknownTopicOrPartition)
  else if newCount ≤ current then (cluster, .error .invalidPartitions)
  else if newCount ≤ 0 ∨ newCount > 10000 then (cluster, .error .invalidPartitions)
  else if assignments.any fun n => n ≠ ofSigned 64 (wrapSigned 32 (newCount - current)) then
    (cluster, .error .invalidRequest)
  else if validateOnly then (cluster, .ok ())
  else
    let cluster' := cluster.createAll (topicPartitions name current newCount)
    ({ cluster' with
        topics := match cluster'.topics.lookup name with
          | some _ => cluster'.topics.modify name ({ · with numPartitions := newCount })
          | none => cluster'.topics.insert name ⟨name, newCount, 1, ∅⟩ }, .ok ())

def deleteRecords (cluster : ClusterState W) (tp : TopicPartition) (beforeOffset : ℤ) :
    ClusterState W × Except KafkaErrorCode ℤ :=
  match (cluster.partitions.lookup tp).bind fun ref => (cluster.heap[ref]?).map (Prod.mk ref) with
  | none => (cluster, .error .unknownTopicOrPartition)
  | some (ref, partition) =>
      let hw := partition.highWatermark
      if beforeOffset ≠ -1 ∧ (beforeOffset < 0 ∨ beforeOffset > hw) then
        (cluster, .error .offsetOutOfRange)
      else
        let targetOffset := if beforeOffset = -1 then hw else beforeOffset
        let currentStart := partition.logStartOffset
        if targetOffset ≤ currentStart then (cluster, .ok currentStart)
        else
          let (partition', tiers, newLw) :=
            partition.advanceLogStartOffset cluster.tiers targetOffset
          (cluster.setObject ref partition' tiers, .ok newLw)

def updateConfigs (configs : HashMap String String) (entries : List (String × Option String)) :
    HashMap String String :=
  entries.foldl (fun configs entry =>
    match entry.2 with
    | some value => configs.insert entry.1 value
    | none => configs.erase entry.1) configs

def givenConfigs (entries : List (String × Option String)) : HashMap String String :=
  entries.foldl (fun configs entry =>
    match entry.2 with
    | some value => configs.insert entry.1 value
    | none => configs) ∅

def updateTopicConfigs (cluster : ClusterState W) (name : String)
    (entries : List (String × Option String)) : ClusterState W × Except KafkaErrorCode Unit :=
  if !cluster.hasTopic name then (cluster, .error .unknownTopicOrPartition)
  else
    ({ cluster with
      topics := match cluster.topics.lookup name with
        | some _ => cluster.topics.modify name fun topic =>
            { topic with configs := updateConfigs topic.configs entries }
        | none =>
            let parts := wrapSigned 32 (cluster.partitions.keys.filter fun tp => tp.topic = name).length
            cluster.topics.insert name ⟨name, max parts 1, 1, givenConfigs entries⟩ }, .ok ())

def reset (cluster : ClusterState W) : ClusterState W :=
  { cluster with
    topics := ∅
    partitions := ∅
    nextStreamId := 100
    allocated := by simp
    unshared := by simp }

end ClusterState

structure PartitionSnapshot where
  topic : String
  partition : ℤ
  streamId : ℕ
  highWatermark : ℤ
  logStartOffset : ℤ
  deriving DecidableEq, Repr

namespace ClusterState

variable {W : Type}
variable {cluster cluster' : ClusterState W} {tp : TopicPartition} {ref : ℕ} {partition : Partition}
  {records : Bytes} {result : Except OxideMqError ℤ} {tiers : Tiers W}

def dumpPartitionSnapshots (cluster : ClusterState W) : List PartitionSnapshot :=
  cluster.partitions.entries.filterMap fun e =>
    (cluster.heap[e.2]?).map fun partition =>
      ⟨e.1.topic, e.1.partition, partition.stream.streamId, partition.highWatermark,
        partition.logStartOffset⟩

/-- `ClusterStateSnapshot::apply`, without the consumer groups. -/
def applySnapshot (cluster : ClusterState W) (snapshot : List PartitionSnapshot) :
    ClusterState W :=
  cluster.reset.createAll (snapshot.map fun p => ⟨p.topic, p.partition⟩)

structure Grows (cluster cluster' : ClusterState W) : Prop where
  heap : ∃ created, cluster'.heap = cluster.heap ++ created ∧
    ∀ partition ∈ created, ∃ tp streamId, partition = Partition.new tp (S3Stream.new streamId 0)
  tiers : cluster'.tiers = cluster.tiers

theorem Grows.refl (cluster : ClusterState W) : Grows cluster cluster :=
  ⟨⟨[], by simp, by simp⟩, rfl⟩

theorem Grows.trans {c₁ c₂ c₃ : ClusterState W} (h : Grows c₁ c₂) (h' : Grows c₂ c₃) :
    Grows c₁ c₃ := by
  obtain ⟨⟨created, hheap, hnew⟩, htiers⟩ := h
  obtain ⟨⟨created', hheap', hnew'⟩, htiers'⟩ := h'
  refine ⟨⟨created ++ created', by rw [hheap', hheap, append_assoc], ?_⟩, htiers'.trans htiers⟩
  exact forall_mem_append.mpr ⟨hnew, hnew'⟩

theorem Grows.getElem? (h : Grows cluster cluster') (hobj : cluster'.heap[ref]? = some partition) :
    
    cluster.heap[ref]? = some partition ∨
      ∃ tp sid, partition = Partition.new tp (S3Stream.new sid 0) := by
  obtain ⟨created, hheap, hnew⟩ := h.heap
  rw [hheap, getElem?_append] at hobj
  split at hobj
  · exact Or.inl hobj
  · exact Or.inr (hnew partition (mem_of_getElem? hobj))

theorem Grows.kept (h : Grows cluster cluster') (hobj : cluster.heap[ref]? = some partition) :
    cluster'.heap[ref]? = some partition := by
  obtain ⟨created, hheap, -⟩ := h.heap
  rw [hheap, List.getElem?_append_left (List.getElem?_eq_some_iff.mp hobj).1]
  exact hobj

theorem grows_getOrCreatePartition (cl : ClusterState W) (tp : TopicPartition) :
    Grows cl (cl.getOrCreatePartition tp).1 := by
  unfold getOrCreatePartition
  split
  · exact Grows.refl cl
  · refine ⟨⟨[cl.newPartition tp], rfl, ?_⟩, rfl⟩
    rw [forall_mem_singleton]
    exact ⟨tp, cl.nextStreamId, rfl⟩

theorem grows_createAll (cl : ClusterState W) (tps : List TopicPartition) :
    Grows cl (cl.createAll tps) := by
  induction tps generalizing cl with
  | nil => exact Grows.refl cl
  | cons tp tps ih => exact (grows_getOrCreatePartition cl tp).trans (ih _)

theorem grows_createAll_topics (cl : ClusterState W) (tps : List TopicPartition)
    (topics : HashMap String TopicRegistration) :
    Grows cl { cl.createAll tps with topics := topics } :=
  ⟨(grows_createAll cl tps).heap, (grows_createAll cl tps).tiers⟩

theorem grows_createTopic (cluster : ClusterState W) (name : String)
    (numPartitions replicationFactor : ℤ) (configs : HashMap String String) :
    Grows cluster (cluster.createTopic name numPartitions replicationFactor configs).1 := by
  unfold createTopic
  dsimp only
  split_ifs
  all_goals first | exact Grows.refl cluster | exact grows_createAll_topics cluster _ _

theorem grows_createPartitions (cluster : ClusterState W) (name : String) (newCount : ℤ)
    (assignments : Option ℕ) (validateOnly : Bool) :
    Grows cluster (cluster.createPartitions name newCount assignments validateOnly).1 := by
  unfold createPartitions
  dsimp only
  split_ifs
  all_goals first | exact Grows.refl cluster | exact grows_createAll_topics cluster _ _

theorem grows_deleteTopic (cl : ClusterState W) (name : String) :
    Grows cl (cl.deleteTopic name).1 :=
  ⟨⟨[], by simp [deleteTopic], by simp⟩, rfl⟩

theorem grows_reset (cl : ClusterState W) : Grows cl cl.reset :=
  ⟨⟨[], by simp [reset], by simp⟩, rfl⟩

theorem grows_applySnapshot (cl : ClusterState W) (snap : List PartitionSnapshot) :
    Grows cl (cl.applySnapshot snap) :=
  (grows_reset cl).trans (grows_createAll _ _)

theorem appendRecords_eq_some [WalEngine W]
    (h : cluster.appendRecords ref records = some (cluster', result)) :
    ∃ partition part' tiers, cluster.heap[ref]? = some partition ∧
      partition.appendRecords cluster.tiers records = some (part', tiers, result) ∧
      cluster' = cluster.setObject ref part' tiers := by
  obtain ⟨partition, hobj, hrest⟩ := bind_eq_some_iff.mp h
  obtain ⟨⟨part', tiers, res'⟩, happ, heq⟩ := map_eq_some_iff.mp hrest
  cases heq
  exact ⟨partition, part', tiers, hobj, happ, rfl⟩

theorem getElem?_setObject (hobj : cluster.heap[ref]? = some partition) (part' : Partition)
    (tiers : Tiers W) (other : ℕ) :
    (cluster.setObject ref part' tiers).heap[other]? =
      if other = ref then some part' else cluster.heap[other]? := by
  have hlt : ref < cluster.heap.length := (List.getElem?_eq_some_iff.mp hobj).1
  rw [setObject, getElem?_set]
  by_cases h : ref = other
  · subst h
    simp [hlt]
  · rw [if_neg h, if_neg (Ne.symm h)]

def partitionFor (cluster : ClusterState W) (tp : TopicPartition) : Partition :=
  (cluster.getPartition tp).getD (cluster.newPartition tp)

theorem getPartition_eq_some : cluster.getPartition tp = some partition ↔
      ∃ ref, cluster.partitions.lookup tp = some ref ∧ cluster.heap[ref]? = some partition :=
  bind_eq_some_iff

theorem partitionFor_of_some (h : cluster.getPartition tp = some partition) :
    cluster.partitionFor tp = partition := by
  rw [partitionFor, h, getD_some]

theorem ongoing_of_partitionFor {pid first : ℤ}
    (h : (cluster.partitionFor tp).ongoingTxns.lookup pid = some first) :
    ∃ partition, cluster.getPartition tp = some partition ∧
      partition.ongoingTxns.lookup pid = some first := by
  rw [partitionFor] at h
  cases hpart : cluster.getPartition tp with
  | some partition =>
    rw [hpart, getD_some] at h
    exact ⟨partition, rfl, h⟩
  | none =>
    rw [hpart, getD_none] at h
    exact absurd h (by simp [newPartition, Partition.new])

theorem getPartition_of_lookup (h : cluster.partitions.lookup tp = some ref) :
    ∃ partition, cluster.heap[ref]? = some partition ∧ cluster.getPartition tp = some partition := by
  have hlt := cluster.allocated tp ref h
  refine ⟨cluster.heap[ref], getElem?_eq_getElem hlt, ?_⟩
  exact getPartition_eq_some.mpr ⟨ref, h, getElem?_eq_getElem hlt⟩

/-- What `get_or_create_partition` gives for every name. -/
structure Created (cluster cluster' : ClusterState W) (tp : TopicPartition) (ref : ℕ) : Prop where
  pointer : cluster'.partitions.lookup tp = some ref
  object : cluster'.heap[ref]? = some (cluster.partitionFor tp)
  others : ∀ tp', tp' ≠ tp → cluster'.getPartition tp' = cluster.getPartition tp'
  tiers : cluster'.tiers = cluster.tiers
  streamId : cluster'.nextStreamId =
    if (cluster.getPartition tp).isSome then cluster.nextStreamId else cluster.nextStreamId + 1

theorem created_getOrCreatePartition (cl : ClusterState W) (tp : TopicPartition) :
    Created cl (cl.getOrCreatePartition tp).1 tp (cl.getOrCreatePartition tp).2 := by
  cases hl : cl.partitions.lookup tp with
  | some ref =>
    obtain ⟨partition, hobj, hget⟩ := getPartition_of_lookup hl
    simp only [getOrCreatePartition, hl]
    exact ⟨hl, by rw [hobj, partitionFor_of_some hget], fun _ _ => rfl, rfl, by rw [hget]; rfl⟩
  | none =>
    have hget : cl.getPartition tp = none := by rw [getPartition, hl, bind_none]
    simp only [getOrCreatePartition, hl]
    refine ⟨?_, ?_, ?_, rfl, by rw [hget]; rfl⟩
    · rw [HashMap.lookup_insert_ite, if_pos rfl]
    · rw [partitionFor, hget, getD_none]
      simp
    · intro tp' hne
      rw [getPartition, HashMap.lookup_insert_ite, if_neg hne, getPartition]
      cases hoth : cl.partitions.lookup tp' with
      | none => rfl
      | some ref =>
        rw [bind_some, bind_some, getElem?_append_left (cl.allocated tp' ref hoth)]

theorem getPartition_getOrCreatePartition (cl : ClusterState W) (tp tp' : TopicPartition) :
    (cl.getOrCreatePartition tp).1.getPartition tp' =
      if tp' = tp then some (cl.partitionFor tp) else cl.getPartition tp' := by
  have hcr := created_getOrCreatePartition cl tp
  split_ifs with hname
  · rw [hname]
    exact getPartition_eq_some.mpr ⟨_, hcr.pointer, hcr.object⟩
  · exact hcr.others tp' hname

theorem isSome_getPartition_createAll (cl : ClusterState W) (tps : List TopicPartition)
    (tp : TopicPartition) :
    ((cl.createAll tps).getPartition tp).isSome ↔ (cl.getPartition tp).isSome ∨ tp ∈ tps := by
  induction tps generalizing cl with
  | nil => simp [createAll]
  | cons first tps ih =>
    rw [createAll, foldl_cons, ← createAll, ih, getPartition_getOrCreatePartition, mem_cons]
    by_cases hname : tp = first
    · simp [hname]
    · simp [hname]

theorem getPartition_createAll {tps : List TopicPartition}
    (h : (cluster.createAll tps).getPartition tp = some partition) :
    cluster.getPartition tp = some partition ∨
      ∃ sid, partition = Partition.new tp (S3Stream.new sid 0) := by
  induction tps generalizing cluster with
  | nil => exact Or.inl h
  | cons first tps ih =>
    rcases ih h with hfirst | hnew
    · rw [getPartition_getOrCreatePartition] at hfirst
      split_ifs at hfirst with hname
      · rw [hname, ← some.inj hfirst, partitionFor]
        cases hget : cluster.getPartition first with
        | some old => exact Or.inl rfl
        | none => exact Or.inr ⟨cluster.nextStreamId, rfl⟩
      · exact Or.inl hfirst
    · exact Or.inr hnew

theorem getPartition_setObject (hptr : cluster.partitions.lookup tp = some ref)
    (part : Partition) (tiers : Tiers W) (tp' : TopicPartition) :
    (cluster.setObject ref part tiers).getPartition tp' =
      if tp' = tp then some part else cluster.getPartition tp' := by
  obtain ⟨old, hobj, -⟩ := getPartition_of_lookup hptr
  have hl : (cluster.setObject ref part tiers).partitions = cluster.partitions := rfl
  rw [getPartition, hl, getPartition]
  by_cases hname : tp' = tp
  · subst hname
    rw [hptr, bind_some, getElem?_setObject hobj, if_pos rfl, if_pos rfl]
  · rw [if_neg hname]
    cases hoth : cluster.partitions.lookup tp' with
    | none => rfl
    | some ref' =>
      have hne : ref' ≠ ref := by
        rintro rfl
        exact hname (cluster.unshared _ _ _ hoth hptr)
      rw [bind_some, bind_some, getElem?_setObject hobj, if_neg hne]

theorem getPartition_modifyObject (hptr : cluster.partitions.lookup tp = some ref)
    (f : Partition → Partition) (tp' : TopicPartition) :
    (cluster.modifyObject ref f).getPartition tp' =
      if tp' = tp then (cluster.getPartition tp').map f else cluster.getPartition tp' := by
  have hl : (cluster.modifyObject ref f).partitions = cluster.partitions := rfl
  have hheap : (cluster.modifyObject ref f).heap = cluster.heap.modify ref f := rfl
  rw [getPartition, hl, hheap, getPartition]
  by_cases hname : tp' = tp
  · subst hname
    rw [hptr, bind_some, bind_some, if_pos rfl, getElem?_modify_eq]
    rfl
  · rw [if_neg hname]
    cases hoth : cluster.partitions.lookup tp' with
    | none => rfl
    | some ref' =>
      have hne : ref ≠ ref' := by
        rintro rfl
        exact hname (cluster.unshared _ _ _ hoth hptr)
      simp [getElem?_modify, hne]

structure Updated (cluster cluster' : ClusterState W) (tp : TopicPartition)
    (partition : Partition) (tiers : Tiers W) : Prop where
  partitions : ∀ tp', cluster'.getPartition tp' =
    if tp' = tp then some partition else cluster.getPartition tp'
  tiers : cluster'.tiers = tiers
  streamId : cluster'.nextStreamId =
    if (cluster.getPartition tp).isSome then cluster.nextStreamId else cluster.nextStreamId + 1

theorem Updated.modifyObject (h : Updated cluster cluster' tp partition tiers)
    (hptr : cluster'.partitions.lookup tp = some ref) (f : Partition → Partition) :
    Updated cluster (cluster'.modifyObject ref f) tp (f partition) tiers := by
  refine ⟨fun tp' => ?_, h.tiers, h.streamId⟩
  rw [getPartition_modifyObject hptr, h.partitions]
  split
  · rfl
  · rfl

theorem Created.appendRecords [WalEngine W] (hcr : Created cluster cluster' tp ref)
    (happ : (cluster.partitionFor tp).appendRecords cluster.tiers records =
      some (partition, tiers, result)) :
    cluster'.appendRecords ref records = some (cluster'.setObject ref partition tiers, result) ∧
      Updated cluster (cluster'.setObject ref partition tiers) tp partition tiers := by
  refine ⟨?_, ?_, rfl, hcr.streamId⟩
  · rw [ClusterState.appendRecords, hcr.object, bind_some, hcr.tiers, happ]
    rfl
  · intro tp'
    rw [getPartition_setObject hcr.pointer]
    by_cases hname : tp' = tp
    · rw [if_pos hname, if_pos hname]
    · rw [if_neg hname, if_neg hname, hcr.others tp' hname]

theorem appendTo_of_appendRecords [WalEngine W]
    (happ : (cluster.partitionFor tp).appendRecords cluster.tiers records =
      some (partition, tiers, result)) :
    ∃ cluster', cluster.appendTo tp records = some (cluster', result) ∧
      Updated cluster cluster' tp partition tiers :=
  ⟨_, (created_getOrCreatePartition cluster tp).appendRecords happ⟩

theorem appendTo_eq_some [WalEngine W] (h : cluster.appendTo tp records = some (cluster', result)) :
    ∃ partition tiers, (cluster.partitionFor tp).appendRecords cluster.tiers records =
        some (partition, tiers, result) ∧
      Updated cluster cluster' tp partition tiers := by
  have hcr := created_getOrCreatePartition cluster tp
  have hptr : (cluster.getOrCreatePartition tp).1.appendRecords
      (cluster.getOrCreatePartition tp).2 records = some (cluster', result) := h
  obtain ⟨partition₀, partition, tiers, hobj, happ, -⟩ := appendRecords_eq_some hptr
  obtain rfl : cluster.partitionFor tp = partition₀ :=
    some.inj (hcr.object.symm.trans hobj)
  rw [hcr.tiers] at happ
  obtain ⟨cluster₁, happ₁, hupd⟩ := appendTo_of_appendRecords happ
  cases happ₁.symm.trans h
  exact ⟨partition, tiers, happ, hupd⟩

end ClusterState

end OxideMq.Broker
