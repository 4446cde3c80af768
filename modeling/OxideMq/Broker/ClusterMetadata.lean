import OxideMq.Broker.ClusterState
import OxideMq.Protocol.Responses

/-! What the cluster state tells clients about itself: the partitions of the topics that are asked
for, and configurations. -/

namespace OxideMq.Broker

open Lib OxideMq.Core OxideMq.Protocol OxideMq.Wal OxideMq.Stream List HashMap

structure Identity where
  nodeId : ℤ
  host : String
  port : ℤ
  clusterId : String

def configured (name value : String) (readOnly isDefault : Bool) (configSource : ℤ)
    (isSensitive : Bool) : DescribeConfigsResourceResult :=
  ⟨name, some value, readOnly, isDefault, configSource, isSensitive,
    [⟨name, some value, configSource⟩]⟩

def unknownConfig (name : String) : DescribeConfigsResourceResult :=
  ⟨name, none, false, true, 0, false, []⟩

def defaultConfigs : List (String × String × Bool × Bool) :=
  [("cleanup.policy", "delete", false, false),
    ("retention.ms", "604800000", false, false),
    ("retention.bytes", "-1", false, false),
    ("max.message.bytes", "1048576", false, false),
    ("min.insync.replicas", "1", false, false),
    ("segment.bytes", "1073741824", false, false)]

def Identity.brokerConfigs (identity : Identity) : List (String × String × Bool × ℤ) :=
  [("log.retention.ms", "604800000", false, 4),
    ("auto.create.topics.enable", "true", true, 4),
    ("num.partitions", "1", false, 4),
    ("default.replication.factor", "1", false, 4),
    ("listeners", "PLAINTEXT://" ++ identity.host ++ ":" ++ toString identity.port, true, 4)]

def Identity.describeBrokerConfigs (identity : Identity) :
    Option (List String) → List DescribeConfigsResourceResult
  | some (key :: keys) => (key :: keys).map fun key =>
      match identity.brokerConfigs.find? fun config => config.1 == key with
      | some (_, val, ro, src) => configured key val ro false src false
      | none => unknownConfig key
  | _ => identity.brokerConfigs.map fun (key, val, ro, src) => configured key val ro false src false

namespace ClusterState

variable {W : Type}
variable {cluster : ClusterState W} {ts : List String} {allowAutoCreate : Bool}
  {m : HashMap String (List ℤ)} {requestedTopics : Option (List String)}

def describeTopicConfigs (cluster : ClusterState W) (name : String) (keys : Option (List String)) :
    Except KafkaErrorCode (List DescribeConfigsResourceResult) :=
  if !cluster.hasTopic name then .error .unknownTopicOrPartition
  else
    let topicConfigs := (cluster.topics.lookup name).elim ∅ TopicRegistration.configs
    match keys with
    | some (key :: keys) => .ok ((key :: keys).map fun key =>
        match topicConfigs.lookup key with
        | some val => configured key val false false 1 false
        | none =>
            match defaultConfigs.find? fun config => config.1 == key with
            | some (_, defVal, ro, sens) => configured key defVal ro true 5 sens
            | none => unknownConfig key)
    | _ => .ok ((defaultConfigs.map fun (key, defVal, ro, sens) =>
          match topicConfigs.lookup key with
          | some val => configured key val ro false 1 sens
          | none => configured key defVal ro true 5 sens) ++
        (topicConfigs.entries.filter fun e =>
          !(defaultConfigs.map Prod.fst).contains e.1).map fun e =>
            configured e.1 e.2 false false 1 false)

def topicMap (cluster : ClusterState W) (requestedTopics : Option (List String)) :
    HashMap String (List ℤ) :=
  cluster.partitions.keys.foldl (fun topicMap tp =>
    if requestedTopics.all (·.contains tp.topic) then
      (topicMap.entryOrInsert tp.topic []).modify tp.topic (· ++ [tp.partition])
    else topicMap) ∅

def autoCreate (allowAutoCreate : Bool) : List String → ClusterState W → HashMap String (List ℤ) →
    ClusterState W × HashMap String (List ℤ) × List String
  | [], cluster, topicMap => (cluster, topicMap, [])
  | t :: ts, cluster, topicMap =>
      if (topicMap.lookup t).isSome then autoCreate allowAutoCreate ts cluster topicMap
      else if allowAutoCreate then
        autoCreate allowAutoCreate ts (cluster.getOrCreatePartition ⟨t, 0⟩).1
          (topicMap.insert t [0])
      else
        let (cluster', topicMap', notFound) := autoCreate allowAutoCreate ts cluster topicMap
        (cluster', topicMap', t :: notFound)

def buildMetadataWithAutoCreate (cluster : ClusterState W) (identity : Identity)
    (requestedTopics : Option (List String)) (allowAutoCreate : Bool) :
    ClusterState W × MetadataResponse :=
  let (cluster', topicMap, notFoundTopics) :=
    autoCreate allowAutoCreate (requestedTopics.getD []) cluster (cluster.topicMap requestedTopics)
  let found := topicMap.entries.map fun e : (_ : String) × List ℤ =>
    TopicMetadata.mk .none e.1 false ((e.2.insertionSort (· ≤ ·)).map fun index =>
      ⟨.none, index, identity.nodeId, 0, [identity.nodeId], [identity.nodeId]⟩)
  let notFound := notFoundTopics.map fun t =>
    TopicMetadata.mk .unknownTopicOrPartition t false []
  (cluster',
    ⟨0, [⟨identity.nodeId, identity.host, identity.port, none⟩], some identity.clusterId,
      identity.nodeId, found ++ notFound⟩)

def hasPartition (cluster : ClusterState W) (topic : String) : Bool :=
  cluster.partitions.keys.any fun tp => tp.topic = topic

theorem lookup_of_hasPartition_eq_false {topic : String} (h : cluster.hasPartition topic = false)
    (part : ℤ) :
    cluster.partitions.lookup ⟨topic, part⟩ = none := by
  rw [AList.lookup_eq_none]
  intro hmem
  rw [hasPartition, any_eq_false] at h
  exact h ⟨topic, part⟩ (AList.mem_keys.mpr hmem) (decide_eq_true rfl)

theorem lookup_topicMap_fold (wanted : String → Bool) (tps : List TopicPartition)
    (m : HashMap String (List ℤ)) (t : String) :
    ((tps.foldl (fun m tp =>
      if wanted tp.topic then (m.entryOrInsert tp.topic []).modify tp.topic (· ++ [tp.partition])
      else m) m).lookup t).isSome ↔
      (m.lookup t).isSome ∨ wanted t = true ∧ ∃ tp ∈ tps, tp.topic = t := by
  induction tps generalizing m with
  | nil => simp
  | cons tp tps ih =>
    rw [foldl_cons, ih, exists_mem_cons_iff]
    by_cases hwanted : wanted tp.topic = true
    · rw [if_pos hwanted, lookup_modify, lookup_entryOrInsert, lookup_entryOrInsert]
      by_cases ht : t = tp.topic
      · simp [ht, hwanted]
      · simp [ht, Ne.symm ht]
    · rw [if_neg hwanted]
      by_cases ht : tp.topic = t
      · simp [← ht, hwanted]
      · simp [ht]

theorem lookup_topicMap_isSome {t : String} (ht : t ∈ ts) :
    ((cluster.topicMap (some ts)).lookup t).isSome = cluster.hasPartition t := by
  apply Bool.eq_iff_iff.mpr
  rw [topicMap, lookup_topicMap_fold fun topic => (some ts).all (·.contains topic), hasPartition,
    any_eq_true]
  constructor
  · rintro (h | ⟨-, tp, hmem, htopic⟩)
    · simp at h
    · exact ⟨tp, hmem, decide_eq_true htopic⟩
  · rintro ⟨tp, hmem, htopic⟩
    exact Or.inr ⟨by simpa using ht, tp, hmem, of_decide_eq_true htopic⟩

theorem autoCreate_eq_self (cluster : ClusterState W)
    (h : allowAutoCreate = true → ∀ t ∈ ts, (m.lookup t).isSome) :
    (autoCreate allowAutoCreate ts cluster m).1 = cluster := by
  induction ts with
  | nil => rfl
  | cons t ts ih =>
    have hrest := ih fun hallow => (forall_mem_cons.mp (h hallow)).2
    unfold autoCreate
    split_ifs with hknown hallow
    · exact hrest
    · exact absurd (forall_mem_cons.mp (h hallow)).1 hknown
    · exact hrest

theorem lookup_getOrCreatePartition_isSome {tp tp' : TopicPartition}
    (h : tp' = tp ∨ (cluster.partitions.lookup tp').isSome) :
    ((cluster.getOrCreatePartition tp).1.partitions.lookup tp').isSome := by
  unfold getOrCreatePartition
  split
  · rename_i ref hfound
    rcases h with rfl | h
    · rw [hfound]
      rfl
    · exact h
  · show ((cluster.partitions.insert tp cluster.heap.length).lookup tp').isSome
    rw [lookup_insert_ite]
    split_ifs with htp
    · rfl
    · exact h.resolve_left htp

theorem lookup_autoCreate_isSome {tp : TopicPartition} (h : (cluster.partitions.lookup tp).isSome) :
    ((autoCreate allowAutoCreate ts cluster m).1.partitions.lookup tp).isSome := by
  induction ts generalizing cluster m with
  | nil => exact h
  | cons t ts ih =>
    unfold autoCreate
    split_ifs
    · exact ih h
    · exact ih (lookup_getOrCreatePartition_isSome (Or.inr h))
    · exact ih h

theorem lookup_autoCreate_new {t : String} (ht : t ∈ ts) (hnew : m.lookup t = none) :
    ((autoCreate true ts cluster m).1.partitions.lookup ⟨t, 0⟩).isSome := by
  induction ts generalizing cluster m with
  | nil => simp at ht
  | cons t' ts ih =>
    unfold autoCreate
    by_cases heq : t = t'
    · subst heq
      rw [if_neg (by simp [hnew]), if_pos rfl]
      exact lookup_autoCreate_isSome (lookup_getOrCreatePartition_isSome (Or.inl rfl))
    · have ht : t ∈ ts := (mem_cons.mp ht).resolve_left heq
      rw [if_pos rfl]
      split_ifs
      · exact ih ht hnew
      · exact ih ht (by rw [lookup_insert_ite, if_neg heq, hnew])

def AutoCreates (cluster : ClusterState W) (requestedTopics : Option (List String))
    (allowAutoCreate : Bool) : Prop :=
  allowAutoCreate = true ∧ ∃ t ∈ requestedTopics.getD [], cluster.hasPartition t = false

theorem buildMetadata_of_not_autoCreates (identity : Identity)
    (h : ¬cluster.AutoCreates requestedTopics allowAutoCreate) :
    (cluster.buildMetadataWithAutoCreate identity requestedTopics allowAutoCreate).1 = cluster := by
  apply autoCreate_eq_self
  intro hallow t ht
  cases requestedTopics with
  | none => simp at ht
  | some ts =>
    have ht : t ∈ ts := ht
    rw [lookup_topicMap_isSome ht, ← Bool.not_eq_false]
    exact fun hnew => h ⟨hallow, t, ht, hnew⟩

theorem buildMetadata_of_autoCreates (identity : Identity)
    (h : cluster.AutoCreates requestedTopics allowAutoCreate) :
    (cluster.buildMetadataWithAutoCreate identity requestedTopics allowAutoCreate).1.partitions ≠
      cluster.partitions := by
  obtain ⟨rfl, t, ht, hnew⟩ := h
  intro heq
  cases requestedTopics with
  | none => simp at ht
  | some ts =>
    have ht : t ∈ ts := ht
    have hmap : (cluster.topicMap (some ts)).lookup t = none := by
      rw [← Option.not_isSome_iff_eq_none, lookup_topicMap_isSome ht, hnew]
      exact Bool.false_ne_true
    have hcr : ((cluster.buildMetadataWithAutoCreate identity (some ts)
        true).1.partitions.lookup ⟨t, 0⟩).isSome := lookup_autoCreate_new ht hmap
    rw [heq, lookup_of_hasPartition_eq_false hnew 0] at hcr
    exact Bool.false_ne_true hcr

end ClusterState

end OxideMq.Broker
