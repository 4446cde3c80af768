import OxideMq.Broker.ClusterState
import OxideMq.Lib.Run

/-! Topic registrations and the partitions that exist. -/

namespace OxideMq.Broker

open Lib OxideMq.Protocol OxideMq.Stream HashMap List

inductive TopicAction where
  | createTopic (name : String) (numPartitions replicationFactor : ℤ)
      (configs : HashMap String String)
  | createPartitions (name : String) (newCount : ℤ) (assignments : Option ℕ)
      (validateOnly : Bool)
  | deleteTopic (name : String)
  | updateTopicConfigs (name : String) (entries : List (String × Option String))
  | getOrCreatePartition (tp : TopicPartition)

namespace ClusterState

variable {W : Type} {cluster cluster' : ClusterState W} {name : String}
variable {assignments : Option ℕ}

def execTopic (cluster : ClusterState W) : TopicAction → ClusterState W
  | .createTopic name numPartitions replicationFactor configs =>
      (cluster.createTopic name numPartitions replicationFactor configs).1
  | .createPartitions name newCount assignments validateOnly =>
      (cluster.createPartitions name newCount assignments validateOnly).1
  | .deleteTopic name => (cluster.deleteTopic name).1
  | .updateTopicConfigs name entries => (cluster.updateTopicConfigs name entries).1
  | .getOrCreatePartition tp => (cluster.getOrCreatePartition tp).1

def Exists (cluster : ClusterState W) (name : String) (i : ℤ) : Prop :=
  (cluster.getPartition ⟨name, i⟩).isSome

def Numbered (cluster : ClusterState W) (name : String) (count : ℤ) : Prop :=
  ∀ i, cluster.Exists name i ↔ 0 ≤ i ∧ i < count

def RegistrationsMatch (cluster : ClusterState W) : Prop :=
  ∀ name registration, cluster.topics.lookup name = some registration →
    cluster.Numbered name registration.numPartitions

/-- The indexes run from 0 without a gap, and their number fits the registration's `i32`. -/
def Contiguous (cluster : ClusterState W) (name : String) : Prop :=
  ∃ count < 2 ^ 31, cluster.Numbered name count

/-- `create_partitions` gets past its checks and is to be carried out. -/
def AdmitsPartitions (cluster : ClusterState W) (name : String) (newCount : ℤ)
    (assignments : Option ℕ) (validateOnly : Bool) : Prop :=
  cluster.hasTopic name ∧ cluster.currentCount name < newCount ∧ 0 < newCount ∧
    newCount ≤ 10000 ∧
    (∀ n ∈ assignments, n = ofSigned 64 (wrapSigned 32 (newCount - cluster.currentCount name))) ∧
    validateOnly = false

def KeepsNumbering (cluster : ClusterState W) : TopicAction → Prop
  | .createTopic .. => True
  | .deleteTopic _ => True
  | .createPartitions name newCount assignments validateOnly =>
      cluster.AdmitsPartitions name newCount assignments validateOnly →
        cluster.topics.lookup name = none → cluster.Contiguous name
  | .updateTopicConfigs name _ =>
      cluster.hasTopic name → cluster.topics.lookup name = none → cluster.Contiguous name
  | .getOrCreatePartition tp =>
      ∀ registration, cluster.topics.lookup tp.topic = some registration →
        0 ≤ tp.partition ∧ tp.partition < registration.numPartitions

theorem exists_iff_mem_keys {i : ℤ} :
    cluster.Exists name i ↔ (⟨name, i⟩ : TopicPartition) ∈ cluster.partitions.keys := by
  refine Iff.trans ?_ (AList.mem_keys.trans mem_iff).symm
  constructor
  · intro h
    obtain ⟨part, hpart⟩ := Option.isSome_iff_exists.mp h
    obtain ⟨ref, hl, -⟩ := getPartition_eq_some.mp hpart
    exact ⟨ref, hl⟩
  · rintro ⟨ref, hl⟩
    obtain ⟨part, -, hget⟩ := getPartition_of_lookup hl
    exact Option.isSome_iff_exists.mpr ⟨part, hget⟩

theorem hasTopic_iff : cluster.hasTopic name ↔
      (cluster.topics.lookup name).isSome ∨ ∃ i, cluster.Exists name i := by
  rw [hasTopic, Bool.or_eq_true, any_eq_true]
  refine or_congr Iff.rfl ⟨?_, ?_⟩
  · rintro ⟨⟨topic, i⟩, hmem, ht⟩
    obtain rfl : topic = name := by simpa using ht
    exact ⟨i, exists_iff_mem_keys.mpr hmem⟩
  · rintro ⟨i, hexists⟩
    exact ⟨⟨name, i⟩, exists_iff_mem_keys.mp hexists, by simp⟩

theorem topicPartitions_eq_map (name : String) (lo hi : ℤ) : topicPartitions name lo hi =
      (range (hi - lo).toNat).map fun n : ℕ => (⟨name, lo + (n : ℤ)⟩ : TopicPartition) := by
  simp [topicPartitions, map_eq_flatMap, flatMap_assoc]

theorem mem_topicPartitions {lo hi : ℤ} {tp : TopicPartition} :
    tp ∈ topicPartitions name lo hi ↔ tp.topic = name ∧ lo ≤ tp.partition ∧ tp.partition < hi := by
  obtain ⟨topic, i⟩ := tp
  simp only [topicPartitions_eq_map, mem_map, mem_range, TopicPartition.mk.injEq]
  constructor
  · rintro ⟨n, hn, rfl, rfl⟩
    exact ⟨rfl, by omega, by omega⟩
  · rintro ⟨rfl, hlo, hhi⟩
    exact ⟨(i - lo).toNat, by omega, rfl, by omega⟩

theorem topics_getOrCreatePartition (cl : ClusterState W) (tp : TopicPartition) :
    (cl.getOrCreatePartition tp).1.topics = cl.topics := by
  unfold getOrCreatePartition
  split
  · rfl
  · rfl

theorem topics_createAll (cl : ClusterState W) (tps : List TopicPartition) :
    (cl.createAll tps).topics = cl.topics := by
  induction tps generalizing cl with
  | nil => rfl
  | cons tp tps ih => exact (ih _).trans (topics_getOrCreatePartition cl tp)

theorem length_keys_of_numbered {count : ℕ} (h : cluster.Numbered name count) :
    (cluster.partitions.keys.filter fun tp => tp.topic = name).length = count := by
  have hperm : (cluster.partitions.keys.filter fun tp => tp.topic = name).Perm
      (topicPartitions name 0 count) := by
    refine (perm_ext_iff_of_nodup (cluster.partitions.keys_nodup.filter _) ?_).mpr ?_
    · rw [topicPartitions_eq_map]
      refine nodup_range.map fun n m hnm => ?_
      simpa using hnm
    · rintro ⟨topic, i⟩
      rw [mem_filter, mem_topicPartitions, decide_eq_true_eq]
      constructor
      · rintro ⟨hmem, rfl⟩
        exact ⟨rfl, (h i).mp (exists_iff_mem_keys.mpr hmem)⟩
      · rintro ⟨rfl, hi⟩
        exact ⟨exists_iff_mem_keys.mp ((h i).mpr hi), rfl⟩
  simpa [topicPartitions_eq_map] using hperm.length_eq

theorem currentCount_of_unregistered (hnone : cluster.topics.lookup name = none)
    (hsome : ∃ i, cluster.Exists name i) :
    (∃ i, cluster.Exists name i ∧ cluster.currentCount name = wrapSigned 32 (i + 1)) ∧
      ∀ i, cluster.Exists name i → wrapSigned 32 (i + 1) ≤ cluster.currentCount name := by
  have hmem : ∀ {x : ℤ}, x ∈ ((cluster.partitions.keys.filter fun tp => tp.topic = name).map
      fun tp => wrapSigned 32 (tp.partition + 1)) ↔
      ∃ i, cluster.Exists name i ∧ x = wrapSigned 32 (i + 1) := by
    intro x
    simp only [mem_map, mem_filter, decide_eq_true_eq]
    constructor
    · rintro ⟨⟨topic, i⟩, ⟨hkey, rfl⟩, rfl⟩
      exact ⟨i, exists_iff_mem_keys.mpr hkey, rfl⟩
    · rintro ⟨i, hex, rfl⟩
      exact ⟨⟨name, i⟩, ⟨exists_iff_mem_keys.mp hex, rfl⟩, rfl⟩
  simp only [currentCount, hnone]
  cases hmax : ((cluster.partitions.keys.filter fun tp => tp.topic = name).map
      fun tp => wrapSigned 32 (tp.partition + 1)).max? with
  | none =>
    obtain ⟨i, hex⟩ := hsome
    have hin := hmem.mpr ⟨i, hex, rfl⟩
    rw [max?_eq_none_iff.mp hmax] at hin
    exact absurd hin not_mem_nil
  | some count =>
    obtain ⟨hin, hle⟩ := max?_eq_some_iff.mp hmax
    exact ⟨hmem.mp hin, fun i hex => hle _ (hmem.mpr ⟨i, hex, rfl⟩)⟩

structure Registers (cluster cluster' : ClusterState W) (name : String) (added : ℤ → Prop)
    (count : ℤ) : Prop where
  existing : ∀ name' i,
    cluster'.Exists name' i ↔ cluster.Exists name' i ∨ name' = name ∧ added i
  registered : ∃ registration, cluster'.topics.lookup name = some registration ∧
    registration.numPartitions = count
  others : ∀ name', name' ≠ name → cluster'.topics.lookup name' = cluster.topics.lookup name'

theorem exists_createAll (cl : ClusterState W) (name : String) (lo hi : ℤ)
    (topics : HashMap String TopicRegistration) (name' : String) (i : ℤ) :
    ({ cl.createAll (topicPartitions name lo hi) with topics := topics } :
        ClusterState W).Exists name' i ↔
      cl.Exists name' i ∨ name' = name ∧ lo ≤ i ∧ i < hi :=
  (isSome_getPartition_createAll cl _ _).trans (or_congr Iff.rfl mem_topicPartitions)

theorem createTopic_cases (cl : ClusterState W) (name : String)
    (num repl : ℤ) (configs : HashMap String String) :
    (cl.createTopic name num repl configs).1 = cl ∨
      ∃ parts, 0 < parts ∧ parts ≤ 10000 ∧ ¬ cl.hasTopic name ∧
        Registers cl (cl.createTopic name num repl configs).1 name
          (fun i => 0 ≤ i ∧ i < parts) parts := by
  unfold createTopic
  generalize (if num = -1 then 1 else num) = parts
  generalize (if repl = -1 then 1 else repl) = rf
  dsimp only
  split_ifs with hvalid hparts hrf ht
  all_goals try exact Or.inl rfl
  refine Or.inr ⟨parts, by omega, by omega, ht, exists_createAll cl name _ _ _, ?_, ?_⟩
  · exact ⟨⟨name, parts, rf, configs⟩, by rw [lookup_insert_ite, if_pos rfl], rfl⟩
  · intro name' hne
    rw [lookup_insert_ite, if_neg hne, topics_createAll]

theorem not_any_ne_iff {needed : ℕ} :
    (¬ assignments.any fun n => n ≠ needed) ↔ ∀ n ∈ assignments, n = needed := by
  cases assignments with
  | none => simp
  | some n => simp

theorem createPartitions_of_not_admitted {cnt : ℤ} {valOnly : Bool}
    (h : ¬ cluster.AdmitsPartitions name cnt assignments valOnly) :
    (cluster.createPartitions name cnt assignments valOnly).1 = cluster := by
  unfold createPartitions
  dsimp only
  split_ifs with ht hle hrange hasg hval
  all_goals try rfl
  refine absurd ⟨?_, ?_, ?_, ?_, ?_, ?_⟩ h
  · simpa using ht
  · omega
  · omega
  · omega
  · exact not_any_ne_iff.mp hasg
  · simpa using hval

theorem registers_createPartitions {newCount : ℤ} {validateOnly : Bool}
    (h : cluster.AdmitsPartitions name newCount assignments validateOnly) :
    Registers cluster (cluster.createPartitions name newCount assignments validateOnly).1 name
      (fun i => cluster.currentCount name ≤ i ∧ i < newCount) newCount := by
  obtain ⟨ht, hlt, hpos, hle, hasg, hval⟩ := h
  unfold createPartitions
  rw [if_neg (by simpa using ht), if_neg (by omega), if_neg (by omega),
    if_neg (not_any_ne_iff.mpr hasg), if_neg (by simpa using hval)]
  refine ⟨exists_createAll cluster name _ _ _, ?_, ?_⟩
  · dsimp only
    rw [topics_createAll]
    cases hl : cluster.topics.lookup name with
    | some registration =>
      exact ⟨_, by rw [lookup_modify, if_pos rfl, hl]; rfl, rfl⟩
    | none => exact ⟨_, by rw [lookup_insert_ite, if_pos rfl], rfl⟩
  · intro name' hne
    dsimp only
    rw [topics_createAll]
    cases hl : cluster.topics.lookup name with
    | some registration => rw [lookup_modify, if_neg hne]
    | none => rw [lookup_insert_ite, if_neg hne]

theorem updateTopicConfigs_of_no_topic (h : ¬ cluster.hasTopic name)
    (es : List (String × Option String)) :
    (cluster.updateTopicConfigs name es).1 = cluster := by
  rw [updateTopicConfigs, if_pos (by simpa using h)]

/-- The count that `update_topic_configs` leaves a topic with. -/
def updatedCount (cluster : ClusterState W) (name : String) : ℤ :=
  match cluster.topics.lookup name with
  | some registration => registration.numPartitions
  | none => max (wrapSigned 32 (cluster.partitions.keys.filter fun tp => tp.topic = name).length) 1

theorem registers_updateTopicConfigs (h : cluster.hasTopic name)
    (es : List (String × Option String)) :
    Registers cluster (cluster.updateTopicConfigs name es).1 name (fun _ => False)
      (cluster.updatedCount name) := by
  rw [updateTopicConfigs, if_neg (by simpa using h), updatedCount]
  refine ⟨fun name' i => ?_, ?_, fun name' hne => ?_⟩
  · rw [and_false, or_false]
    rfl
  · dsimp only
    cases hl : cluster.topics.lookup name with
    | some reg =>
      refine ⟨{ reg with configs := updateConfigs reg.configs es }, ?_, rfl⟩
      rw [lookup_modify, if_pos rfl, hl, Option.map_some]
    | none =>
      refine ⟨⟨name, _, 1, givenConfigs es⟩, ?_, rfl⟩
      rw [lookup_insert_ite, if_pos rfl]
  · dsimp only
    cases hl : cluster.topics.lookup name with
    | some reg => rw [lookup_modify, if_neg hne]
    | none => rw [lookup_insert_ite, if_neg hne]

theorem exists_deleteTopic (cl : ClusterState W) (name name' : String) (i : ℤ) :
    (cl.deleteTopic name).1.Exists name' i ↔ name' ≠ name ∧ cl.Exists name' i := by
  have hl : (cl.deleteTopic name).1.getPartition ⟨name', i⟩ =
      if name' ≠ name then cl.getPartition ⟨name', i⟩ else none := by
    simp only [deleteTopic, getPartition, lookup_retainKeys, decide_eq_true_eq]
    split
    · rfl
    · rfl
  rw [Exists, hl]
  split_ifs with hne
  · exact (and_iff_right hne).symm
  · exact iff_of_false (by simp) fun h => hne h.1

theorem topics_deleteTopic (cl : ClusterState W) (name name' : String) :
    (cl.deleteTopic name).1.topics.lookup name' =
      if name' = name then none else cl.topics.lookup name' :=
  lookup_erase_ite cl.topics name name'

theorem exists_getOrCreatePartition (cl : ClusterState W) (tp : TopicPartition)
    (name : String) (i : ℤ) :
    (cl.getOrCreatePartition tp).1.Exists name i ↔
      cl.Exists name i ∨ name = tp.topic ∧ i = tp.partition := by
  rw [Exists, getPartition_getOrCreatePartition, Exists, ← TopicPartition.mk.injEq]
  split_ifs with hname
  · exact iff_of_true rfl (Or.inr hname)
  · rw [or_iff_left hname]

def CountsPositive (cluster : ClusterState W) : Prop :=
  ∀ name registration, cluster.topics.lookup name = some registration →
    0 < registration.numPartitions

theorem Registers.countsPositive {added : ℤ → Prop} {count : ℤ}
    (h : Registers cluster cluster' name added count) (hpos : cluster.CountsPositive)
    (hcnt : 0 < count) : cluster'.CountsPositive := by
  intro name' reg' hl'
  by_cases hname : name' = name
  · obtain ⟨reg, hl, rfl⟩ := h.registered
    rw [hname, hl] at hl'
    exact Option.some.inj hl' ▸ hcnt
  · exact hpos name' reg' (h.others name' hname ▸ hl')

theorem Registers.registrationsMatch_iff {added : ℤ → Prop} {count : ℤ}
    (h : Registers cluster cluster' name added count) (hm : cluster.RegistrationsMatch) :
    cluster'.RegistrationsMatch ↔ ∀ i, cluster.Exists name i ∨ added i ↔ 0 ≤ i ∧ i < count := by
  obtain ⟨reg, hl, rfl⟩ := h.registered
  have hown : ∀ i, cluster'.Exists name i ↔ cluster.Exists name i ∨ added i := fun i =>
    (h.existing name i).trans (or_congr Iff.rfl (and_iff_right rfl))
  constructor
  · intro hm' i
    exact (hown i).symm.trans (hm' name reg hl i)
  · intro hnum name' reg' hl' i
    by_cases hname : name' = name
    · subst hname
      cases hl.symm.trans hl'
      exact (hown i).trans (hnum i)
    · rw [h.others name' hname] at hl'
      refine ((h.existing name' i).trans ?_).trans (hm name' reg' hl' i)
      exact or_iff_left fun hadded => hname hadded.1

theorem updatedCount_pos (hpos : cluster.CountsPositive) (name : String) :
    0 < cluster.updatedCount name := by
  rw [updatedCount]
  split
  · exact hpos name _ ‹_›
  · omega

theorem countsPositive_execTopic (hpos : cluster.CountsPositive) (act : TopicAction) :
    (cluster.execTopic act).CountsPositive := by
  cases act with
  | createTopic name num repl configs =>
    rcases createTopic_cases cluster name num repl configs with
      hsame | ⟨parts, hparts, -, -, hregisters⟩
    · rw [execTopic, hsame]
      exact hpos
    · exact hregisters.countsPositive hpos hparts
  | createPartitions name cnt assignments valOnly =>
    by_cases hadm : cluster.AdmitsPartitions name cnt assignments valOnly
    · exact (registers_createPartitions hadm).countsPositive hpos hadm.2.2.1
    · rw [execTopic, createPartitions_of_not_admitted hadm]
      exact hpos
  | deleteTopic name =>
    intro name' reg hl
    rw [execTopic, topics_deleteTopic] at hl
    split_ifs at hl
    exact hpos name' reg hl
  | updateTopicConfigs name es =>
    by_cases ht : cluster.hasTopic name
    · exact (registers_updateTopicConfigs ht es).countsPositive hpos (updatedCount_pos hpos name)
    · rw [execTopic, updateTopicConfigs_of_no_topic ht]
      exact hpos
  | getOrCreatePartition tp =>
    intro name reg hl
    rw [execTopic, topics_getOrCreatePartition] at hl
    exact hpos name reg hl

theorem registrationsMatch_createTopic (hm : cluster.RegistrationsMatch) (name : String)
    (num repl : ℤ) (configs : HashMap String String) :
    (cluster.createTopic name num repl configs).1.RegistrationsMatch := by
  rcases createTopic_cases cluster name num repl configs with
    hsame | ⟨parts, -, -, htopic, hregisters⟩
  · rw [hsame]
    exact hm
  · refine (hregisters.registrationsMatch_iff hm).mpr fun i => ?_
    exact or_iff_right fun hex => htopic (hasTopic_iff.mpr (Or.inr ⟨i, hex⟩))

theorem registrationsMatch_deleteTopic (hm : cluster.RegistrationsMatch) (name : String) :
    (cluster.deleteTopic name).1.RegistrationsMatch := by
  intro name' reg hl i
  rw [topics_deleteTopic] at hl
  split_ifs at hl with hname
  rw [exists_deleteTopic, and_iff_right hname]
  exact hm name' reg hl i

theorem registrationsMatch_getOrCreatePartition_iff (hm : cluster.RegistrationsMatch)
    (tp : TopicPartition) :
    (cluster.getOrCreatePartition tp).1.RegistrationsMatch ↔
      ∀ reg, cluster.topics.lookup tp.topic = some reg →
        0 ≤ tp.partition ∧ tp.partition < reg.numPartitions := by
  rw [RegistrationsMatch, topics_getOrCreatePartition]
  constructor
  · intro hm' reg hl
    refine (hm' tp.topic reg hl tp.partition).mp ?_
    exact (exists_getOrCreatePartition cluster tp _ _).mpr (Or.inr ⟨rfl, rfl⟩)
  · intro hwithin name reg hl i
    rw [exists_getOrCreatePartition, hm name reg hl i, or_iff_left_iff_imp]
    rintro ⟨rfl, rfl⟩
    exact hwithin reg hl

theorem exists_of_unregistered (hnone : cluster.topics.lookup name = none)
    (ht : cluster.hasTopic name) : ∃ i, cluster.Exists name i := by
  rcases hasTopic_iff.mp ht with hreg | hsome
  · simp [hnone] at hreg
  · exact hsome

theorem currentCount_of_contiguous (hnone : cluster.topics.lookup name = none)
    (ht : cluster.hasTopic name) (hcont : cluster.Contiguous name)
    (hcnt : cluster.currentCount name < 10000) :
    0 < cluster.currentCount name ∧ cluster.Numbered name (cluster.currentCount name) := by
  obtain ⟨count, -, hnum⟩ := hcont
  have hsome := exists_of_unregistered hnone ht
  obtain ⟨⟨last, hlast, heq⟩, hle⟩ := currentCount_of_unregistered hnone hsome
  -- an index above the limit would have made the count too large
  have hsmall : ∀ i, cluster.Exists name i → wrapSigned 32 (i + 1) = i + 1 := by
    intro i hi
    obtain ⟨hlo, hhi⟩ := (hnum i).mp hi
    refine wrapSigned_of_fits (by decide) ?_
    by_contra hbig
    have hbd := hle 10000 ((hnum 10000).mpr ⟨by decide, ?_⟩)
    · rw [wrapSigned_of_fits (by decide) (by decide)] at hbd
      omega
    · simp only [FitsSigned] at hbig
      omega
  obtain ⟨hlo, hhi⟩ := (hnum last).mp hlast
  have hcur : cluster.currentCount name = last + 1 := heq.trans (hsmall last hlast)
  have hlastIndex : last + 1 = count := by
    have htop := (hnum (count - 1)).mpr ⟨by omega, by omega⟩
    have hbd := hle _ htop
    rw [hsmall _ htop] at hbd
    omega
  rw [hcur, hlastIndex]
  exact ⟨by omega, hnum⟩

theorem contiguous_of_filled {cnt : ℤ} (hnone : cluster.topics.lookup name = none)
    (ht : cluster.hasTopic name) (hlt : cluster.currentCount name < cnt)
    (hle : cnt ≤ 10000)
    (hfilled : ∀ i, cluster.Exists name i ∨ (cluster.currentCount name ≤ i ∧ i < cnt) ↔
      0 ≤ i ∧ i < cnt) : cluster.Contiguous name := by
  obtain ⟨-, hbd⟩ :=
    currentCount_of_unregistered hnone (exists_of_unregistered hnone ht)
  refine ⟨cluster.currentCount name, by omega, fun i => ⟨fun hi => ?_, fun hi => ?_⟩⟩
  · obtain ⟨hlo, hhi⟩ := (hfilled i).mp (Or.inl hi)
    have hcnt := hbd i hi
    rw [wrapSigned_of_fits (by decide) ⟨by omega, by omega⟩] at hcnt
    omega
  · rcases (hfilled i).mpr ⟨hi.1, by omega⟩ with hex | hadded
    · exact hex
    · omega

theorem registrationsMatch_createPartitions_iff (hpos : cluster.CountsPositive)
    (hm : cluster.RegistrationsMatch) (name : String) (cnt : ℤ)
    (asgs : Option ℕ) (valOnly : Bool) :
    (cluster.createPartitions name cnt asgs valOnly).1.RegistrationsMatch ↔
      (cluster.AdmitsPartitions name cnt asgs valOnly →
        cluster.topics.lookup name = none → cluster.Contiguous name) := by
  by_cases hadm : cluster.AdmitsPartitions name cnt asgs valOnly
  · rw [(registers_createPartitions hadm).registrationsMatch_iff hm]
    obtain ⟨ht, hlt, -, hle, -, -⟩ := id hadm
    constructor
    · intro hfilled _ hnone
      exact contiguous_of_filled hnone ht hlt hle hfilled
    · intro hcont i
      have hcur : 0 < cluster.currentCount name ∧
          cluster.Numbered name (cluster.currentCount name) := by
        cases hl : cluster.topics.lookup name with
        | some reg =>
          simp only [currentCount, hl]
          exact ⟨hpos name reg hl, hm name reg hl⟩
        | none =>
          exact currentCount_of_contiguous hl ht (hcont hadm hl) (by omega)
      rw [hcur.2 i]
      omega
  · rw [createPartitions_of_not_admitted hadm]
    exact iff_of_true hm fun h => absurd h hadm

theorem updatedCount_of_contiguous (hnone : cluster.topics.lookup name = none)
    (ht : cluster.hasTopic name) (hcont : cluster.Contiguous name) :
    cluster.Numbered name (cluster.updatedCount name) := by
  obtain ⟨count, hbd, hnum⟩ := hcont
  obtain ⟨i, hi⟩ := exists_of_unregistered hnone ht
  have hrange := (hnum i).mp hi
  lift count to ℕ using by omega
  have hcnt : cluster.updatedCount name = count := by
    simp only [updatedCount, hnone]
    rw [length_keys_of_numbered hnum, wrapSigned_of_fits (by decide) ⟨by omega, by omega⟩]
    omega
  rw [hcnt]
  exact hnum

theorem registrationsMatch_updateTopicConfigs_iff (hm : cluster.RegistrationsMatch)
    (name : String) (es : List (String × Option String)) :
    (cluster.updateTopicConfigs name es).1.RegistrationsMatch ↔
      (cluster.hasTopic name → cluster.topics.lookup name = none → cluster.Contiguous name) := by
  by_cases ht : cluster.hasTopic name
  · rw [(registers_updateTopicConfigs ht es).registrationsMatch_iff hm]
    simp only [or_false]
    constructor
    · intro hnum _ hnone
      refine ⟨cluster.updatedCount name, ?_, hnum⟩
      have hfits := wrapSigned_fits (by decide : 0 < 32)
        ((cluster.partitions.keys.filter fun tp => tp.topic = name).length : ℤ)
      have hhi := hfits.2
      simp only [updatedCount, hnone]
      omega
    · intro hcont
      cases hl : cluster.topics.lookup name with
      | some reg =>
        simp only [updatedCount, hl]
        exact hm name reg hl
      | none => exact updatedCount_of_contiguous hl ht (hcont ht hl)
  · rw [updateTopicConfigs_of_no_topic ht]
    exact iff_of_true hm fun h => absurd h ht

theorem registrationsMatch_execTopic_iff (hpos : cluster.CountsPositive)
    (hm : cluster.RegistrationsMatch) (action : TopicAction) :
    (cluster.execTopic action).RegistrationsMatch ↔ cluster.KeepsNumbering action := by
  cases action with
  | createTopic name numPartitions replicationFactor configs =>
    exact iff_of_true (registrationsMatch_createTopic hm _ _ _ _) trivial
  | createPartitions name newCount assignments validateOnly =>
    exact registrationsMatch_createPartitions_iff hpos hm _ _ _ _
  | deleteTopic name => exact iff_of_true (registrationsMatch_deleteTopic hm name) trivial
  | updateTopicConfigs name entries =>
    exact registrationsMatch_updateTopicConfigs_iff hm name entries
  | getOrCreatePartition tp => exact registrationsMatch_getOrCreatePartition_iff hm tp

theorem registrationsMatch_iff_keepsNumbering (tiers : Tiers W) (actions : List TopicAction) :
    (∀ front, front <+: actions → ∀ cluster,
      run (fun cluster action => some (execTopic cluster action)) (new tiers) front =
        some cluster → cluster.RegistrationsMatch) ↔
      Along (fun cluster action => some (execTopic cluster action)) KeepsNumbering (new tiers)
        actions := by
  have hnone : ∀ name, (new tiers).topics.lookup name = none := fun name => AList.lookup_empty name
  have hpositive : ∀ (cluster : ClusterState W) action cluster', cluster.CountsPositive →
      some (cluster.execTopic action) = some cluster' → cluster'.RegistrationsMatch →
      cluster'.CountsPositive := by
    rintro cluster action _ hpos ⟨⟩ -
    exact countsPositive_execTopic hpos action
  refine reached_iff_along hpositive ?_ ?_ ?_ (run_total (new tiers) actions)
  · rintro cluster action _ hpos hm ⟨⟩
    exact registrationsMatch_execTopic_iff hpos hm action
  · intro name reg hl
    simp [hnone] at hl
  · intro name reg hl
    simp [hnone] at hl

instance : DecidablePred (cluster.Exists name) := fun i =>
  inferInstanceAs (Decidable ((cluster.getPartition ⟨name, i⟩).isSome = true))

theorem not_registrationsMatch (name : String) (count i : ℤ)
    (hcnt : (cluster.topics.lookup name).map TopicRegistration.numPartitions = some count)
    (hindex : ¬ (cluster.Exists name i ↔ 0 ≤ i ∧ i < count)) : ¬ cluster.RegistrationsMatch := by
  intro hm
  obtain ⟨reg, hl, rfl⟩ := Option.map_eq_some_iff.mp hcnt
  exact hindex (hm name reg hl i)

def emptyTiers : Tiers Unit := ⟨(), ∅, LogCache.new 64, BlockCache.new 64⟩

theorem lookups_break_numbering :
    ¬ ([.createTopic "orders" 1 1 ∅, .getOrCreatePartition ⟨"orders", 7⟩].foldl execTopic
        (new emptyTiers)).RegistrationsMatch ∧
      ¬ ([.getOrCreatePartition ⟨"orders", 5⟩, .updateTopicConfigs "orders" []].foldl execTopic
        (new emptyTiers)).RegistrationsMatch ∧
      ¬ ([.getOrCreatePartition ⟨"orders", 5⟩, .createPartitions "orders" 8 none false].foldl
        execTopic (new emptyTiers)).RegistrationsMatch := by
  refine ⟨?_, ?_, ?_⟩
  · apply not_registrationsMatch "orders" 1 7
    · decide +kernel
    · decide +kernel
  · apply not_registrationsMatch "orders" 1 5
    · decide +kernel
    · decide +kernel
  · apply not_registrationsMatch "orders" 8 0
    · decide +kernel
    · decide +kernel

end ClusterState

end OxideMq.Broker
