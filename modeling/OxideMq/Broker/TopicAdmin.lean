import OxideMq.Broker.Handler
import OxideMq.Broker.TopicNumbering

/-! Topic administration. -/

namespace OxideMq.Broker

open Lib OxideMq.Protocol OxideMq.Stream List

namespace Handler

variable {W : Type} {engine : BrokerEngine W} {principal : String} {t : CreatableTopic}

def askedPartitions (t : CreatableTopic) : ℤ :=
  if !t.assignments.isEmpty then wrapSigned 32 t.assignments.length else t.numPartitions

def ValidationPredicts (engine : BrokerEngine W) (principal : String) (t : CreatableTopic)
    (timeoutMs : ℤ) : Prop :=
  ∃ validated created engine',
    (createTopics principal ⟨[t], timeoutMs, true⟩).run engine = some (validated, engine) ∧
    (createTopics principal ⟨[t], timeoutMs, false⟩).run engine = some (created, engine') ∧
    validated.topics.map (·.errorCode) = created.topics.map (·.errorCode)

/-- The counts that `create_topic` takes, -1 being the default. -/
def CountAllowed (count : ℤ) : Prop := count = -1 ∨ 0 < count ∧ count ≤ 10000

def FactorAllowed (replicationFactor : ℤ) : Prop := replicationFactor = -1 ∨ 0 < replicationFactor

structure NumbersAgree (cluster : ClusterState W) (t : CreatableTopic) : Prop where
  existing : cluster.hasTopic t.name →
    CountAllowed (askedPartitions t) ∧ FactorAllowed t.replicationFactor
  fresh : ¬ cluster.hasTopic t.name →
    ((t.numPartitions = -1 ∨ 0 < t.numPartitions) ↔ CountAllowed (askedPartitions t))

theorem run_createTopics_singleton (eng : BrokerEngine W) (prin : String)
    (t : CreatableTopic) (timeoutMs : ℤ) (valOnly : Bool) :
    (createTopics prin ⟨[t], timeoutMs, valOnly⟩).run eng =
      ((createTopic prin valOnly t).run eng).map fun answer =>
        (⟨0, [answer.1]⟩, answer.2) := by
  rw [createTopics, mapM_cons, mapM_nil]
  cases hrun : (createTopic prin valOnly t).run eng with
  | none => simp [hrun]
  | some answer => simp [hrun]

theorem run_createTopic_denied (valOnly : Bool)
    (hdenied : engine.authorizer.permitsOrCluster principal .topic t.name .create = false) :
    (createTopic principal valOnly t).run engine = some (⟨t.name, .topicAuthorizationFailed,
        some "Topic authorization failed: Create required on Topic or Cluster"⟩, engine) := by
  simp [createTopic, permitsOrCluster, hdenied]

theorem run_createTopic_validated
    (hperm : engine.authorizer.permitsOrCluster principal .topic t.name .create = true) :
    (createTopic principal true t).run engine =
      some (⟨t.name, (validateTopic engine.clusterState t).1,
        (validateTopic engine.clusterState t).2⟩, engine) := by
  simp [createTopic, permitsOrCluster, hperm]

/-- `create_topic` of the cluster, with what the handler gives it. -/
def creation (cluster : ClusterState W) (t : CreatableTopic) :
    ClusterState W × Except KafkaErrorCode Unit :=
  cluster.createTopic t.name (askedPartitions t) t.replicationFactor
    (ClusterState.givenConfigs (t.configs.map fun c => (c.name, c.value)))

/-- What the handler answers to the outcome of `create_topic`. -/
def creationAnswer (t : CreatableTopic) : Except KafkaErrorCode Unit →
    Handler W CreatableTopicResult
  | .ok _ => return ⟨t.name, .none, none⟩
  | .error code => return ⟨t.name, code, some (creationMessage code)⟩

theorem run_createTopic_created
    (hperm : engine.authorizer.permitsOrCluster principal .topic t.name .create = true) :
    ∃ msg, (createTopic principal false t).run engine =
      some (⟨t.name, codeOf (creation engine.clusterState t).2, msg⟩,
        { engine with clusterState := (creation engine.clusterState t).1 }) := by
  have hrun : (createTopic principal false t).run engine =
      (onCluster (creation · t) >>= creationAnswer t).run engine := by
    simp only [createTopic, permitsOrCluster, bind_pure_comp, StateT.run_bind, StateT.run_map,
      StateT.run_get, map_pure, pure_bind, hperm]
    rfl
  rw [hrun, StateT.run_bind, run_onCluster]
  cases hcode : (creation engine.clusterState t).2 with
  | ok _ => exact ⟨none, rfl⟩
  | error code => exact ⟨some (creationMessage code), rfl⟩

theorem predicts_iff_codes
    (hperm : engine.authorizer.permitsOrCluster principal .topic t.name .create = true)
    (timeoutMs : ℤ) :
    ValidationPredicts engine principal t timeoutMs ↔
      (validateTopic engine.clusterState t).1 = codeOf (creation engine.clusterState t).2 := by
  obtain ⟨msg, hcr⟩ := run_createTopic_created hperm
  simp only [ValidationPredicts, run_createTopics_singleton, run_createTopic_validated hperm,
    hcr, Option.map_some, Option.some.injEq, Prod.mk.injEq]
  constructor
  · rintro ⟨_, _, _, ⟨rfl, -⟩, ⟨rfl, -⟩, hcodes⟩
    exact singleton_inj.mp hcodes
  · intro hcodes
    exact ⟨_, _, _, ⟨rfl, trivial⟩, ⟨rfl, rfl⟩, by rw [map_singleton, hcodes]; rfl⟩

section Checks

variable {cluster : ClusterState W} (hname : ClusterState.validName t.name)

include hname

theorem validateTopic_existing (ht : cluster.hasTopic t.name) :
    (validateTopic cluster t).1 = .topicAlreadyExists := by
  simp [validateTopic, hname, ht]

theorem validateTopic_fresh (ht : ¬ cluster.hasTopic t.name) :
    (¬ (t.numPartitions = -1 ∨ 0 < t.numPartitions) →
        (validateTopic cluster t).1 = .invalidPartitions) ∧
      (t.numPartitions = -1 ∨ 0 < t.numPartitions → ¬ FactorAllowed t.replicationFactor →
        (validateTopic cluster t).1 = .invalidReplicationFactor) ∧
      (t.numPartitions = -1 ∨ 0 < t.numPartitions → FactorAllowed t.replicationFactor →
        (validateTopic cluster t).1 = .none) := by
  rw [validateTopic, if_neg (by simpa using hname), if_neg ht]
  refine ⟨fun hcnt => ?_, fun hcnt hfactor => ?_, fun hcnt hfactor => ?_⟩
  · rw [if_pos (by omega)]
  · rw [FactorAllowed] at hfactor
    rw [if_neg (by omega), if_pos (by omega)]
  · rw [FactorAllowed] at hfactor
    rw [if_neg (by omega), if_neg (by omega)]

theorem creation_code (cl : ClusterState W) : (¬ CountAllowed (askedPartitions t) →
        codeOf (creation cl t).2 = .invalidPartitions) ∧
      (CountAllowed (askedPartitions t) → ¬ FactorAllowed t.replicationFactor →
        codeOf (creation cl t).2 = .invalidReplicationFactor) ∧
      (CountAllowed (askedPartitions t) → FactorAllowed t.replicationFactor →
        codeOf (creation cl t).2 = if cl.hasTopic t.name then .topicAlreadyExists else .none) := by
  rw [creation, ClusterState.createTopic, if_neg (by simpa using hname)]
  generalize askedPartitions t = asked
  simp only [CountAllowed, FactorAllowed]
  refine ⟨fun hcnt => ?_, fun hcnt hfactor => ?_, fun hcnt hfactor => ?_⟩
  · rw [if_pos (by split <;> omega)]
    rfl
  · rw [if_neg (by split <;> omega), if_pos (by split <;> omega)]
    rfl
  · rw [if_neg (by split <;> omega), if_neg (by split <;> omega)]
    split
    · rfl
    · rfl

theorem codes_agree_of_existing (ht : cluster.hasTopic t.name) :
    (validateTopic cluster t).1 = codeOf (creation cluster t).2 ↔
      CountAllowed (askedPartitions t) ∧ FactorAllowed t.replicationFactor := by
  obtain ⟨hcountCode, hfactorCode, hallowedCode⟩ := creation_code hname cluster
  rw [validateTopic_existing hname ht]
  by_cases hcnt : CountAllowed (askedPartitions t)
  · by_cases hfactor : FactorAllowed t.replicationFactor
    · rw [hallowedCode hcnt hfactor, if_pos ht]
      exact iff_of_true rfl ⟨hcnt, hfactor⟩
    · rw [hfactorCode hcnt hfactor]
      exact iff_of_false (by decide) fun h => hfactor h.2
  · rw [hcountCode hcnt]
    exact iff_of_false (by decide) fun h => hcnt h.1

theorem codes_agree_of_fresh (ht : ¬ cluster.hasTopic t.name) :
    (validateTopic cluster t).1 = codeOf (creation cluster t).2 ↔
      ((t.numPartitions = -1 ∨ 0 < t.numPartitions) ↔ CountAllowed (askedPartitions t)) := by
  obtain ⟨hcountCode, hfactorCode, hallowedCode⟩ := creation_code hname cluster
  obtain ⟨hcountCode', hfactorCode', hallowedCode'⟩ := validateTopic_fresh hname ht
  by_cases hcnt : CountAllowed (askedPartitions t) <;>
    by_cases hcnt' : t.numPartitions = -1 ∨ 0 < t.numPartitions <;>
      by_cases hfactor : FactorAllowed t.replicationFactor
  all_goals simp_all
theorem numbersAgree_iff :
    (validateTopic cluster t).1 = codeOf (creation cluster t).2 ↔ NumbersAgree cluster t := by
  by_cases htopic : cluster.hasTopic t.name
  · rw [codes_agree_of_existing hname htopic]
    exact ⟨fun h => ⟨fun _ => h, fun hfresh => absurd htopic hfresh⟩, fun h => h.existing htopic⟩
  · rw [codes_agree_of_fresh hname htopic]
    exact ⟨fun h => ⟨fun hold => absurd hold htopic, fun _ => h⟩, fun h => h.fresh htopic⟩

end Checks

theorem validation_predicts_iff (engine : BrokerEngine W) (principal : String)
    (t : CreatableTopic) (timeoutMs : ℤ) :
    ValidationPredicts engine principal t timeoutMs ↔
      (engine.authorizer.permitsOrCluster principal .topic t.name .create →
        ClusterState.validName t.name → NumbersAgree engine.clusterState t) := by
  cases hperm : engine.authorizer.permitsOrCluster principal .topic t.name .create with
  | false =>
    refine iff_of_true ?_ nofun
    simp only [ValidationPredicts, run_createTopics_singleton,
      run_createTopic_denied _ hperm, Option.map_some]
    exact ⟨_, _, _, rfl, rfl, rfl⟩
  | true =>
    rw [predicts_iff_codes hperm]
    by_cases hname : ClusterState.validName t.name
    · rw [numbersAgree_iff hname]
      exact ⟨fun h _ _ => h, fun h => h rfl hname⟩
    · refine iff_of_true ?_ fun _ h => absurd h hname
      simp [validateTopic, creation, ClusterState.createTopic, hname, codeOf]

def permissiveEngine : BrokerEngine Unit :=
  ⟨ClusterState.new ClusterState.emptyTiers, ⟨0, "localhost", 9092, "c"⟩, .new, .new,
    .new false [] true⟩

theorem validation_misses_bound :
    ¬ ValidationPredicts permissiveEngine "User:ann" ⟨"orders", 20000, 1, [], []⟩ 1000 := by
  rw [predicts_iff_codes (by decide +kernel)]
  decide +kernel

end Handler

/-- The lookups of a client are made with an `i32`. -/
def TopicAction.IndexFits : TopicAction → Prop
  | .getOrCreatePartition tp => FitsSigned 32 tp.partition
  | _ => True

namespace ClusterState

variable {W : Type} {cluster : ClusterState W} {name : String} {newCount : ℤ}
  {assignments : Option ℕ}

def created (cluster cluster' : ClusterState W) : Set TopicPartition :=
  {tp | cluster'.Exists tp.topic tp.partition ∧ ¬ cluster.Exists tp.topic tp.partition}

def SuccessorsFit (cluster : ClusterState W) (name : String) : Prop :=
  cluster.topics.lookup name = none → ∀ i, cluster.Exists name i → FitsSigned 32 (i + 1)

/-- What `create_partitions` computes in an `i32` it computes without overflow: the successors, and
the number of assignments that are needed if there are any. -/
structure SumsFit (cluster : ClusterState W) (name : String) (newCount : ℤ)
    (assignments : Option ℕ) : Prop where
  successors : cluster.SuccessorsFit name
  needed : cluster.hasTopic name → cluster.currentCount name < newCount → 0 < newCount →
    newCount ≤ 10000 → assignments.isSome → FitsSigned 32 (newCount - cluster.currentCount name)

/-- `create_partitions` with the given result stays within its limits. -/
structure WithinLimits (cluster : ClusterState W) (name : String) (newCount : ℤ)
    (assignments : Option ℕ) (result : ClusterState W × Except KafkaErrorCode Unit) : Prop where
  number : (created cluster result.1).encard ≤ 10000
  range : ∀ tp ∈ created cluster result.1,
    tp.topic = name ∧ 0 ≤ tp.partition ∧ tp.partition < newCount
  sums : cluster.SumsFit name newCount assignments
  complete : result.2 = .ok () → ∀ i, 0 ≤ i → i < newCount → result.1.Exists name i

def HasCount (cluster : ClusterState W) (name : String) (count : ℤ) : Prop :=
  match cluster.topics.lookup name with
  | some registration => registration.numPartitions = count
  | none => IsGreatest {i | cluster.Exists name i} (count - 1)

/-- What is needed of a topic with the given count: a count from the indexes is an `i32`; and if
the request asks for more partitions than that, the number of the missing ones is an `i32` where it
is looked at, and the topic has all partitions below the count if the request is granted. -/
structure Expandable (cluster : ClusterState W) (name : String) (newCount : ℤ)
    (assignments : Option ℕ) (count : ℤ) : Prop where
  counted : cluster.topics.lookup name = none → count < 2 ^ 31
  missing : count < newCount → 0 < newCount → newCount ≤ 10000 → assignments.isSome →
    newCount - count < 2 ^ 31
  filled : count < newCount → 0 < newCount → newCount ≤ 10000 →
    (∀ n ∈ assignments, (n : ℤ) = newCount - count) →
      0 ≤ count ∧ ∀ i, 0 ≤ i → i < count → cluster.Exists name i

/-- The indexes of all partitions are `i32`s. -/
def IndexesFit (cluster : ClusterState W) : Prop :=
  ∀ name i, cluster.Exists name i → FitsSigned 32 i

theorem currentCount_pos (hpos : cluster.CountsPositive) {reg : TopicRegistration}
    (hl : cluster.topics.lookup name = some reg) :
    0 < cluster.currentCount name := by
  simpa only [currentCount, hl] using hpos name reg hl

theorem le_currentCount (hpos : cluster.CountsPositive) (ht : cluster.hasTopic name) :
    -2 ^ 31 ≤ cluster.currentCount name := by
  cases hl : cluster.topics.lookup name with
  | some reg =>
    have hcnt := currentCount_pos hpos hl
    omega
  | none =>
    obtain ⟨⟨i, -, heq⟩, -⟩ :=
      currentCount_of_unregistered hl (exists_of_unregistered hl ht)
    rw [heq]
    exact (wrapSigned_fits (by decide) _).1

theorem Registers.indexesFit {cl' : ClusterState W} {added : ℤ → Prop} {count : ℤ}
    (h : Registers cluster cl' name added count) (hfit : cluster.IndexesFit)
    (hadded : ∀ i, added i → FitsSigned 32 i) : cl'.IndexesFit := by
  intro name' i hex
  rcases (h.existing name' i).mp hex with hold | ⟨-, hnew⟩
  · exact hfit name' i hold
  · exact hadded i hnew

theorem indexesFit_execTopic (hpos : cluster.CountsPositive) (hfit : cluster.IndexesFit)
    {act : TopicAction} (haction : act.IndexFits) :
    (cluster.execTopic act).IndexesFit := by
  cases act with
  | createTopic name num repl configs =>
    rcases createTopic_cases cluster name num repl configs with
      hsame | ⟨parts, -, hparts, -, hregisters⟩
    · rw [execTopic, hsame]
      exact hfit
    · exact hregisters.indexesFit hfit fun i hi => ⟨by omega, by omega⟩
  | createPartitions name newCount assignments valOnly =>
    by_cases hadmits : cluster.AdmitsPartitions name newCount assignments valOnly
    · obtain ⟨ht, -, -, hle, -⟩ := id hadmits
      have hcnt := le_currentCount hpos ht
      exact (registers_createPartitions hadmits).indexesFit hfit fun i hi =>
        ⟨by omega, by omega⟩
    · rw [execTopic, createPartitions_of_not_admitted hadmits]
      exact hfit
  | deleteTopic name =>
    intro name' i hex
    exact hfit name' i ((exists_deleteTopic cluster name name' i).mp hex).2
  | updateTopicConfigs name es =>
    by_cases ht : cluster.hasTopic name
    · exact (registers_updateTopicConfigs ht es).indexesFit hfit fun _ => False.elim
    · rw [execTopic, updateTopicConfigs_of_no_topic ht]
      exact hfit
  | getOrCreatePartition tp =>
    intro name i hex
    rcases (exists_getOrCreatePartition cluster tp name i).mp hex with hold | ⟨-, rfl⟩
    · exact hfit name i hold
    · exact haction

theorem hasCount_iff (ht : cluster.hasTopic name) (hsucc : cluster.SuccessorsFit name) (count : ℤ) :
    cluster.HasCount name count ↔ cluster.currentCount name = count := by
  rw [HasCount]
  cases hl : cluster.topics.lookup name with
  | some reg => simp only [currentCount, hl]
  | none =>
    obtain ⟨⟨last, hlast, heq⟩, hle⟩ :=
      currentCount_of_unregistered hl (exists_of_unregistered hl ht)
    have hwrap : ∀ i, cluster.Exists name i → wrapSigned 32 (i + 1) = i + 1 := fun i hi =>
      wrapSigned_of_fits (by decide) (hsucc hl i hi)
    have hgreatest : IsGreatest {i | cluster.Exists name i} last := by
      refine ⟨hlast, fun i hi => ?_⟩
      have hbd := hle i hi
      rw [hwrap i hi, heq, hwrap last hlast] at hbd
      omega
    rw [heq, hwrap last hlast]
    constructor
    · intro h
      have hunique := hgreatest.unique h
      omega
    · rintro rfl
      rwa [add_sub_cancel_right]

theorem admits_of_ok (h : (cluster.createPartitions name newCount assignments false).2 = .ok ()) :
    cluster.AdmitsPartitions name newCount assignments false := by
  unfold createPartitions at h
  dsimp only at h
  split_ifs at h with ht hle hrange hasg hval
  all_goals try simp at h
  · exact absurd hval (by simp)
  · exact ⟨by simpa using ht, by omega, by omega, by omega, not_any_ne_iff.mp hasg, rfl⟩

theorem ok_of_admits (h : cluster.AdmitsPartitions name newCount assignments false) :
    (cluster.createPartitions name newCount assignments false).2 = .ok () := by
  obtain ⟨ht, hlt, hpos, hle, hasg, -⟩ := h
  unfold createPartitions
  rw [if_neg (by simpa using ht), if_neg (by omega), if_neg (by omega),
    if_neg (not_any_ne_iff.mpr hasg), if_neg (by simp)]

theorem withinLimits_of_not_admitted
    (hadm : ¬ cluster.AdmitsPartitions name newCount assignments false)
    (hsums : cluster.SumsFit name newCount assignments) :
    cluster.WithinLimits name newCount assignments
      (cluster.createPartitions name newCount assignments false) := by
  have hnone : created cluster cluster = ∅ :=
    Set.eq_empty_of_forall_notMem fun tp h => h.2 h.1
  refine ⟨?_, ?_, hsums, fun hok => absurd (admits_of_ok hok) hadm⟩
  · rw [createPartitions_of_not_admitted hadm, hnone, Set.encard_empty]
    exact zero_le
  · rw [createPartitions_of_not_admitted hadm, hnone]
    exact fun tp h => absurd h (Set.notMem_empty tp)

theorem currentCount_nonneg_of_exists (hpos : cluster.CountsPositive)
    (hsucc : cluster.SuccessorsFit name)
    (hex : cluster.Exists name (cluster.currentCount name)) :
    0 ≤ cluster.currentCount name := by
  cases hl : cluster.topics.lookup name with
  | some reg => exact (currentCount_pos hpos hl).le
  | none =>
    have hbd := (currentCount_of_unregistered hl ⟨_, hex⟩).2 _ hex
    rw [wrapSigned_of_fits (by decide) (hsucc hl _ hex)] at hbd
    omega

section Admitted

variable (hadmits : cluster.AdmitsPartitions name newCount assignments false)

include hadmits

theorem mem_created_iff (tp : TopicPartition) :
    tp ∈ created cluster (cluster.createPartitions name newCount assignments false).1 ↔
      tp.topic = name ∧ cluster.currentCount name ≤ tp.partition ∧ tp.partition < newCount ∧
        ¬ cluster.Exists tp.topic tp.partition := by
  have hex := (registers_createPartitions hadmits).existing tp.topic tp.partition
  constructor
  · rintro ⟨hnew, hold⟩
    obtain ⟨ht, hlo, hhi⟩ := (hex.mp hnew).resolve_left hold
    exact ⟨ht, hlo, hhi, hold⟩
  · rintro ⟨ht, hlo, hhi, hold⟩
    exact ⟨hex.mpr (Or.inr ⟨ht, hlo, hhi⟩), hold⟩

theorem encard_created_le (hcnt : 0 ≤ cluster.currentCount name) :
    (created cluster (cluster.createPartitions name newCount assignments false).1).encard ≤
      10000 := by
  have hsub : created cluster (cluster.createPartitions name newCount assignments false).1 ⊆
      ((Finset.Ico 0 newCount).image (TopicPartition.mk name) : Set TopicPartition) := by
    intro tp hmem
    obtain ⟨rfl, hlo, hhi, -⟩ := (mem_created_iff hadmits tp).mp hmem
    exact Finset.mem_coe.mpr
      (Finset.mem_image.mpr ⟨tp.partition, Finset.mem_Ico.mpr ⟨by omega, hhi⟩, rfl⟩)
  have hcard : ((Finset.Ico 0 newCount).image (TopicPartition.mk name)).card ≤ 10000 := by
    refine Finset.card_image_le.trans ?_
    have hle := hadmits.2.2.2.1
    rw [Int.card_Ico]
    omega
  refine (Set.encard_le_encard hsub).trans ?_
  rw [Set.encard_coe_eq_coe_finsetCard]
  exact_mod_cast hcard

theorem withinLimits_of_admitted_iff (hpos : cluster.CountsPositive)
    (hsums : cluster.SumsFit name newCount assignments) :
    cluster.WithinLimits name newCount assignments
        (cluster.createPartitions name newCount assignments false) ↔
      0 ≤ cluster.currentCount name ∧
        ∀ i, 0 ≤ i → i < cluster.currentCount name → cluster.Exists name i := by
  have hlt := hadmits.2.1
  have hex := (registers_createPartitions hadmits).existing name
  constructor
  · intro h
    refine ⟨?_, fun i hlo hhi => ?_⟩
    · -- below 0 the count is not an index yet, and would be created
      by_contra hneg
      have hfresh : ¬ cluster.Exists name (cluster.currentCount name) := fun hexists' =>
        hneg (currentCount_nonneg_of_exists hpos hsums.successors hexists')
      have hrange := h.range ⟨name, _⟩ ((mem_created_iff hadmits _).mpr ⟨rfl, le_rfl, hlt, hfresh⟩)
      exact hneg hrange.2.1
    · have hnew := (hex i).mp (h.complete (ok_of_admits hadmits) i hlo (hhi.trans hlt))
      exact hnew.resolve_right fun hadded => absurd hadded.2.1 (not_le.mpr hhi)
  · rintro ⟨hcnt, hfilled⟩
    refine ⟨encard_created_le hadmits hcnt, fun tp hmem => ?_, hsums, fun _ i hlo hhi => ?_⟩
    · obtain ⟨ht, hle, hhi, -⟩ := (mem_created_iff hadmits tp).mp hmem
      exact ⟨ht, by omega, hhi⟩
    · rcases lt_or_ge i (cluster.currentCount name) with hbelow | habove
      · exact (hex i).mpr (Or.inl (hfilled i hlo hbelow))
      · exact (hex i).mpr (Or.inr ⟨rfl, habove, hhi⟩)

end Admitted

theorem assigned_iff {missing : ℤ} (hpos : 0 < missing)
    (hfits : assignments.isSome → missing < 2 ^ 31) :
    (∀ n ∈ assignments, n = ofSigned 64 (wrapSigned 32 missing)) ↔
      ∀ n ∈ assignments, (n : ℤ) = missing := by
  cases assignments with
  | none => simp
  | some n =>
    have hlt := hfits rfl
    rw [wrapSigned_of_fits (by decide) ⟨by omega, hlt⟩]
    have hneeded : ofSigned 64 missing = missing.toNat := by
      rw [ofSigned, Int.emod_eq_of_lt (by omega) (by omega)]
    simp only [Option.mem_some_iff, forall_eq', hneeded]
    omega

theorem withinLimits_iff_of_successors (hpos : cluster.CountsPositive) (ht : cluster.hasTopic name)
    (hsucc : cluster.SuccessorsFit name) (newCount : ℤ) (assignments : Option ℕ) :
    cluster.WithinLimits name newCount assignments
        (cluster.createPartitions name newCount assignments false) ↔
      cluster.Expandable name newCount assignments (cluster.currentCount name) := by
  constructor
  · intro h
    refine ⟨fun hnone => ?_, fun hlt hnew hle hsome => ?_, fun hlt hnew hle hasg => ?_⟩
    · obtain ⟨⟨i, -, heq⟩, -⟩ :=
        currentCount_of_unregistered hnone (exists_of_unregistered hnone ht)
      rw [heq]
      exact (wrapSigned_fits (by decide) _).2
    · exact (h.sums.needed ht hlt hnew hle hsome).2
    · have hadmits : cluster.AdmitsPartitions name newCount assignments false :=
        ⟨ht, hlt, hnew, hle, (assigned_iff (by omega) fun hsome =>
          (h.sums.needed ht hlt hnew hle hsome).2).mpr hasg, rfl⟩
      exact (withinLimits_of_admitted_iff hadmits hpos h.sums).mp h
  · intro h
    have hsums : cluster.SumsFit name newCount assignments := by
      refine ⟨hsucc, fun _ hlt hnew hle hsome => ⟨by omega, h.missing hlt hnew hle hsome⟩⟩
    by_cases hadmits : cluster.AdmitsPartitions name newCount assignments false
    · obtain ⟨-, hlt, hnew, hle, hasg, -⟩ := id hadmits
      refine (withinLimits_of_admitted_iff hadmits hpos hsums).mpr (h.filled hlt hnew hle ?_)
      exact (assigned_iff (by omega) (h.missing hlt hnew hle)).mp hasg
    · exact withinLimits_of_not_admitted hadmits hsums

theorem withinLimits_iff (hpos : cluster.CountsPositive) (hfit : cluster.IndexesFit)
    (name : String) (cnt : ℤ) (asgs : Option ℕ) :
    cluster.WithinLimits name cnt asgs (cluster.createPartitions name cnt asgs false) ↔
      ∀ count, cluster.HasCount name count → cluster.Expandable name cnt asgs count := by
  by_cases ht : cluster.hasTopic name
  · by_cases hsucc : cluster.SuccessorsFit name
    · simp only [withinLimits_iff_of_successors hpos ht hsucc, hasCount_iff ht hsucc, forall_eq']
    · refine iff_of_false (fun h => hsucc h.sums.successors) fun h => ?_
      rw [SuccessorsFit] at hsucc
      push Not at hsucc
      obtain ⟨hnone, i, hi, hover⟩ := hsucc
      -- the index without a successor is the highest there can be
      have hlast : i = 2 ^ 31 - 1 := by
        have hindex := hfit name i hi
        simp only [FitsSigned] at hindex hover
        omega
      have hcnt : cluster.HasCount name (2 ^ 31) := by
        rw [HasCount, hnone]
        refine ⟨hlast ▸ hi, fun i' hi' => ?_⟩
        have hindex := (hfit name i' hi').2
        omega
      exact absurd ((h _ hcnt).counted hnone) (lt_irrefl _)
  · have hnone : ∀ i, ¬ cluster.Exists name i := fun i hi =>
      ht (hasTopic_iff.mpr (Or.inr ⟨i, hi⟩))
    refine iff_of_true ?_ fun count hcnt => ?_
    · refine withinLimits_of_not_admitted (fun h => ht h.1) ⟨fun _ i hi => ?_, fun h => ?_⟩
      · exact absurd hi (hnone i)
      · exact absurd h ht
    · rw [HasCount] at hcnt
      cases hl : cluster.topics.lookup name with
      | some reg => exact absurd (hasTopic_iff.mpr (Or.inl (by simp [hl]))) ht
      | none =>
        rw [hl] at hcnt
        exact absurd hcnt.1 (hnone _)

theorem createPartitions_within_limits_iff (tiers : Tiers W) {actions : List TopicAction}
    (hactions : ∀ action ∈ actions, action.IndexFits)
    (hrun : run (fun cluster action => some (execTopic cluster action)) (new tiers) actions =
      some cluster) (name : String) (newCount : ℤ) (assignments : Option ℕ) :
    cluster.WithinLimits name newCount assignments
        (cluster.createPartitions name newCount assignments false) ↔
      ∀ count, cluster.HasCount name count →
        cluster.Expandable name newCount assignments count := by
  have hstep : ∀ (cluster : ClusterState W) (action : TopicAction) cl',
      cluster.CountsPositive ∧ cluster.IndexesFit → action.IndexFits →
      some (cluster.execTopic action) = some cl' →
      cl'.CountsPositive ∧ cl'.IndexesFit := by
    rintro cluster action _ ⟨hpos, hfit⟩ hfits ⟨⟩
    exact ⟨countsPositive_execTopic hpos action, indexesFit_execTopic hpos hfit hfits⟩
  have hstart : (new tiers).CountsPositive ∧ (new tiers).IndexesFit := by
    refine ⟨fun name reg hl => ?_, fun name i hexists => ?_⟩
    · exact absurd hl (by rw [new, AList.lookup_empty]; nofun)
    · exact absurd (exists_iff_mem_keys.mp hexists) List.not_mem_nil
  obtain ⟨hpos, hfit⟩ := run_invariant hstep hstart (along_of_forall hactions) hrun
  exact withinLimits_iff hpos hfit name newCount assignments

def lookedUp (i : ℤ) : ClusterState Unit := ((new emptyTiers).getOrCreatePartition ⟨"orders", i⟩).1

theorem lookedUp_within_limits : (lookedUp 0).WithinLimits "orders" 2 none
      ((lookedUp 0).createPartitions "orders" 2 none false) := by
  have hindexes : ∀ i, (lookedUp 0).Exists "orders" i → i = 0 := by
    intro i hi
    rcases (exists_getOrCreatePartition _ _ _ _).mp hi with hold | hnew
    · exact absurd (exists_iff_mem_keys.mp hold) List.not_mem_nil
    · exact hnew.2
  have hactions : ∀ act ∈ [TopicAction.getOrCreatePartition ⟨"orders", 0⟩],
      act.IndexFits := by
    intro act hmem
    obtain rfl := List.mem_singleton.mp hmem
    exact ⟨by decide, by decide⟩
  refine (createPartitions_within_limits_iff emptyTiers hactions rfl "orders" 2 none).mpr ?_
  intro count hcnt
  have hlast := hindexes (count - 1) hcnt.1
  obtain rfl : count = 1 := by omega
  refine ⟨fun _ => by decide, fun _ _ _ => nofun, fun _ _ _ _ => ⟨by decide, fun i hlo hhi => ?_⟩⟩
  obtain rfl : i = 0 := by omega
  decide +kernel

theorem lookups_break_limits :
    (∀ i, run (fun cluster action => some (execTopic cluster action)) (new emptyTiers)
        [.getOrCreatePartition ⟨"orders", i⟩] = some (lookedUp i)) ∧
      ¬ (lookedUp 5).WithinLimits "orders" 8 none
        ((lookedUp 5).createPartitions "orders" 8 none false) ∧
      ¬ (lookedUp (-5)).WithinLimits "orders" 1 none
        ((lookedUp (-5)).createPartitions "orders" 1 none false) ∧
      ¬ (lookedUp (2 ^ 31 - 1)).WithinLimits "orders" 1 none
        ((lookedUp (2 ^ 31 - 1)).createPartitions "orders" 1 none false) := by
  refine ⟨fun _ => rfl, fun h => ?_, fun h => ?_, fun h => ?_⟩
  · exact absurd (h.complete (by decide +kernel) 0 le_rfl (by decide)) (by decide +kernel)
  · exact absurd (h.range ⟨"orders", -4⟩ ⟨by decide +kernel, by decide +kernel⟩).2.1 (by decide)
  · exact absurd (h.sums.successors rfl (2 ^ 31 - 1) (by decide +kernel)) (by decide)

def applied (entries : List (String × Option String)) (configs : String → Option String) :
    String → Option String :=
  entries.foldl (fun configs entry => Function.update configs entry.1 entry.2) configs

def settings (entries : List (String × Option String)) (key : String) : List (Option String) :=
  (entries.filter (·.1 = key)).map (·.2)

theorem settings_concat (es : List (String × Option String)) (entry : String × Option String)
    (key : String) :
    settings (es ++ [entry]) key = settings es key ++ if entry.1 = key then [entry.2] else [] := by
  rw [settings, filter_append, map_append, filter_singleton, settings]
  split_ifs with hkey
  · simp [hkey]
  · simp [hkey]

theorem applied_eq (es : List (String × Option String)) (configs : String → Option String)
    (key : String) :
    applied es configs key = ((settings es key).getLast?).getD (configs key) := by
  induction es using reverseRecOn with
  | nil => rfl
  | append_singleton es entry ih =>
    rw [applied, foldl_concat, ← applied, settings_concat, Function.update_apply]
    split_ifs with hkey hkey' hkey'
    · simp
    · exact absurd hkey.symm hkey'
    · exact absurd hkey'.symm hkey
    · rw [append_nil]
      exact ih

theorem lookup_updateConfigs (configs : HashMap String String)
    (es : List (String × Option String)) :
    (updateConfigs configs es).lookup = applied es configs.lookup := by
  induction es using reverseRecOn with
  | nil => rfl
  | append_singleton es entry ih =>
    obtain ⟨key, value⟩ := entry
    rw [updateConfigs, foldl_concat, ← updateConfigs, applied, foldl_concat, ← applied, ← ih]
    funext key'
    cases value with
    | some value => rw [Function.update_apply, HashMap.lookup_insert_ite]
    | none => rw [Function.update_apply, HashMap.lookup_erase_ite]

theorem lookup_givenConfigs (es : List (String × Option String)) (key : String) :
    (givenConfigs es).lookup key = (settings es key).reduceOption.getLast? := by
  induction es using reverseRecOn with
  | nil => rfl
  | append_singleton es entry ih =>
    obtain ⟨key', value⟩ := entry
    rw [givenConfigs, foldl_concat, ← givenConfigs, settings_concat, reduceOption_append]
    cases value with
    | some value =>
      rw [HashMap.lookup_insert_ite, ih]
      split_ifs with hkey hkey' hkey'
      · simp
      · exact absurd hkey.symm hkey'
      · exact absurd hkey'.symm hkey
      · simp
    | none =>
      rw [ih]
      split_ifs with hkey
      · simp
      · simp

def RemovesNothingGiven (entries : List (String × Option String)) : Prop :=
  ∀ key, (settings entries key).getLast? = some none → ∀ value, some value ∉ settings entries key

theorem getLast_reduceOption_iff (values : List (Option String)) :
    values.reduceOption.getLast? = values.getLast?.getD none ↔
      (values.getLast? = some none → ∀ value, some value ∉ values) := by
  induction values using reverseRecOn with
  | nil => exact iff_of_true rfl nofun
  | append_singleton values value _ =>
    rw [reduceOption_append, getLast?_concat]
    cases value with
    | some value => exact iff_of_true (by simp) nofun
    | none =>
      have hemp : values.reduceOption = [] ↔ ∀ value, some value ∉ values := by
        simp only [eq_nil_iff_forall_not_mem, reduceOption_mem_iff]
      simp [hemp]

theorem givenConfigs_eq_applied_iff (entries : List (String × Option String)) :
    (givenConfigs entries).lookup = applied entries (fun _ => none) ↔
      RemovesNothingGiven entries := by
  rw [funext_iff]
  refine forall_congr' fun key => ?_
  rw [lookup_givenConfigs, applied_eq]
  exact getLast_reduceOption_iff _

theorem ncard_exists (cluster : ClusterState W) (name : String) :
    {i | cluster.Exists name i}.ncard =
      (cluster.partitions.keys.filter fun tp => tp.topic = name).length := by
  have hnd : ((cluster.partitions.keys.filter fun tp => tp.topic = name).map
      (·.partition)).Nodup := by
    refine List.Nodup.map_on ?_ (cluster.partitions.keys_nodup.filter _)
    rintro ⟨topic, i⟩ hmem ⟨topic', i'⟩ hmem' rfl
    obtain ⟨-, rfl⟩ : _ ∧ topic = name := by simpa using hmem
    obtain ⟨-, rfl⟩ : _ ∧ topic' = topic := by simpa using hmem'
    rfl
  have hset : {i | cluster.Exists name i} = (((cluster.partitions.keys.filter fun tp =>
      tp.topic = name).map (·.partition)).toFinset : Set ℤ) := by
    ext i
    simp only [Set.mem_ofPred_eq, exists_iff_mem_keys, coe_toFinset, mem_map,
      mem_filter, decide_eq_true_eq]
    constructor
    · intro hmem
      exact ⟨_, ⟨hmem, rfl⟩, rfl⟩
    · rintro ⟨⟨topic, i'⟩, ⟨hmem, rfl⟩, rfl⟩
      exact hmem
  rw [hset, Set.ncard_coe_finset, toFinset_card_of_nodup hnd, length_map]

theorem max_wrapSigned_eq_iff {n : ℕ} (hpos : 0 < n) :
    max (wrapSigned 32 n) 1 = n ↔ n < 2 ^ 31 := by
  constructor
  · intro heq
    have hfits := (wrapSigned_fits (by decide : 0 < 32) n).2
    omega
  · intro hlt
    rw [wrapSigned_of_fits (by decide) ⟨by omega, by omega⟩]
    omega

def UpdatedInOrder (cluster : ClusterState W) (name : String)
    (entries : List (String × Option String)) : Prop :=
  ∃ registration,
    (cluster.updateTopicConfigs name entries).1.topics.lookup name = some registration ∧
    (∀ previous, cluster.topics.lookup name = some previous →
      registration.configs.lookup = applied entries previous.configs.lookup ∧
        registration.numPartitions = previous.numPartitions) ∧
    (cluster.topics.lookup name = none →
      registration.configs.lookup = applied entries (fun _ => none) ∧
        registration.numPartitions = {i | cluster.Exists name i}.ncard)

theorem updated_in_order_iff (htopic : cluster.hasTopic name)
    (entries : List (String × Option String)) :
    cluster.UpdatedInOrder name entries ↔ (cluster.topics.lookup name = none →
        {i | cluster.Exists name i}.ncard < 2 ^ 31 ∧ RemovesNothingGiven entries) := by
  rw [UpdatedInOrder, updateTopicConfigs, if_neg (by simpa using htopic)]
  cases hl : cluster.topics.lookup name with
  | some previous =>
    refine iff_of_true ?_ (by rintro ⟨⟩)
    refine ⟨{ previous with configs := updateConfigs previous.configs entries }, ?_, ?_, ?_⟩
    · dsimp only
      rw [HashMap.lookup_modify, if_pos rfl, hl, Option.map_some]
    · rintro _ ⟨⟩
      exact ⟨lookup_updateConfigs _ _, rfl⟩
    · rintro ⟨⟩
  | none =>
    obtain ⟨i, hi⟩ := exists_of_unregistered hl htopic
    have hpos : 0 < (cluster.partitions.keys.filter fun tp => tp.topic = name).length :=
      List.length_pos_of_mem (List.mem_filter.mpr ⟨exists_iff_mem_keys.mp hi, by simp⟩)
    rw [ncard_exists, ← givenConfigs_eq_applied_iff, ← max_wrapSigned_eq_iff hpos]
    rw [HashMap.lookup_insert_ite, if_pos rfl]
    constructor
    · rintro ⟨_, ⟨⟩, -, hupdated⟩ -
      exact (hupdated rfl).symm
    · intro hagree
      exact ⟨_, rfl, by rintro _ ⟨⟩, fun _ => (hagree rfl).symm⟩

theorem lookedUp_updated_in_order : (lookedUp 0).hasTopic "orders" ∧
      (lookedUp 0).UpdatedInOrder "orders" [("retention", none), ("retention", some "1")] := by
  have ht : (lookedUp 0).hasTopic "orders" := by decide +kernel
  refine ⟨ht, (updated_in_order_iff ht _).mpr fun _ => ⟨?_, fun key hlast => ?_⟩⟩
  · rw [ncard_exists]
    decide +kernel
  · by_cases hkey : "retention" = key
    · simp [settings, hkey] at hlast
    · simp [settings, hkey] at hlast

theorem lookedUp_keeps_removed : (lookedUp 0).hasTopic "orders" ∧
      ¬ (lookedUp 0).UpdatedInOrder "orders" [("retention", some "1"), ("retention", none)] := by
  refine ⟨by decide +kernel, ?_⟩
  rintro ⟨reg, hlookup, -, hfresh⟩
  have hkept : (((lookedUp 0).updateTopicConfigs "orders"
      [("retention", some "1"), ("retention", none)]).1.topics.lookup "orders").map
        (·.configs.lookup "retention") = some (some "1") := by
    decide +kernel
  have hnone : (lookedUp 0).topics.lookup "orders" = none :=
    Option.isNone_iff_eq_none.mp (by decide +kernel)
  rw [hlookup, Option.map_some] at hkept
  have hconfigs := (congrFun (hfresh hnone).1 "retention").symm.trans (Option.some.inj hkept)
  exact absurd hconfigs (by decide +kernel)

end ClusterState

end OxideMq.Broker
