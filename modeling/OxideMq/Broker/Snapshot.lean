import OxideMq.Broker.ClusterState
import OxideMq.Broker.GroupCoordinator
import OxideMq.Wal.Segment

/-! Snapshots of the cluster state. -/

namespace OxideMq.Broker

open Lib OxideMq.Protocol OxideMq.Wal OxideMq.Stream GroupCoordinator ClusterState List HashMap

/-- The `Display` rendering of an `i32`. -/
def renderI32 (x : ℤ) : List Char :=
  if x < 0 then '-' :: Nat.toDigits 10 x.natAbs else Nat.toDigits 10 x.natAbs

def splitSign : List Char → ℤ × List Char
  | '-' :: digits => (-1, digits)
  | '+' :: digits => (1, digits)
  | digits => (1, digits)

/-- `str::parse::<i32>`: an optional sign, at least one digit, and a value that fits. -/
def parseI32 (cs : List Char) : Option ℤ :=
  let (sign, digits) := splitSign cs
  if digits.isEmpty then none
  else (parseDigits digits).bind fun n =>
    if FitsSigned 32 (sign * n) then some (sign * n) else none

def offsetKey (tp : TopicPartition) : String :=
  String.ofList (tp.topic.toList ++ ':' :: renderI32 tp.partition)

def parseOffsetKey (key : String) : Option TopicPartition :=
  match key.toList.splitOn ':' with
  | [topic, partition] => (parseI32 partition).map fun index => ⟨String.ofList topic, index⟩
  | _ => none

theorem parseDigits_append (cs : List Char) {n d : ℕ} (hd : d < 10)
    (h : parseDigits cs = some n) : parseDigits (cs ++ [Nat.digitChar d]) = some (n * 10 + d) := by
  have hchar : (Nat.digitChar d).toNat = 48 + d := Nat.toNat_digitChar_of_lt_ten hd
  have hdigit : isDigit (Nat.digitChar d) = true := by
    rw [isDigit, hchar, Bool.and_eq_true, decide_eq_true_eq, decide_eq_true_eq]
    omega
  rw [parseDigits] at h ⊢
  rw [foldl_append, h, foldl_cons, foldl_nil, Option.bind_some, if_pos hdigit, hchar,
    Nat.add_sub_cancel_left]

theorem parseDigits_toDigits (n : ℕ) : parseDigits (Nat.toDigits 10 n) = some n := by
  induction n using Nat.strong_induction_on with
  | h n ih =>
    by_cases hn : n < 10
    · rw [Nat.toDigits_of_lt_base hn, ← nil_append [_],
        parseDigits_append [] hn (show parseDigits [] = some 0 from rfl), Nat.zero_mul,
        Nat.zero_add]
    · rw [Nat.toDigits_of_base_le (by norm_num) (by omega),
        parseDigits_append _ (Nat.mod_lt _ (by norm_num)) (ih (n / 10) (by omega))]
      congr 1
      omega

theorem isDigit_of_mem_toDigits {n : ℕ} {c : Char} (h : c ∈ Nat.toDigits 10 n) : c.isDigit = true :=
  Nat.isDigit_of_mem_toDigits (by norm_num) (by norm_num) h

theorem toDigits_eq_cons (n : ℕ) : ∃ c cs, Nat.toDigits 10 n = c :: cs ∧ c ≠ '-' ∧ c ≠ '+' := by
  obtain ⟨c, cs, hcons⟩ := exists_cons_of_ne_nil (@Nat.toDigits_ne_nil n 10)
  have hdigit : c.isDigit = true := isDigit_of_mem_toDigits (hcons ▸ mem_cons_self)
  refine ⟨c, cs, hcons, ?_, ?_⟩
  · rintro rfl
    exact absurd hdigit (by decide)
  · rintro rfl
    exact absurd hdigit (by decide)

theorem splitSign_renderI32 (x : ℤ) :
    splitSign (renderI32 x) = (if x < 0 then -1 else 1, Nat.toDigits 10 x.natAbs) := by
  rw [renderI32]
  split
  · rfl
  · obtain ⟨c, cs, hcons, hminus, hplus⟩ := toDigits_eq_cons x.natAbs
    rw [hcons, splitSign]
    · exact fun digits h => hminus (cons.inj h).1
    · exact fun digits h => hplus (cons.inj h).1

theorem parseI32_renderI32 {x : ℤ} (hx : FitsSigned 32 x) : parseI32 (renderI32 x) = some x := by
  have hval : (if x < 0 then -1 else 1) * (x.natAbs : ℤ) = x := by
    split
    · omega
    · omega
  simp only [parseI32, splitSign_renderI32, parseDigits_toDigits, Option.bind_some, hval, if_pos hx]
  simp

theorem colon_notMem_renderI32 (x : ℤ) : ':' ∉ renderI32 x := by
  have hdigits : ':' ∉ Nat.toDigits 10 x.natAbs := fun h =>
    absurd (isDigit_of_mem_toDigits h) (by decide)
  rw [renderI32]
  split
  · simp [hdigits]
  · exact hdigits

theorem splitOn_offsetKey (tp : TopicPartition) : (offsetKey tp).toList.splitOn ':' =
      tp.topic.toList.splitOn ':' ++ [renderI32 tp.partition] := by
  rw [offsetKey, String.toList_ofList, splitOn_append_cons_self,
    splitOn_eq_singleton (colon_notMem_renderI32 _)]

theorem parseOffsetKey_offsetKey {tp : TopicPartition} (hfits : FitsSigned 32 tp.partition) :
    parseOffsetKey (offsetKey tp) = if ':' ∈ tp.topic.toList then none else some tp := by
  rw [parseOffsetKey, splitOn_offsetKey]
  split_ifs with hcolon
  · -- at least two parts come from the topic alone
    obtain ⟨front, back, ht⟩ := append_of_mem hcolon
    obtain ⟨first, firsts, hfirst⟩ :=
      exists_cons_of_ne_nil (splitOn_ne_nil ':' front)
    obtain ⟨second, seconds, hsecond⟩ :=
      exists_cons_of_ne_nil (splitOn_ne_nil ':' back)
    rw [ht, splitOn_append_cons_self, hfirst, hsecond]
    cases firsts with
    | nil =>
      cases seconds with
      | nil => rfl
      | cons third thirds => rfl
    | cons third thirds =>
      cases thirds with
      | nil => rfl
      | cons fourth fourths => rfl
  · rw [splitOn_eq_singleton hcolon, singleton_append]
    simp only [parseI32_renderI32 hfits, Option.map_some, String.ofList_toList]

theorem renderI32_injective : Function.Injective renderI32 := by
  intro x y h
  have hdigits : ∀ {a b : ℕ}, Nat.toDigits 10 a = Nat.toDigits 10 b → a = b := by
    intro a b hab
    have hparse := parseDigits_toDigits a
    rw [hab, parseDigits_toDigits] at hparse
    exact (Option.some.inj hparse).symm
  obtain ⟨c, cs, hcons, hminus, -⟩ := toDigits_eq_cons x.natAbs
  obtain ⟨d, ds, hcons', hminus', -⟩ := toDigits_eq_cons y.natAbs
  unfold renderI32 at h
  split_ifs at h
  · have habs := hdigits (cons.inj h).2
    omega
  · rw [hcons'] at h
    exact absurd (cons.inj h).1.symm hminus'
  · rw [hcons] at h
    exact absurd (cons.inj h).1 hminus
  · have habs := hdigits h
    omega

theorem offsetKey_injective : Function.Injective offsetKey := by
  rintro ⟨topic, index⟩ ⟨topic', index'⟩ h
  have hsplit := congrArg (fun key : String => key.toList.splitOn ':') h
  simp only [splitOn_offsetKey] at hsplit
  obtain ⟨ht, hindex⟩ := append_inj' hsplit rfl
  have hchars : topic.toList = topic'.toList := by
    calc topic.toList
      _ = [':'].intercalate (topic.toList.splitOn ':') := (intercalate_splitOn ':').symm
      _ = topic'.toList := by rw [ht, intercalate_splitOn]
  rw [String.toList_inj.mp hchars, renderI32_injective (singleton_inj.mp hindex)]

structure ConsumerGroupSnapshot where
  groupId : String
  state : String
  generationId : ℤ
  leaderId : Option String
  offsets : HashMap String ℤ

structure ClusterStateSnapshot where
  partitions : List PartitionSnapshot
  consumerGroups : List ConsumerGroupSnapshot

namespace GroupCoordinator

def dumpGroupSnapshots (coordinator : GroupCoordinator) : List ConsumerGroupSnapshot :=
  coordinator.groups.entries.map fun e =>
    ⟨e.1, e.2.state.debug, e.2.generationId, e.2.leaderId, e.2.offsets.renameKeys offsetKey⟩

def restoreGroup (coordinator : GroupCoordinator) (snapshot : ConsumerGroupSnapshot) :
    GroupCoordinator :=
  snapshot.offsets.entries.foldl (fun coordinator e =>
    match parseOffsetKey e.1 with
    | some tp => coordinator.commitOffset snapshot.groupId tp e.2
    | none => coordinator) coordinator

end GroupCoordinator

namespace ClusterStateSnapshot

variable {W : Type}

def capture (cluster : ClusterState W) (coordinator : GroupCoordinator) : ClusterStateSnapshot :=
  ⟨cluster.dumpPartitionSnapshots, coordinator.dumpGroupSnapshots⟩

def apply (snapshot : ClusterStateSnapshot) (cluster : ClusterState W)
    (coordinator : GroupCoordinator) : ClusterState W × GroupCoordinator :=
  (cluster.applySnapshot snapshot.partitions,
    snapshot.consumerGroups.foldl GroupCoordinator.restoreGroup coordinator.reset)

def Reordered (snapshot snapshot' : ClusterStateSnapshot) : Prop :=
  snapshot.partitions.Perm snapshot'.partitions ∧
    ∃ groups, snapshot.consumerGroups.Perm groups ∧
      List.Forall₂ (fun group group' => group'.groupId = group.groupId ∧
        HashMap.Rehash group.offsets group'.offsets) groups snapshot'.consumerGroups

end ClusterStateSnapshot

abbrev OffsetCommit := String × TopicPartition × ℤ

def ConsumerGroupSnapshot.commits (snapshot : ConsumerGroupSnapshot) : List OffsetCommit :=
  snapshot.offsets.entries.filterMap fun e =>
    (parseOffsetKey e.1).map fun tp => (snapshot.groupId, tp, e.2)

namespace GroupCoordinator

def commit (coordinator : GroupCoordinator) (c : OffsetCommit) : GroupCoordinator :=
  coordinator.commitOffset c.1 c.2.1 c.2.2

theorem restoreGroup_eq (coordinator : GroupCoordinator) (snapshot : ConsumerGroupSnapshot) :
    coordinator.restoreGroup snapshot = snapshot.commits.foldl commit coordinator := by
  rw [restoreGroup, ConsumerGroupSnapshot.commits, foldl_filterMap]
  congr 1
  funext coordinator e
  cases parseOffsetKey e.1 with
  | none => rfl
  | some tp => rfl

theorem foldl_restoreGroup (coordinator : GroupCoordinator)
    (snapshots : List ConsumerGroupSnapshot) :
    snapshots.foldl restoreGroup coordinator =
      (snapshots.flatMap ConsumerGroupSnapshot.commits).foldl commit coordinator := by
  induction snapshots generalizing coordinator with
  | nil => rfl
  | cons snapshot snapshots ih =>
    rw [foldl_cons, restoreGroup_eq, ih, flatMap_cons, foldl_append]

variable {groupId : String} {tp : TopicPartition}

theorem fetchOffset_commit (coord : GroupCoordinator) (c : OffsetCommit) :
    (coord.commit c).fetchOffset groupId tp = if groupId = c.1 ∧ tp = c.2.1 then some c.2.2
      else coord.fetchOffset groupId tp :=
  fetchOffset_commitOffset coord c.1 c.2.1 c.2.2 groupId tp

theorem fetchOffset_foldl_of_notMem {commits : List OffsetCommit}
    (h : ∀ offset, (groupId, tp, offset) ∉ commits) (coord : GroupCoordinator) :
    (commits.foldl commit coord).fetchOffset groupId tp = coord.fetchOffset groupId tp := by
  induction commits generalizing coord with
  | nil => rfl
  | cons c commits ih =>
    have hoth : ¬(groupId = c.1 ∧ tp = c.2.1) := by
      rintro ⟨rfl, rfl⟩
      exact h c.2.2 mem_cons_self
    rw [foldl_cons, ih fun offset hmem => h offset (mem_cons_of_mem _ hmem),
      fetchOffset_commit, if_neg hoth]

theorem fetchOffset_foldl_of_mem {commits : List OffsetCommit} {offset : ℤ}
    (hmem : (groupId, tp, offset) ∈ commits)
    (hagree : ∀ offset', (groupId, tp, offset') ∈ commits → offset' = offset)
    (coordinator : GroupCoordinator) :
    (commits.foldl commit coordinator).fetchOffset groupId tp = some offset := by
  induction commits generalizing coordinator with
  | nil => exact absurd hmem not_mem_nil
  | cons c commits ih =>
    rw [foldl_cons]
    by_cases hlater : (groupId, tp, offset) ∈ commits
    · exact ih hlater (fun offset' h => hagree offset' (mem_cons_of_mem _ h)) _
    · have hnone : ∀ offset', (groupId, tp, offset') ∉ commits := by
        intro offset' h
        rw [hagree offset' (mem_cons_of_mem _ h)] at h
        exact hlater h
      have hc : c = (groupId, tp, offset) :=
        ((mem_cons.mp hmem).resolve_right hlater).symm
      rw [fetchOffset_foldl_of_notMem hnone, fetchOffset_commit, hc, if_pos ⟨rfl, rfl⟩]

end GroupCoordinator

theorem ConsumerGroupSnapshot.mem_commits {snap : ConsumerGroupSnapshot} {gid : String}
    {tp : TopicPartition} {off : ℤ} :
    (gid, tp, off) ∈ snap.commits ↔ snap.groupId = gid ∧
      ∃ key, snap.offsets.lookup key = some off ∧ parseOffsetKey key = some tp := by
  simp only [commits, mem_filterMap, Option.map_eq_some_iff, Prod.mk.injEq, lookup_eq_some]
  constructor
  · rintro ⟨⟨key, value⟩, hmem, tp', hparse, hg, rfl, rfl⟩
    exact ⟨hg, key, hmem, hparse⟩
  · rintro ⟨hg, key, hmem, hparse⟩
    exact ⟨⟨key, off⟩, hmem, tp, hparse, hg, rfl, rfl⟩

namespace GroupCoordinator

variable {coordinator : GroupCoordinator} {groupId : String} {tp : TopicPartition} {offset : ℤ}

/-- Every committed offset is for an index that an `i32` can hold. -/
def IndexesFit (coordinator : GroupCoordinator) : Prop :=
  ∀ groupId tp offset, coordinator.fetchOffset groupId tp = some offset →
    FitsSigned 32 tp.partition

theorem fetchOffset_eq_some : coordinator.fetchOffset groupId tp = some offset ↔
    ∃ group, coordinator.groups.lookup groupId = some group ∧
      group.offsets.lookup tp = some offset :=
  Option.bind_eq_some_iff

theorem mem_commits_dump (hfits : coordinator.IndexesFit) :
    (groupId, tp, offset) ∈ coordinator.dumpGroupSnapshots.flatMap ConsumerGroupSnapshot.commits ↔
      coordinator.fetchOffset groupId tp = some offset ∧ ':' ∉ tp.topic.toList := by
  rw [mem_flatMap]
  constructor
  · rintro ⟨snapshot, hsnap, hcommit⟩
    obtain ⟨⟨gid', group⟩, he, rfl⟩ := mem_map.mp hsnap
    obtain ⟨rfl, key, hl, hparse⟩ := ConsumerGroupSnapshot.mem_commits.mp hcommit
    obtain ⟨tp', rfl, hoff⟩ := (lookup_renameKeys offsetKey_injective _ _ _).mp hl
    have hfetch : coordinator.fetchOffset gid' tp' = some offset :=
      fetchOffset_eq_some.mpr ⟨group, lookup_eq_some.mpr he, hoff⟩
    rw [parseOffsetKey_offsetKey (hfits _ _ _ hfetch)] at hparse
    split_ifs at hparse with hcolon
    rw [← Option.some.inj hparse]
    exact ⟨hfetch, hcolon⟩
  · rintro ⟨hfetch, hcolon⟩
    obtain ⟨group, hg, hoff⟩ := fetchOffset_eq_some.mp hfetch
    refine ⟨_, mem_map_of_mem (lookup_eq_some.mp hg),
      ConsumerGroupSnapshot.mem_commits.mpr ⟨rfl, offsetKey tp, ?_, ?_⟩⟩
    · exact (lookup_renameKeys offsetKey_injective _ _ _).mpr ⟨tp, rfl, hoff⟩
    · rw [parseOffsetKey_offsetKey (hfits _ _ _ hfetch), if_neg hcolon]

end GroupCoordinator

theorem ConsumerGroupSnapshot.mem_commits_of_rehash {groups groups' : List ConsumerGroupSnapshot}
    (h : List.Forall₂ (fun group group' => group'.groupId = group.groupId ∧
      HashMap.Rehash group.offsets group'.offsets) groups groups') (c : OffsetCommit) :
    c ∈ groups'.flatMap commits ↔ c ∈ groups.flatMap commits := by
  obtain ⟨groupId, tp, offset⟩ := c
  induction h with
  | nil => rfl
  | cons hg _ ih =>
    rw [flatMap_cons, flatMap_cons, mem_append, mem_append, ih, mem_commits, mem_commits, hg.1]
    simp only [hg.2.lookup]

theorem ClusterStateSnapshot.Reordered.mem_commits {snap snap' : ClusterStateSnapshot}
    (h : Reordered snap snap') (c : OffsetCommit) :
    c ∈ snap'.consumerGroups.flatMap ConsumerGroupSnapshot.commits ↔
      c ∈ snap.consumerGroups.flatMap ConsumerGroupSnapshot.commits := by
  obtain ⟨-, groups, hperm, hsame⟩ := h
  exact (ConsumerGroupSnapshot.mem_commits_of_rehash hsame c).trans
    (hperm.flatMap_right _).mem_iff.symm

/-- The indexes of a request, as `i32`s. -/
def IndexesFit (request : OffsetCommitRequest) : Prop :=
  ∀ t ∈ request.topics, ∀ p ∈ t.partitions, FitsSigned 32 p.partition

namespace GroupCoordinator

variable {coordinator : GroupCoordinator}

theorem IndexesFit.commitOffset (h : coordinator.IndexesFit) (gid : String)
    {tp : TopicPartition} (htp : FitsSigned 32 tp.partition) (off : ℤ) :
    (coordinator.commitOffset gid tp off).IndexesFit := by
  intro gid' tp' off' hfetch
  rw [fetchOffset_commitOffset] at hfetch
  split_ifs at hfetch with hsame
  · rw [hsame.2]
    exact htp
  · exact h gid' tp' off' hfetch

theorem IndexesFit.commitAll (h : coordinator.IndexesFit) {req : OffsetCommitRequest}
    (hreq : Broker.IndexesFit req) :
    (coordinator.commitAll req).IndexesFit := by
  rw [GroupCoordinator.commitAll]
  refine foldlRecOn req.topics _ h fun coordinator h t ht => ?_
  refine foldlRecOn t.partitions _ h fun coordinator h p hp => ?_
  exact h.commitOffset req.groupId (hreq t ht p hp) p.committedOffset

def committed (requests : List OffsetCommitRequest) : GroupCoordinator :=
  requests.foldl commitAll new

theorem indexesFit_committed {reqs : List OffsetCommitRequest}
    (h : ∀ req ∈ reqs, Broker.IndexesFit req) :
    (committed reqs).IndexesFit := by
  refine foldlRecOn reqs _ ?_ fun coordinator hfit req hreq =>
    hfit.commitAll (h req hreq)
  intro groupId tp offset hfetch
  rw [fetchOffset_new] at hfetch
  exact absurd hfetch (by simp)

end GroupCoordinator

namespace ClusterStateSnapshot

variable {W : Type}
variable {coordinator coordinator' : GroupCoordinator} {snapshot : ClusterStateSnapshot}

theorem fetchOffset_apply {cluster cluster' : ClusterState W} (hfits : coordinator.IndexesFit)
    (hsnap : Reordered (capture cluster coordinator) snapshot) (groupId : String)
    (tp : TopicPartition) :
    (snapshot.apply cluster' coordinator').2.fetchOffset groupId tp =
      if ':' ∈ tp.topic.toList then none else coordinator.fetchOffset groupId tp := by
  have hmem : ∀ offset, (groupId, tp, offset) ∈
      snapshot.consumerGroups.flatMap ConsumerGroupSnapshot.commits ↔
        coordinator.fetchOffset groupId tp = some offset ∧ ':' ∉ tp.topic.toList :=
    fun offset => (hsnap.mem_commits _).trans (mem_commits_dump hfits)
  rw [ClusterStateSnapshot.apply, foldl_restoreGroup]
  split_ifs with hcolon
  · exact fetchOffset_foldl_of_notMem (fun offset h => ((hmem offset).mp h).2 hcolon) _
  · cases hfetch : coordinator.fetchOffset groupId tp with
    | none =>
      refine fetchOffset_foldl_of_notMem (fun offset h => ?_) _
      exact absurd (hfetch.symm.trans ((hmem offset).mp h).1) (by simp)
    | some offset =>
      refine fetchOffset_foldl_of_mem ((hmem offset).mpr ⟨hfetch, hcolon⟩) (fun offset' h => ?_) _
      exact Option.some.inj (((hmem offset').mp h).1.symm.trans hfetch)

theorem fetchOffset_restored_iff (cluster cluster' : ClusterState W)
    (coordinator' : GroupCoordinator) {requests : List OffsetCommitRequest}
    (hindexes : ∀ request ∈ requests, IndexesFit request) {snapshot : ClusterStateSnapshot}
    (hsnapshot : Reordered (capture cluster (GroupCoordinator.committed requests)) snapshot)
    (groupId : String) (tp : TopicPartition) :
    (snapshot.apply cluster' coordinator').2.fetchOffset groupId tp =
        (GroupCoordinator.committed requests).fetchOffset groupId tp ↔
      ':' ∉ tp.topic.toList ∨
        (GroupCoordinator.committed requests).fetchOffset groupId tp = none := by
  rw [fetchOffset_apply (indexesFit_committed hindexes) hsnapshot]
  split_ifs with hcolon
  · rw [eq_comm]
    simp [hcolon]
  · simp [hcolon]

theorem Reordered.refl (snapshot : ClusterStateSnapshot) : Reordered snapshot snapshot :=
  ⟨List.Perm.refl _, _, List.Perm.refl _, forall₂_same.mpr fun _ _ => ⟨rfl, List.Perm.refl _⟩⟩

def emptyCluster : ClusterState MemoryWal :=
  ClusterState.new ⟨MemoryWal.new, ∅, LogCache.new 64, BlockCache.new 64⟩

def commitFor (topic : String) : OffsetCommitRequest := ⟨"group", 0, "", [⟨topic, [⟨0, 5, none⟩]⟩]⟩

theorem indexesFit_commitFor (topic : String) :
    ∀ request ∈ [commitFor topic], IndexesFit request := by
  intro request hreq t ht p hp
  rw [mem_singleton.mp hreq] at ht
  rw [mem_singleton.mp ht] at hp
  rw [mem_singleton.mp hp]
  decide

theorem fetchOffset_commitFor (topic : String) :
    (committed [commitFor topic]).fetchOffset "group" ⟨topic, 0⟩ = some 5 := by
  show (new.commitOffset "group" ⟨topic, 0⟩ 5).fetchOffset "group" ⟨topic, 0⟩ = _
  rw [fetchOffset_commitOffset, if_pos ⟨rfl, rfl⟩]

theorem orders_restored :
    ((capture emptyCluster (GroupCoordinator.committed [commitFor "orders"])).apply emptyCluster
      GroupCoordinator.new).2.fetchOffset "group" ⟨"orders", 0⟩ = some 5 := by
  rw [← fetchOffset_commitFor "orders"]
  refine (fetchOffset_restored_iff emptyCluster emptyCluster new
    (indexesFit_commitFor "orders") (Reordered.refl _) "group" ⟨"orders", 0⟩).mpr (Or.inl ?_)
  decide

theorem colon_not_restored :
    (GroupCoordinator.committed [commitFor "a:b"]).fetchOffset "group" ⟨"a:b", 0⟩ = some 5 ∧
      ((capture emptyCluster (GroupCoordinator.committed [commitFor "a:b"])).apply emptyCluster
        GroupCoordinator.new).2.fetchOffset "group" ⟨"a:b", 0⟩ = none := by
  refine ⟨fetchOffset_commitFor "a:b", ?_⟩
  rw [fetchOffset_apply (indexesFit_committed (indexesFit_commitFor "a:b"))
    (Reordered.refl _), if_pos (by decide)]

structure Restored (cluster restored : ClusterState W) : Prop where
  names : ∀ tp, (restored.getPartition tp).isSome = (cluster.getPartition tp).isSome
  watermarks : ∀ tp partition partition', cluster.getPartition tp = some partition →
    restored.getPartition tp = some partition' →
    partition'.highWatermark = partition.highWatermark ∧
      partition'.logStartOffset = partition.logStartOffset

theorem mem_names_dump (cl : ClusterState W) (tp : TopicPartition) :
    tp ∈ cl.dumpPartitionSnapshots.map (fun p => (⟨p.topic, p.partition⟩ : TopicPartition)) ↔
      (cl.getPartition tp).isSome := by
  rw [mem_map, Option.isSome_iff_exists]
  constructor
  · rintro ⟨p, hp, rfl⟩
    obtain ⟨⟨tp, ref⟩, he, hobj⟩ := mem_filterMap.mp hp
    obtain ⟨part, hpart, rfl⟩ := Option.map_eq_some_iff.mp hobj
    exact ⟨part, getPartition_eq_some.mpr ⟨ref, lookup_eq_some.mpr he, hpart⟩⟩
  · rintro ⟨part, hpart⟩
    obtain ⟨ref, hl, hobj⟩ := getPartition_eq_some.mp hpart
    refine ⟨⟨tp.topic, tp.partition, part.stream.streamId, part.highWatermark, part.logStartOffset⟩,
      mem_filterMap.mpr ⟨⟨tp, ref⟩, lookup_eq_some.mp hl, ?_⟩, rfl⟩
    rw [hobj, Option.map_some]

theorem getPartition_apply {cl cl' : ClusterState W}
    (hsnap : Reordered (capture cl coordinator) snapshot) (tp : TopicPartition) :
    ((snapshot.apply cl' coordinator').1.getPartition tp).isSome = (cl.getPartition tp).isSome ∧
      ∀ part, (snapshot.apply cl' coordinator').1.getPartition tp = some part →
        part.highWatermark = 0 ∧ part.logStartOffset = 0 := by
  have hreset : cl'.reset.getPartition tp = none := rfl
  constructor
  · rw [Bool.eq_iff_iff, apply, applySnapshot, isSome_getPartition_createAll, hreset]
    rw [← (hsnap.1.map _).mem_iff, ← mem_names_dump cl tp]
    simp [capture]
  · intro part hpart
    rcases getPartition_createAll hpart with hold | ⟨sid, rfl⟩
    · rw [hreset] at hold
      exact absurd hold (by simp)
    · exact ⟨rfl, rfl⟩

theorem restored_iff_empty (cluster cluster' : ClusterState W)
    (coordinator coordinator' : GroupCoordinator) {snapshot : ClusterStateSnapshot}
    (hsnapshot : Reordered (capture cluster coordinator) snapshot) :
    Restored cluster (snapshot.apply cluster' coordinator').1 ↔
      ∀ tp partition, cluster.getPartition tp = some partition →
        partition.highWatermark = 0 ∧ partition.logStartOffset = 0 := by
  constructor
  · intro hrestored tp partition hpart
    have hsome : ((snapshot.apply cluster' coordinator').1.getPartition tp).isSome := by
      rw [(getPartition_apply hsnapshot tp).1, hpart]
      rfl
    obtain ⟨part', hpart'⟩ := Option.isSome_iff_exists.mp hsome
    obtain ⟨hhigh, hstart⟩ := hrestored.watermarks tp partition part' hpart hpart'
    rw [← hhigh, ← hstart]
    exact (getPartition_apply hsnapshot tp).2 part' hpart'
  · intro hemp
    refine ⟨fun tp => (getPartition_apply hsnapshot tp).1, ?_⟩
    intro tp partition part' hpart hpart'
    obtain ⟨hhigh, hstart⟩ := hemp tp partition hpart
    obtain ⟨hhigh', hstart'⟩ := (getPartition_apply hsnapshot tp).2 part' hpart'
    exact ⟨hhigh'.trans hhigh.symm, hstart'.trans hstart.symm⟩

theorem created_restored : Restored (emptyCluster.getOrCreatePartition ⟨"orders", 0⟩).1
      ((capture (emptyCluster.getOrCreatePartition ⟨"orders", 0⟩).1 GroupCoordinator.new).apply
        emptyCluster GroupCoordinator.new).1 := by
  refine (restored_iff_empty _ _ _ _ (Reordered.refl _)).mpr fun tp part hpart => ?_
  rw [ClusterState.getPartition_getOrCreatePartition] at hpart
  split_ifs at hpart with hname
  · rw [← Option.some.inj hpart]
    exact ⟨rfl, rfl⟩
  · exact absurd hpart (by simp [emptyCluster, ClusterState.new, ClusterState.getPartition])

theorem appended_not_restored :
    ∃ cluster, emptyCluster.appendTo ⟨"orders", 0⟩ [7] = some (cluster, .ok 0) ∧
      (cluster.getPartition ⟨"orders", 0⟩).map Partition.highWatermark = some 1 ∧
      (((capture cluster GroupCoordinator.new).apply cluster GroupCoordinator.new).1.getPartition
        ⟨"orders", 0⟩).map Partition.highWatermark = some 0 := by
  have hafter : (emptyCluster.appendTo ⟨"orders", 0⟩ [7]).map (fun r =>
      (r.2.toOption, (r.1.getPartition ⟨"orders", 0⟩).map Partition.highWatermark,
        (((capture r.1 new).apply r.1 new).1.getPartition
          ⟨"orders", 0⟩).map Partition.highWatermark)) = some (some 0, some 1, some 0) := by
    decide +kernel
  obtain ⟨⟨cluster, res⟩, happ, hfields⟩ := Option.map_eq_some_iff.mp hafter
  simp only [Prod.mk.injEq] at hfields
  obtain ⟨hres, hbef, hrestored⟩ := hfields
  refine ⟨cluster, ?_, hbef, hrestored⟩
  cases res with
  | error e => simp [Except.toOption] at hres
  | ok offset =>
    rw [happ, Option.some.inj hres]

end ClusterStateSnapshot

end OxideMq.Broker
