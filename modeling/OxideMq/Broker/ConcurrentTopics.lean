import OxideMq.Broker.TopicNumbering

/-! Concurrent creation and deletion of one topic. -/

namespace OxideMq.Broker

open Lib OxideMq.Protocol OxideMq.Stream ClusterState List Option

/-- The arguments of `create_topic` beside the name. -/
structure CreateCall where
  numPartitions : ℤ
  replicationFactor : ℤ
  configs : HashMap String String

namespace CreateCall

def parts (call : CreateCall) : ℤ :=
  if call.numPartitions = -1 then 1 else call.numPartitions

def rf (call : CreateCall) : ℤ :=
  if call.replicationFactor = -1 then 1 else call.replicationFactor

/-- The checks of `create_topic` that look at its arguments only. -/
def refusal (call : CreateCall) (name : String) : Option KafkaErrorCode :=
  if !ClusterState.validName name then some .invalidTopicException
  else if call.parts ≤ 0 ∨ call.parts > 10000 then some .invalidPartitions
  else if call.rf ≤ 0 then some .invalidReplicationFactor
  else none

def registration (call : CreateCall) (name : String) : TopicRegistration :=
  ⟨name, call.parts, call.rf, call.configs⟩

theorem parts_pos_of_admitted {call : CreateCall} {name : String}
    (h : call.refusal name = none) : 0 < call.parts := by
  unfold refusal at h
  split_ifs at h with hname hparts hrf
  omega

end CreateCall

/-- Where a call of `create_topic` is. -/
inductive CreatePhase where
  | called
  | provisioning (next : ℤ)
  | missing (next : ℤ)
  | returned (result : Except KafkaErrorCode Unit)

namespace CreatePhase

def next : CreatePhase → Option ℤ
  | .provisioning next | .missing next => some next
  | _ => none

def atStart : CreatePhase → Bool
  | .called => true
  | _ => false

def finished : CreatePhase → Bool
  | .returned _ => true
  | _ => false

end CreatePhase

inductive TopicEvent where
  | created
  | deleted
  deriving DecidableEq, Repr

structure TopicCalls (W : Type) where
  cluster : ClusterState W
  calls : List (CreateCall × CreatePhase)
  history : List TopicEvent

inductive TopicCallAction where
  | createTopic (call : CreateCall)
  | step (caller : ℕ)
  | deleteTopic

namespace TopicCalls

variable {W : Type} {name : String}
variable {s s' : TopicCalls W} {caller : ℕ} {call : CreateCall} {phase : CreatePhase}

def start (cluster : ClusterState W) : TopicCalls W := ⟨cluster, [], []⟩

def setPhase (s : TopicCalls W) (caller : ℕ) (call : CreateCall) (phase : CreatePhase) :
    TopicCalls W :=
  { s with calls := s.calls.set caller (call, phase) }

def stepFrom (name : String) (s : TopicCalls W) (caller : ℕ) (call : CreateCall) :
    CreatePhase → Option (TopicCalls W)
  | .called =>
      match call.refusal name with
      | some e => some (s.setPhase caller call (.returned (.error e)))
      | none =>
          if s.cluster.hasTopic name then
            some (s.setPhase caller call (.returned (.error .topicAlreadyExists)))
          else some (s.setPhase caller call (.provisioning 0))
  | .provisioning next =>
      if next < call.parts then
        match s.cluster.partitions.lookup ⟨name, next⟩ with
        | some _ => some (s.setPhase caller call (.provisioning (next + 1)))
        | none => some (s.setPhase caller call (.missing next))
      else
        let cluster : ClusterState W :=
          { s.cluster with topics := s.cluster.topics.insert name (call.registration name) }
        let registered : TopicCalls W := ⟨cluster, s.calls, s.history ++ [.created]⟩
        some (registered.setPhase caller call (.returned (.ok ())))
  | .missing next =>
      let cluster := (s.cluster.getOrCreatePartition ⟨name, next⟩).1
      some ({ s with cluster := cluster }.setPhase caller call (.provisioning (next + 1)))
  | .returned _ => none

def exec (name : String) (s : TopicCalls W) : TopicCallAction → Option (TopicCalls W)
  | .createTopic call => some { s with calls := s.calls ++ [(call, .called)] }
  | .step caller =>
      match s.calls[caller]? with
      | none => none
      | some (call, phase) => s.stepFrom name caller call phase
  | .deleteTopic =>
      match s.cluster.deleteTopic name with
      | (cluster, .ok ()) => some { s with cluster := cluster, history := s.history ++ [.deleted] }
      | (cluster, .error _) => some { s with cluster := cluster }

def CreatedOnce (history : List TopicEvent) : Prop :=
  ∀ segment, segment <:+: history → TopicEvent.deleted ∉ segment →
    segment.count .created ≤ 1

def Whole (cluster : ClusterState W) (name : String) : Prop :=
  (∃ registration, cluster.topics.lookup name = some registration ∧
    cluster.Numbered name registration.numPartitions) ∨ ¬cluster.hasTopic name

def Finished (s : TopicCalls W) : Prop := ∀ c ∈ s.calls, c.2.finished = true

def Idle (s : TopicCalls W) : Prop := ∀ c ∈ s.calls, c.2.next = none

instance (s : TopicCalls W) : Decidable s.Idle :=
  inferInstanceAs (Decidable (∀ c ∈ s.calls, c.2.next = none))

def atCheck (name : String) (s : TopicCalls W) (caller : ℕ) : Bool :=
  s.calls[caller]?.any fun c => c.2.atStart && (c.1.refusal name).isNone

def Alone (name : String) (s : TopicCalls W) : TopicCallAction → Prop
  | .createTopic _ => True
  | .step caller => s.atCheck name caller → ¬s.cluster.hasTopic name → s.Idle
  | .deleteTopic => s.cluster.hasTopic name → s.Idle

instance (name : String) (s : TopicCalls W) : (a : TopicCallAction) → Decidable (s.Alone name a)
  | .createTopic _ => inferInstanceAs (Decidable True)
  | .step caller => inferInstanceAs
      (Decidable (s.atCheck name caller → ¬s.cluster.hasTopic name → s.Idle))
  | .deleteTopic => inferInstanceAs (Decidable (s.cluster.hasTopic name → s.Idle))

def working (s : TopicCalls W) (caller : ℕ) : Option (CreateCall × ℤ) :=
  s.calls[caller]?.bind fun c => c.2.next.map (Prod.mk c.1)

theorem idle_iff : s.Idle ↔ ∀ caller, s.working caller = none := by
  constructor
  · intro h caller
    cases hcall : s.calls[caller]? with
    | none => simp [working, hcall]
    | some c => simp [working, hcall, h c (mem_of_getElem? hcall)]
  · intro h c hc
    obtain ⟨caller, hcall⟩ := mem_iff_getElem?.mp hc
    simpa [working, hcall] using h caller

theorem Finished.idle (h : s.Finished) : s.Idle := by
  intro c hc
  have hfinished := h c hc
  generalize c.2 = phase at hfinished ⊢
  cases phase with
  | returned res => rfl
  | _ => simp [CreatePhase.finished] at hfinished

theorem working_of_getElem? (h : s.calls[caller]? = some (call, phase)) :
    s.working caller = phase.next.map (Prod.mk call) := by
  rw [working, h, bind_some]

theorem working_of_set {phase' : CreatePhase} (h : s.calls[caller]? = some (call, phase))
    (hset : s'.calls = s.calls.set caller (call, phase')) (other : ℕ) :
    s'.working other =
      if other = caller then phase'.next.map (Prod.mk call) else s.working other := by
  have hlt := (List.getElem?_eq_some_iff.mp h).1
  rw [working, hset, List.getElem?_set]
  split_ifs with heq hne hne
  · rfl
  · exact absurd heq.symm hne
  · exact absurd hne.symm heq
  · rfl

theorem working_concat_called (s : TopicCalls W) (call : CreateCall) (caller : ℕ) :
    ({ s with calls := s.calls ++ [(call, .called)] } : TopicCalls W).working caller =
      s.working caller := by
  rw [working, working, getElem?_append]
  split
  · rfl
  · next hge =>
      rw [getElem?_eq_none (Nat.not_lt.mp hge), bind_none]
      cases hcall : [(call, CreatePhase.called)][caller - s.calls.length]? with
      | none => rfl
      | some c =>
        obtain rfl := mem_singleton.mp (mem_of_getElem? hcall)
        rfl

def Deleted (history : List TopicEvent) : Prop := history.getLast? ≠ some .created

theorem createdOnce_nil : CreatedOnce [] := by
  intro seg hseg _
  rw [infix_nil.mp hseg]
  exact Nat.zero_le 1

theorem CreatedOnce.concat_deleted {history : List TopicEvent} (h : CreatedOnce history) :
    CreatedOnce (history ++ [.deleted]) := by
  intro seg hseg hkept
  rcases infix_concat_iff.mp hseg with hlast | hold
  · rcases suffix_concat_iff.mp hlast with rfl | ⟨front, rfl, -⟩
    · exact Nat.zero_le 1
    · exact absurd (mem_append_right front (mem_singleton_self _)) hkept
  · exact h seg hold hkept

theorem CreatedOnce.concat_created {history : List TopicEvent} (h : CreatedOnce history)
    (hdel : Deleted history) : CreatedOnce (history ++ [.created]) := by
  intro seg hseg hkept
  rcases infix_concat_iff.mp hseg with hlast | hold
  · rcases suffix_concat_iff.mp hlast with rfl | ⟨front, rfl, hfront⟩
    · exact Nat.zero_le 1
    · -- the success before this one is a deletion, so the segment has nothing before it
      have hnil : front = [] := by
        rcases eq_nil_or_concat front with hnil | ⟨rest, event, rfl⟩
        · exact hnil
        · obtain ⟨before, hhist⟩ := hfront
          rw [← hhist, concat_eq_append, ← append_assoc] at hdel
          cases event with
          | created => exact absurd (getLast?_concat) hdel
          | deleted => exact absurd (by simp) hkept
      rw [hnil]
      exact le_rfl
  · exact h seg hold hkept

inductive Coherent (name : String) (s : TopicCalls W) : Prop
  | absent (idle : ∀ caller, s.working caller = none) (gone : ¬s.cluster.hasTopic name)
      (deleted : Deleted s.history)
  | present (idle : ∀ caller, s.working caller = none)
      (registered : ∃ registration, s.cluster.topics.lookup name = some registration ∧
        s.cluster.Numbered name registration.numPartitions)
  | creating (caller : ℕ) (call : CreateCall) (next : ℤ)
      (working : s.working caller = some (call, next))
      (others : ∀ other, other ≠ caller → s.working other = none)
      (unregistered : s.cluster.topics.lookup name = none)
      (numbered : s.cluster.Numbered name next) (nonneg : 0 ≤ next)
      (deleted : Deleted s.history)

namespace Coherent

variable {s : TopicCalls W} {caller : ℕ} {call : CreateCall}

theorem whole (h : s.Coherent name) (hidle : s.Idle) : Whole s.cluster name := by
  cases h with
  | absent _ gone _ => exact Or.inr gone
  | present _ registered => exact Or.inl registered
  | creating caller call next working =>
    cases (idle_iff.mp hidle caller).symm.trans working

theorem of_working_eq {s' : TopicCalls W} (h : s.Coherent name) (hcl : s'.cluster = s.cluster)
    (hhist : s'.history = s.history) (hwork : ∀ caller, s'.working caller = s.working caller) :
    s'.Coherent name := by
  cases h with
  | absent idle gone deleted =>
    exact .absent (fun caller => (hwork caller).trans (idle caller)) (hcl ▸ gone) (hhist ▸ deleted)
  | present idle registered =>
    exact .present (fun caller => (hwork caller).trans (idle caller)) (hcl ▸ registered)
  | creating caller call next working others unregistered numbered nonneg deleted =>
    exact .creating caller call next ((hwork caller).trans working)
      (fun other hoth => (hwork other).trans (others other hoth))
      (hcl ▸ unregistered) (hcl ▸ numbered) nonneg (hhist ▸ deleted)

theorem refuse (h : s.Coherent name) (hcall : s.calls[caller]? = some (call, .called))
    (res : Except KafkaErrorCode Unit) :
    (s.setPhase caller call (.returned res)).Coherent name := by
  refine h.of_working_eq rfl rfl fun other => (working_of_set hcall rfl other).trans ?_
  split_ifs with heq
  · rw [heq, working_of_getElem? hcall]
    rfl
  · rfl

theorem creating_of_working (h : s.Coherent name) {next : ℤ}
    (hwork : s.working caller = some (call, next)) :
    (∀ other, other ≠ caller → s.working other = none) ∧
      s.cluster.topics.lookup name = none ∧ s.cluster.Numbered name next ∧ 0 ≤ next ∧
        Deleted s.history := by
  cases h with
  | absent idle => cases (idle caller).symm.trans hwork
  | present idle => cases (idle caller).symm.trans hwork
  | creating maker call' next' working others unregistered numbered nonneg deleted =>
    obtain rfl : caller = maker := by
      by_contra hne
      cases (others caller hne).symm.trans hwork
    cases working.symm.trans hwork
    exact ⟨others, unregistered, numbered, nonneg, deleted⟩

theorem of_admission (h : s.Coherent name) (hcall : s.calls[caller]? = some (call, .called))
    (hgone : ¬s.cluster.hasTopic name) (hidle : s.Idle) :
    (s.setPhase caller call (.provisioning 0)).Coherent name := by
  have hnone := idle_iff.mp hidle
  have hdel : Deleted s.history := by
    cases h with
    | absent _ _ deleted => exact deleted
    | present _ registered =>
      obtain ⟨reg, hl, -⟩ := registered
      exact absurd (hasTopic_iff.mpr (Or.inl (by rw [hl]; rfl))) hgone
    | creating maker call' next working =>
      cases (hnone maker).symm.trans working
  rw [hasTopic_iff, not_or] at hgone
  refine .creating caller call 0 ?_ ?_ ?_ ?_ le_rfl hdel
  · exact (working_of_set hcall rfl caller).trans (if_pos rfl)
  · intro other hoth
    exact ((working_of_set hcall rfl other).trans (if_neg hoth)).trans (hnone other)
  · exact not_isSome_iff_eq_none.mp hgone.1
  · intro i
    exact iff_of_false (fun hex => hgone.2 ⟨i, hex⟩) (by omega)

theorem look (h : s.Coherent name) {next : ℤ}
    (hcall : s.calls[caller]? = some (call, .provisioning next)) :
    (s.setPhase caller call (.missing next)).Coherent name := by
  refine h.of_working_eq rfl rfl fun other => (working_of_set hcall rfl other).trans ?_
  split_ifs with heq
  · rw [heq, working_of_getElem? hcall]
    rfl
  · rfl

theorem provision (h : s.Coherent name) {next : ℤ}
    (hcall : s.calls[caller]? = some (call, .missing next)) :
    ({ s with cluster := (s.cluster.getOrCreatePartition ⟨name, next⟩).1 }.setPhase caller call
      (.provisioning (next + 1))).Coherent name := by
  obtain ⟨others, unregistered, numbered, nonneg, deleted⟩ :=
    h.creating_of_working (working_of_getElem? hcall)
  refine .creating caller call (next + 1) ?_ ?_ ?_ ?_ (by omega) deleted
  · exact (working_of_set hcall rfl caller).trans (if_pos rfl)
  · intro other hoth
    exact ((working_of_set hcall rfl other).trans (if_neg hoth)).trans (others other hoth)
  · exact (congrArg (AList.lookup name) (topics_getOrCreatePartition s.cluster _)).trans
      unregistered
  · intro i
    refine (exists_getOrCreatePartition s.cluster ⟨name, next⟩ name i).trans ?_
    rw [numbered i]
    constructor
    · rintro (⟨hlo, hhi⟩ | ⟨-, rfl⟩)
      · exact ⟨hlo, by omega⟩
      · exact ⟨nonneg, by simp⟩
    · rintro ⟨hlo, hhi⟩
      by_cases heq : i = next
      · exact Or.inr ⟨rfl, heq⟩
      · exact Or.inl ⟨hlo, by omega⟩

theorem register (h : s.Coherent name)
    (hcall : s.calls[caller]? = some (call, .provisioning call.parts)) :
    Coherent name (TopicCalls.setPhase
      ⟨{ s.cluster with topics := s.cluster.topics.insert name (call.registration name) },
        s.calls, s.history ++ [.created]⟩ caller call (.returned (.ok ()))) := by
  obtain ⟨others, unregistered, numbered, nonneg, deleted⟩ :=
    h.creating_of_working (working_of_getElem? hcall)
  refine .present (fun other => ?_) ⟨call.registration name, ?_, numbered⟩
  · refine (working_of_set hcall rfl other).trans ?_
    split_ifs with heq
    · rfl
    · exact others other heq
  · exact (HashMap.lookup_insert_ite _ _ _ _).trans (if_pos rfl)

theorem delete (h : s.Coherent name) (halone : s.cluster.hasTopic name → s.Idle)
    {history : List TopicEvent}
    (hhist : s.cluster.hasTopic name ∧ history = s.history ++ [.deleted] ∨
      ¬s.cluster.hasTopic name ∧ history = s.history) :
    Coherent name (⟨(s.cluster.deleteTopic name).1, s.calls, history⟩ : TopicCalls W) := by
  have hgone : ¬(s.cluster.deleteTopic name).1.hasTopic name := by
    rw [hasTopic_iff, topics_deleteTopic, if_pos rfl]
    rintro (hsome | ⟨i, hex⟩)
    · cases hsome
    · exact ((exists_deleteTopic s.cluster name name i).mp hex).1 rfl
  rcases hhist with ⟨ht, rfl⟩ | ⟨hnone, rfl⟩
  · exact .absent (idle_iff.mp (halone ht)) hgone (by simp [Deleted])
  · cases h with
    | absent idle _ deleted => exact .absent idle hgone deleted
    | present _ registered =>
      obtain ⟨reg, hl, -⟩ := registered
      exact absurd (hasTopic_iff.mpr (Or.inl (by rw [hl]; rfl))) hnone
    | creating maker call next working others unregistered numbered nonneg deleted =>
      rw [hasTopic_iff, not_or] at hnone hgone
      refine .creating maker call next working others
        (not_isSome_iff_eq_none.mp hgone.1) ?_ nonneg deleted
      intro i
      refine iff_of_false (fun hex => hgone.2 ⟨i, hex⟩) fun hi => ?_
      exact hnone.2 ⟨i, (numbered i).mpr hi⟩

end Coherent

theorem deleteTopic_result (cl : ClusterState W) (name : String) : (cl.deleteTopic name).2 =
      if cl.hasTopic name then .ok () else .error .unknownTopicOrPartition := by
  rw [hasTopic, deleteTopic]
  cases (cl.topics.lookup name).isSome with
  | true => rfl
  | false =>
    cases cl.partitions.keys.any fun tp => tp.topic = name with
    | true => rfl
    | false => rfl

theorem exec_deleteTopic (s : TopicCalls W) :
    exec name s .deleteTopic = some ⟨(s.cluster.deleteTopic name).1, s.calls,
      if s.cluster.hasTopic name then s.history ++ [.deleted] else s.history⟩ := by
  have hres := deleteTopic_result s.cluster name
  rw [exec]
  generalize s.cluster.deleteTopic name = out at hres ⊢
  obtain ⟨cl, res⟩ := out
  dsimp only at hres
  subst hres
  by_cases ht : s.cluster.hasTopic name
  · rw [if_pos ht, if_pos ht]
  · rw [if_neg ht, if_neg ht]

def Reaches (call : CreateCall) : CreatePhase → Prop
  | .provisioning next => next ≤ call.parts
  | .missing next => next < call.parts
  | _ => True

structure Inv (name : String) (s : TopicCalls W) : Prop where
  coherent : s.Coherent name
  once : CreatedOnce s.history
  reaches : ∀ c ∈ s.calls, Reaches c.1 c.2

theorem Coherent.lookup_next (h : s.Coherent name) {next : ℤ}
    (hwork : s.working caller = some (call, next)) :
    s.cluster.partitions.lookup ⟨name, next⟩ = none := by
  obtain ⟨-, -, numbered, -⟩ := h.creating_of_working hwork
  have hnot : ¬s.cluster.Exists name next := fun hexists => by
    have := (numbered next).mp hexists
    omega
  rw [exists_iff_mem_keys] at hnot
  exact AList.lookup_eq_none.mpr fun hmem => hnot (AList.mem_keys.mp hmem)

theorem Inv.setPhase {t : TopicCalls W} (hs : s.Inv name) {phase' : CreatePhase}
    (hcall : s.calls[caller]? = some (call, phase))
    (hcalls : t.calls = s.calls.set caller (call, phase')) (hcoh : t.Coherent name)
    (honce : CreatedOnce t.history) (hreach : Reaches call phase') : t.Inv name := by
  refine ⟨hcoh, honce, ?_⟩
  rw [hcalls]
  exact ((forall_mem_set_iff hcall).mpr ⟨hs.reaches, hreach⟩).1

theorem inv_stepFrom (hs : s.Inv name) (hcall : s.calls[caller]? = some (call, phase))
    (halone : s.Alone name (.step caller)) (hstep : s.stepFrom name caller call phase = some s') :
    s'.Inv name := by
  have hreach : Reaches call phase := hs.reaches _ (mem_of_getElem? hcall)
  cases phase with
  | called =>
    cases href : call.refusal name with
    | some e =>
      simp only [stepFrom, href] at hstep
      cases hstep
      exact hs.setPhase hcall rfl (hs.coherent.refuse hcall _) hs.once trivial
    | none =>
      simp only [stepFrom, href] at hstep
      split_ifs at hstep with ht
      · cases hstep
        exact hs.setPhase hcall rfl (hs.coherent.refuse hcall _) hs.once trivial
      · have hchk : s.atCheck name caller = true := by
          rw [atCheck, hcall, any_some, href]
          rfl
        cases hstep
        exact hs.setPhase hcall rfl
          (hs.coherent.of_admission hcall ht (halone hchk ht)) hs.once
          (CreateCall.parts_pos_of_admitted href).le
  | provisioning next =>
    have hwork := working_of_getElem? hcall
    rw [stepFrom] at hstep
    split_ifs at hstep with hlt
    · rw [hs.coherent.lookup_next hwork] at hstep
      cases hstep
      exact hs.setPhase hcall rfl (hs.coherent.look hcall) hs.once hlt
    · obtain rfl : next = call.parts := le_antisymm hreach (Int.not_lt.mp hlt)
      obtain ⟨-, -, -, -, deleted⟩ := hs.coherent.creating_of_working hwork
      cases hstep
      exact hs.setPhase hcall rfl (hs.coherent.register hcall)
        (hs.once.concat_created deleted) trivial
  | missing next =>
    cases hstep
    exact hs.setPhase hcall rfl (hs.coherent.provision hcall) hs.once hreach
  | returned res => simp [stepFrom] at hstep

theorem inv_exec {a : TopicCallAction} (hs : s.Inv name) (halone : s.Alone name a)
    (hexec : exec name s a = some s') : s'.Inv name := by
  cases a with
  | createTopic call =>
    cases hexec
    refine ⟨hs.coherent.of_working_eq rfl rfl (working_concat_called s call), hs.once, ?_⟩
    exact forall_mem_append.mpr ⟨hs.reaches, forall_mem_singleton.mpr trivial⟩
  | step caller =>
    rw [exec] at hexec
    cases hcall : s.calls[caller]? with
    | none => simp [hcall] at hexec
    | some c =>
      rw [hcall] at hexec
      exact inv_stepFrom hs hcall halone hexec
  | deleteTopic =>
    rw [exec_deleteTopic] at hexec
    cases hexec
    by_cases ht : s.cluster.hasTopic name
    · rw [if_pos ht]
      exact ⟨hs.coherent.delete halone (Or.inl ⟨ht, rfl⟩), hs.once.concat_deleted, hs.reaches⟩
    · rw [if_neg ht]
      exact ⟨hs.coherent.delete halone (Or.inr ⟨ht, rfl⟩), hs.once, hs.reaches⟩

theorem inv_start {cl : ClusterState W} (h : ¬cl.hasTopic name) : (start cl).Inv name :=
  ⟨.absent (fun _ => rfl) h (by simp [start, Deleted]), createdOnce_nil, forall_mem_nil _⟩

theorem topic_whole_between_calls {cluster : ClusterState W} (habsent : ¬cluster.hasTopic name)
    {actions : List TopicCallAction} {t : TopicCalls W}
    (halone : Along (exec name) (Alone name) (start cluster) actions)
    (hrun : run (exec name) (start cluster) actions = some t) :
    CreatedOnce t.history ∧ (t.Finished → Whole t.cluster name) := by
  have ht : t.Inv name :=
    run_invariant (fun s a s' hs hcond hexec => inv_exec hs hcond hexec) (inv_start habsent)
      halone hrun
  exact ⟨ht.once, fun hfinished => ht.coherent.whole hfinished.idle⟩

instance (s : TopicCalls W) : Decidable s.Finished :=
  inferInstanceAs (Decidable (∀ c ∈ s.calls, c.2.finished = true))

theorem not_whole {cl : ClusterState W} {count : ℤ}
    (hcnt : (cl.topics.lookup name).map TopicRegistration.numPartitions = some count)
    (i : ℤ) (hindex : ¬(cl.Exists name i ↔ 0 ≤ i ∧ i < count)) : ¬Whole cl name := by
  obtain ⟨reg, hl, rfl⟩ := map_eq_some_iff.mp hcnt
  rintro (⟨reg', hl', hnumbered⟩ | hgone)
  · cases hl.symm.trans hl'
    exact hindex (hnumbered i)
  · exact hgone (hasTopic_iff.mpr (Or.inl (by rw [hl]; rfl)))

theorem creations_interleaved :
    (∃ t : TopicCalls Unit, run (exec "orders") (start (ClusterState.new emptyTiers))
        [.createTopic ⟨2, 1, ∅⟩, .createTopic ⟨1, 1, ∅⟩, .step 0, .step 1, .step 0, .step 0,
          .step 0, .step 0, .step 0, .step 1, .step 1] = some t ∧
      t.Finished ∧ ¬CreatedOnce t.history ∧ ¬Whole t.cluster "orders") ∧
    ∃ t : TopicCalls Unit, run (exec "orders") (start (ClusterState.new emptyTiers))
        [.createTopic ⟨2, 1, ∅⟩, .step 0, .step 0, .step 0, .deleteTopic, .step 0, .step 0,
          .step 0] = some t ∧
      t.Finished ∧ ¬Whole t.cluster "orders" := by
  constructor
  · have htwo : ((run (exec "orders") (start (ClusterState.new emptyTiers))
        [.createTopic ⟨2, 1, ∅⟩, .createTopic ⟨1, 1, ∅⟩, .step 0, .step 1, .step 0, .step 0,
          .step 0, .step 0, .step 0, .step 1, .step 1]).map fun t =>
        (decide t.Finished, t.history,
          (t.cluster.topics.lookup "orders").map TopicRegistration.numPartitions,
          decide (t.cluster.Exists "orders" 1))) =
        some (true, [.created, .created], some 1, true) := by
      decide +kernel
    obtain ⟨t, hrun, ht⟩ := Option.map_eq_some_iff.mp htwo
    obtain ⟨hfinished, hhist, hcnt, hex⟩ := by simpa only [Prod.mk.injEq] using ht
    refine ⟨t, hrun, of_decide_eq_true hfinished, ?_, not_whole hcnt 1 ?_⟩
    · rw [hhist]
      exact fun h => absurd (h _ List.infix_rfl (by decide)) (by decide)
    · exact fun h => absurd (h.mp (of_decide_eq_true hex)) (by decide)
  · have hhalf : ((run (exec "orders") (start (ClusterState.new emptyTiers))
        [.createTopic ⟨2, 1, ∅⟩, .step 0, .step 0, .step 0, .deleteTopic, .step 0, .step 0,
          .step 0]).map fun t =>
        (decide t.Finished, (t.cluster.topics.lookup "orders").map TopicRegistration.numPartitions,
          decide (t.cluster.Exists "orders" 0))) = some (true, some 2, false) := by
      decide +kernel
    obtain ⟨t, hrun, ht⟩ := Option.map_eq_some_iff.mp hhalf
    obtain ⟨hfinished, hcnt, hex⟩ := by simpa only [Prod.mk.injEq] using ht
    refine ⟨t, hrun, of_decide_eq_true hfinished, not_whole hcnt 0 ?_⟩
    exact fun h => of_decide_eq_false hex (h.mpr (by decide))

theorem topic_whole_between_calls_recreated :
    ∃ t : TopicCalls Unit, run (exec "orders") (start (ClusterState.new emptyTiers))
        [.createTopic ⟨2, 1, ∅⟩, .createTopic ⟨1, 1, ∅⟩, .step 0, .step 0, .step 0, .step 1,
          .step 0, .step 0, .step 0, .deleteTopic, .createTopic ⟨1, 1, ∅⟩, .step 2, .step 2,
          .step 2, .step 2] = some t ∧
      t.history = [.created, .deleted, .created] ∧ CreatedOnce t.history ∧
        (t.Finished → Whole t.cluster "orders") := by
  have hagain : ((run (exec "orders") (start (ClusterState.new emptyTiers))
        [.createTopic ⟨2, 1, ∅⟩, .createTopic ⟨1, 1, ∅⟩, .step 0, .step 0, .step 0, .step 1,
          .step 0, .step 0, .step 0, .deleteTopic, .createTopic ⟨1, 1, ∅⟩, .step 2, .step 2,
          .step 2, .step 2]).map TopicCalls.history) =
      some [.created, .deleted, .created] := by
    decide +kernel
  obtain ⟨t, hrun, hhist⟩ := Option.map_eq_some_iff.mp hagain
  exact ⟨t, hrun, hhist, topic_whole_between_calls (by decide +kernel) (by decide +kernel) hrun⟩

end TopicCalls

end OxideMq.Broker
