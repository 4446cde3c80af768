import OxideMq.Broker.Fencing

/-! How often a transactional id can be initialised. -/

namespace OxideMq.Broker

open Lib OxideMq.Core OxideMq.Protocol List

namespace TransactionCoordinator

/-- The coordinator after calls of `init_producer_id` for one id, and what they returned. -/
def restarted (coordinator : TransactionCoordinator) (transactionalId : String)
    (timeouts : List ℤ) : TransactionCoordinator × List (ℤ × ℤ) :=
  timeouts.foldl (fun (coordinator, pairs) timeout =>
    let (coordinator', pair) := coordinator.initProducerId (some transactionalId) timeout
    (coordinator', pairs ++ [pair])) (coordinator, [])

structure EpochsSurvive (coordinator : TransactionCoordinator) (transactionalId : String)
    (timeouts : List ℤ) : Prop where
  fits : ∀ front timeout, front ++ [timeout] <+: timeouts →
    ∀ m ∈ (coordinator.restarted transactionalId front).1.transactions.lookup transactionalId,
      FitsSigned 16 (m.producerEpoch + 1)
  distinct : (coordinator.restarted transactionalId timeouts).2.Nodup
  refused : ∀ front timeout, front ++ [timeout] <+: timeouts →
    ∀ pair ∈ (coordinator.restarted transactionalId front).2,
      ∃ e, (coordinator.restarted transactionalId (front ++ [timeout])).1.checkProducer
        transactionalId pair.1 pair.2 = .error e

variable {coordinator : TransactionCoordinator} {transactionalId : String}

theorem restarted_concat (front : List ℤ) (timeout : ℤ) :
    coordinator.restarted transactionalId (front ++ [timeout]) =
      (((coordinator.restarted transactionalId front).1.initProducerId (some transactionalId)
          timeout).1,
        (coordinator.restarted transactionalId front).2 ++
          [((coordinator.restarted transactionalId front).1.initProducerId (some transactionalId)
            timeout).2]) := by
  rw [restarted, foldl_append]
  rfl

theorem restarted_spec (h : coordinator.stored transactionalId = none) (timeouts : List ℤ) :
    (coordinator.restarted transactionalId timeouts).2 =
        (range timeouts.length).map (fun k : ℕ => (coordinator.nextProducerId, wrapSigned 16 k)) ∧
      (coordinator.restarted transactionalId timeouts).1.stored transactionalId =
        (coordinator.restarted transactionalId timeouts).2.getLast? ∧
      (timeouts = [] → (coordinator.restarted transactionalId timeouts).1 = coordinator) := by
  induction timeouts using reverseRecOn with
  | nil => exact ⟨rfl, h, fun _ => rfl⟩
  | append_singleton front timeout ih =>
    obtain ⟨hpairs, hlast, hstart⟩ := ih
    have hpair : ((coordinator.restarted transactionalId front).1.initProducerId
          (some transactionalId) timeout).2 =
          (coordinator.nextProducerId, wrapSigned 16 (front.length : ℕ)) ∧
        ((coordinator.restarted transactionalId front).1.initProducerId
          (some transactionalId) timeout).1.stored transactionalId =
          some (coordinator.nextProducerId, wrapSigned 16 (front.length : ℕ)) := by
      rw [hpairs] at hlast
      cases hn : front.length with
      | zero =>
        obtain rfl := length_eq_zero_iff.mp hn
        rw [hstart rfl]
        obtain ⟨coord', hinit, -, hstored⟩ := initProducerId_new h timeout
        rw [hinit, hstored, if_pos rfl]
        exact ⟨rfl, rfl⟩
      | succ n =>
        rw [hn, range_succ, map_append, map_singleton, getLast?_concat] at hlast
        obtain ⟨coord', hinit, -, hstored⟩ := initProducerId_known hlast timeout
        rw [hinit, hstored, if_pos rfl, Granting.wrapSigned_succ]
        exact ⟨rfl, rfl⟩
    rw [restarted_concat]
    dsimp only
    refine ⟨?_, ?_, fun hnil => absurd hnil (by simp)⟩
    · rw [hpair.1, hpairs, length_append, length_singleton, range_succ, map_append, map_singleton]
    · rw [hpair.2, getLast?_concat, hpair.1]

theorem stored_restarted (h : coordinator.stored transactionalId = none) {timeouts : List ℤ}
    {n : ℕ} (hn : timeouts.length = n + 1) :
    (coordinator.restarted transactionalId timeouts).1.stored transactionalId =
      some (coordinator.nextProducerId, wrapSigned 16 n) := by
  obtain ⟨hpairs, hlast, -⟩ := restarted_spec h timeouts
  rw [hlast, hpairs, hn, range_succ, map_append, map_singleton, getLast?_concat]

theorem epochsSurvive_of_le (h : coordinator.stored transactionalId = none) {timeouts : List ℤ}
    (hle : timeouts.length ≤ 32768) : coordinator.EpochsSurvive transactionalId timeouts := by
  have hfront : ∀ front timeout, front ++ [timeout] <+: timeouts → front.length ≤ 32767 := by
    intro front timeout hfront
    have hlen := hfront.length_le
    rw [length_append, length_singleton] at hlen
    omega
  constructor
  · intro front timeout hpre m hm
    have hstored : (coordinator.restarted transactionalId front).1.stored transactionalId =
        some (m.producerId, m.producerEpoch) := by
      rw [stored, Option.mem_def.mp hm]
      rfl
    cases hn : front.length with
    | zero =>
      obtain rfl := length_eq_zero_iff.mp hn
      rw [(restarted_spec h []).2.1] at hstored
      cases hstored
    | succ n =>
      have hsmall := hfront front timeout hpre
      rw [stored_restarted h hn, Granting.wrapSigned_small (by omega)] at hstored
      obtain ⟨-, hep⟩ := Prod.mk.inj (Option.some.inj hstored)
      rw [← hep]
      exact ⟨by omega, by omega⟩
  · rw [(restarted_spec h timeouts).1]
    refine nodup_range.map_on fun i hi j hj heq => ?_
    rw [mem_range] at hi hj
    rw [Prod.mk.injEq, Granting.wrapSigned_small (by omega),
      Granting.wrapSigned_small (by omega)] at heq
    exact Int.ofNat.inj heq.2
  · intro front timeout hpre pair hpair
    have hsmall := hfront front timeout hpre
    rw [(restarted_spec h front).1] at hpair
    obtain ⟨k, hk, rfl⟩ := mem_map.mp hpair
    rw [mem_range] at hk
    have hlen : (front ++ [timeout]).length = front.length + 1 := length_append
    have hne : (coordinator.restarted transactionalId (front ++ [timeout])).1.stored
        transactionalId ≠ some (coordinator.nextProducerId, wrapSigned 16 k) := by
      rw [stored_restarted h hlen, Granting.wrapSigned_small (by omega),
        Granting.wrapSigned_small (by omega)]
      intro heq
      have hep := (Prod.mk.inj (Option.some.inj heq)).2
      omega
    dsimp only
    obtain ⟨e, he, -⟩ := checkProducer_of_stored_ne hne
    exact ⟨e, he⟩

theorem length_of_fits (h : coordinator.stored transactionalId = none) {timeouts : List ℤ}
    (hfits : ∀ front timeout, front ++ [timeout] <+: timeouts →
      ∀ m ∈ (coordinator.restarted transactionalId front).1.transactions.lookup transactionalId,
        FitsSigned 16 (m.producerEpoch + 1)) : timeouts.length ≤ 32768 := by
  by_contra hlong
  have hlen : (timeouts.take 32768).length = 32767 + 1 := by
    rw [length_take]
    omega
  have hpre : timeouts.take 32768 ++ [timeouts[32768]] <+: timeouts := by
    rw [take_concat_get' timeouts 32768 (by omega)]
    exact take_prefix _ _
  obtain ⟨m, hm, heq⟩ := Option.map_eq_some_iff.mp (stored_restarted h hlen)
  have hfit := (hfits _ _ hpre m hm).2
  rw [Granting.wrapSigned_small le_rfl] at heq
  obtain ⟨-, hep⟩ := Prod.mk.inj heq
  rw [hep] at hfit
  norm_num at hfit

theorem epochs_survive_iff (coordinator : TransactionCoordinator) (transactionalId : String)
    (timeouts : List ℤ) (hnew : coordinator.stored transactionalId = none) :
    coordinator.EpochsSurvive transactionalId timeouts ↔ timeouts.length ≤ 32768 :=
  ⟨fun h => length_of_fits hnew h.fits, epochsSurvive_of_le hnew⟩

theorem epochs_survive_three : new.EpochsSurvive "tx" [0, 0, 0] :=
  (epochs_survive_iff new "tx" [0, 0, 0] rfl).mpr (by decide)

theorem epochs_come_back : ¬new.EpochsSurvive "tx" (replicate 32769 0) ∧
    ¬(new.restarted "tx" (replicate 65537 0)).2.Nodup := by
  constructor
  · intro h
    have hlen := length_of_fits rfl h.fits
    rw [length_replicate] at hlen
    omega
  · rw [(restarted_spec rfl _).1, length_replicate]
    intro hnd
    have heq := inj_on_of_nodup_map hnd (mem_range.mpr (by norm_num : 0 < 65537))
      (mem_range.mpr (by norm_num : 65536 < 65537)) (by decide)
    omega

end TransactionCoordinator

end OxideMq.Broker
