import OxideMq.Lib.Intervals
import OxideMq.Broker.CachedReads

/-! Concurrent appends to one partition. -/

namespace OxideMq.Broker

open Lib OxideMq.Core OxideMq.Protocol OxideMq.Wal OxideMq.Stream List

structure PatchedCall where
  base : ℤ
  bytes : Bytes
  count : ℤ
  deriving DecidableEq, Repr

inductive Phase where
  | idle
  | waiting (records : Bytes)
  | locked (records : Bytes)
  | offsetRead (records : Bytes) (base : ℤ)
  | patched (call : PatchedCall)
  | noted (call : PatchedCall)
  | advanced (call : PatchedCall) (offset : ℤ)
  | logged (call : PatchedCall) (offset : ℤ)
  | finished (call : PatchedCall) (result : Except OxideMqError ℤ)
  | returned (call : PatchedCall) (result : Except OxideMqError ℤ)

structure Appends (W : Type) where
  partition : Partition
  tiers : Tiers W
  lock : Option ℕ
  phase : ℕ → Phase
  assigned : List (ℕ × Interval)
  logged : List (ℕ × ℤ × Bytes)
  puts : List (ℕ × ℤ × Bytes)

inductive AppendAction where
  | call (caller : ℕ) (records : Bytes)
  | step (caller : ℕ)

namespace Appends

variable {W : Type}

def fresh (topicPartition : TopicPartition) (streamId : ℕ) (startOffset : ℤ) (tiers : Tiers W) :
    Appends W :=
  ⟨Partition.new topicPartition (S3Stream.new streamId startOffset), tiers, none,
    fun _ => .idle, [], [], []⟩

def setPhase (s : Appends W) (caller : ℕ) (p : Phase) : Appends W :=
  { s with phase := Function.update s.phase caller p }

def fetchAdd (s : Appends W) (caller : ℕ) (count : ℤ) : Appends W :=
  { s with
    partition := { s.partition with
      stream := { s.partition.stream with
        nextOffset := wrapSigned 64 (s.partition.stream.nextOffset + count) } }
    assigned := s.assigned ++ [(caller, ⟨s.partition.stream.nextOffset, count⟩)] }

def logAppend [WalEngine W] (s : Appends W) (caller : ℕ) (offset : ℤ) (bytes : Bytes) :
    Appends W × Except OxideMqError ℕ :=
  let (wal, result) := WalEngine.append s.tiers.wal s.partition.stream.streamId offset bytes
  ({ s with
      tiers := { s.tiers with wal := wal }
      logged := s.logged ++ if result.isOk then [(caller, offset, bytes)] else [] }, result)

def cachePut (s : Appends W) (caller : ℕ) (offset : ℤ) (bytes : Bytes) : Appends W :=
  { s with
    tiers := { s.tiers with
      logCache := s.tiers.logCache.put s.partition.stream.streamId offset bytes }
    puts := s.puts ++ [(caller, offset, bytes)] }

def stepFrom [WalEngine W] (s : Appends W) (caller : ℕ) : Phase → Option (Appends W)
  | .idle => none
  | .waiting records =>
      if s.lock = none then some ({ s with lock := some caller }.setPhase caller (.locked records))
      else none
  | .locked records =>
      some (s.setPhase caller (.offsetRead records s.partition.stream.nextOffset))
  | .offsetRead records base =>
      (patchRecordBatches records base).map fun (bytes, count) =>
        s.setPhase caller (.patched ⟨base, bytes, count⟩)
  | .patched call =>
      some ({ s with partition := s.partition.noteTransaction call.bytes call.base }.setPhase
        caller (.noted call))
  | .noted call =>
      some ((s.fetchAdd caller (max call.count 1)).setPhase caller
        (.advanced call s.partition.stream.nextOffset))
  | .advanced call offset =>
      match s.logAppend caller offset call.bytes with
      | (s', .ok _) => some (s'.setPhase caller (.logged call offset))
      | (s', .error e) => some (s'.setPhase caller (.finished call (.error e)))
  | .logged call offset =>
      some ((s.cachePut caller offset call.bytes).setPhase caller (.finished call (.ok call.base)))
  | .finished call result =>
      some ({ s with lock := none }.setPhase caller (.returned call result))
  | .returned _ _ => none

def step [WalEngine W] (s : Appends W) (caller : ℕ) : Option (Appends W) :=
  s.stepFrom caller (s.phase caller)

def exec [WalEngine W] (s : Appends W) : AppendAction → Option (Appends W)
  | .call caller records =>
      match s.phase caller with
      | .idle => some (s.setPhase caller (.waiting records))
      | _ => none
  | .step caller => s.step caller

def ofCaller {α : Type} (caller : ℕ) (entries : List (ℕ × α)) : List α :=
  (entries.filter fun e => e.1 = caller).map Prod.snd

theorem ofCaller_concat_self {α : Type} (c : ℕ) (es : List (ℕ × α)) (x : α) :
    ofCaller c (es ++ [(c, x)]) = ofCaller c es ++ [x] := by
  simp [ofCaller]

theorem ofCaller_concat_ne {α : Type} {caller other : ℕ} (h : other ≠ caller)
    (entries : List (ℕ × α)) (x : α) :
    ofCaller other (entries ++ [(caller, x)]) = ofCaller other entries := by
  simp [ofCaller, h.symm]

def historyOf (s : Appends W) (caller : ℕ) :
    List Interval × List (ℤ × Bytes) × List (ℤ × Bytes) :=
  (ofCaller caller s.assigned, ofCaller caller s.logged, ofCaller caller s.puts)

end Appends

def PatchedCall.interval (call : PatchedCall) : Interval := ⟨call.base, call.count⟩

def PatchedCall.entry (call : PatchedCall) : ℤ × Bytes := (call.base, call.bytes)

namespace Phase

def critical : Phase → Bool
  | .idle | .waiting _ | .returned _ _ => false
  | _ => true

def history : Phase → List Interval × List (ℤ × Bytes) × List (ℤ × Bytes)
  | .advanced call _ => ([call.interval], [], [])
  | .logged call _ => ([call.interval], [call.entry], [])
  | .finished call _ | .returned call _ => ([call.interval], [call.entry], [call.entry])
  | _ => ([], [], [])

end Phase

def WellFormedPayload (records : Bytes) : Prop :=
  records.length < 21 ∨
    ∃ batches : List Bytes, (∀ b ∈ batches, WellFormed b) ∧ records = batches.flatten

structure PatchedCall.Sound (call : PatchedCall) : Prop where
  count : 1 ≤ call.count
  firstBatch : 21 ≤ call.bytes.length → baseOffsetOf call.bytes = call.base

def Phase.Sound (next : ℤ) : Phase → Prop
  | .idle => True
  | .waiting records | .locked records => WellFormedPayload records
  | .offsetRead records base => WellFormedPayload records ∧ base = next
  | .patched call | .noted call => call.Sound ∧ call.base = next
  | .advanced call offset | .logged call offset => call.Sound ∧ offset = call.base
  | .finished call result | .returned call result => call.Sound ∧ result = .ok call.base

theorem Phase.Sound.of_not_critical {p : Phase} {next next' : ℤ} (hp : p.critical = false)
    (h : p.Sound next) : p.Sound next' := by
  cases p with
  | idle => trivial
  | waiting recs => exact h
  | returned call res => exact h
  | _ => simp [Phase.critical] at hp

theorem patchRecordBatches_wellFormedPayload {recs : Bytes} (h : WellFormedPayload recs)
    {base : ℤ} (hbase : FitsSigned 64 base) :
    ∃ bytes count, patchRecordBatches recs base = some (bytes, count) ∧
      PatchedCall.Sound ⟨base, bytes, count⟩ := by
  have hshort : ∀ short : Bytes, short.length < 21 → ∃ bytes count,
      patchRecordBatches short base = some (bytes, count) ∧
        PatchedCall.Sound ⟨base, bytes, count⟩ := by
    intro short hlen
    refine ⟨short, 1, by rw [patchRecordBatches, if_pos hlen], le_rfl, fun hlong => ?_⟩
    exact absurd hlen (by simpa using hlong)
  rcases h with hlen | ⟨bs, hbs, rfl⟩
  · exact hshort recs hlen
  · cases bs with
    | nil => exact hshort _ (by simp)
    | cons batch bs =>
      have hhead := (hbs batch mem_cons_self).header
      have hlong : ¬(batch :: bs).flatten.length < 21 := by
        rw [flatten_cons, length_append]
        omega
      have hpat : patchRecordBatches (batch :: bs).flatten base =
          some ((patchBatches (batch :: bs) base).1,
            max (wrapSigned 64 ((patchBatches (batch :: bs) base).2 - base)) 1) := by
        rw [patchRecordBatches, if_neg hlong,
          patchLoop_batches (fun b hb => (hbs b hb).framed) le_rfl]
        rfl
      exact ⟨_, _, hpat, le_max_right _ _, fun _ =>
        baseOffsetOf_patchHeader (by omega) _ hbase _⟩

namespace Appends

variable {W : Type}
variable {s s' : Appends W} {caller : ℕ} {startOffset : ℤ} {P : Appends W → Prop}

structure Inv (startOffset : ℤ) (s : Appends W) : Prop where
  holder : ∀ caller, (s.phase caller).critical = true ↔ s.lock = some caller
  sound : ∀ caller, (s.phase caller).Sound s.partition.stream.nextOffset
  history : ∀ caller, s.historyOf caller = (s.phase caller).history
  consecutive : Consecutive 64 startOffset (s.assigned.map Prod.snd) s.partition.stream.nextOffset
  counts : ∀ a ∈ s.assigned, 1 ≤ a.2.count
  fits : FitsSigned 64 s.partition.stream.nextOffset
  start : s.partition.stream.startOffset = startOffset

theorem inv_fresh {tp : TopicPartition} {sid : ℕ} {tiers : Tiers W}
    (hstart : FitsSigned 64 startOffset) :
    Inv startOffset (fresh tp sid startOffset tiers) :=
  ⟨by simp [fresh, Phase.critical], fun _ => trivial, fun _ => rfl, rfl, by simp [fresh],
    hstart, rfl⟩

theorem Inv.of_step (hs : Inv startOffset s) {p : Phase}
    (hp : s'.phase = Function.update s.phase caller p)
    (hown : p.critical = true ↔ s'.lock = some caller)
    (hlock : ∀ other, other ≠ caller → (s'.lock = some other ↔ s.lock = some other))
    (hsound : p.Sound s'.partition.stream.nextOffset)
    (hnext : s'.partition.stream.nextOffset = s.partition.stream.nextOffset ∨
      s.lock = some caller) (hhist : s'.historyOf caller = p.history)
    (hoths : ∀ other, other ≠ caller → s'.historyOf other = s.historyOf other)
    (hcons : Consecutive 64 startOffset (s'.assigned.map Prod.snd)
      s'.partition.stream.nextOffset) (hcnts : ∀ a ∈ s'.assigned, 1 ≤ a.2.count)
    (hfits : FitsSigned 64 s'.partition.stream.nextOffset)
    (hstart : s'.partition.stream.startOffset = s.partition.stream.startOffset) :
    Inv startOffset s' := by
  refine ⟨?_, ?_, ?_, hcons, hcnts, hfits, hstart.trans hs.start⟩
  · intro other
    rw [hp]
    by_cases h : other = caller
    · subst h
      rw [Function.update_self]
      exact hown
    · rw [Function.update_of_ne h, hlock other h]
      exact hs.holder other
  · intro other
    rw [hp]
    by_cases h : other = caller
    · subst h
      rw [Function.update_self]
      exact hsound
    · rw [Function.update_of_ne h]
      rcases hnext with hsame | hheld
      · rw [hsame]
        exact hs.sound other
      · have hfree : (s.phase other).critical = false := by
          rw [← Bool.not_eq_true, hs.holder, hheld]
          exact fun heq => h (Option.some.inj heq).symm
        exact (hs.sound other).of_not_critical hfree
  · intro other
    rw [hp]
    by_cases h : other = caller
    · subst h
      rw [Function.update_self]
      exact hhist
    · rw [Function.update_of_ne h, hoths other h]
      exact hs.history other

theorem Inv.of_quiet (hs : Inv startOffset s) {p : Phase}
    (hp : s'.phase = Function.update s.phase caller p)
    (hown : p.critical = true ↔ s'.lock = some caller)
    (hlock : ∀ other, other ≠ caller → (s'.lock = some other ↔ s.lock = some other))
    (hsound : p.Sound s.partition.stream.nextOffset)
    (hstr : s'.partition.stream = s.partition.stream)
    (hkept : (s'.assigned, s'.logged, s'.puts) = (s.assigned, s.logged, s.puts))
    (hhist : p.history = (s.phase caller).history) : Inv startOffset s' := by
  obtain ⟨hasg, hlogged, hputs⟩ : s'.assigned = s.assigned ∧ s'.logged = s.logged ∧
      s'.puts = s.puts := by simpa only [Prod.mk.injEq] using hkept
  have hsame : ∀ other, s'.historyOf other = s.historyOf other := by
    intro other
    rw [historyOf, hasg, hlogged, hputs, historyOf]
  refine hs.of_step hp hown hlock (by rw [hstr]; exact hsound) (Or.inl (by rw [hstr]))
    ?_ (fun other _ => hsame other) ?_ ?_ (by rw [hstr]; exact hs.fits) (by rw [hstr])
  · rw [hsame, hs.history, hhist]
  · rw [hasg, hstr]
    exact hs.consecutive
  · rw [hasg]
    exact hs.counts

theorem logAppend_of_neverFails [WalEngine W] (hwal : WalEngine.NeverFails W) (s : Appends W)
    (c : ℕ) (off : ℤ) (bytes : Bytes) :
    ∃ wal seq, s.logAppend c off bytes = ({ s with
          tiers := { s.tiers with wal := wal }
          logged := s.logged ++ [(c, off, bytes)] }, .ok seq) := by
  obtain ⟨seq, hok⟩ := hwal s.tiers.wal s.partition.stream.streamId off bytes
  unfold logAppend
  generalize WalEngine.append s.tiers.wal s.partition.stream.streamId off bytes = out at hok
  obtain ⟨wal, res⟩ := out
  obtain rfl : res = .ok seq := hok
  exact ⟨wal, seq, rfl⟩

theorem inv_step [WalEngine W] (hwal : WalEngine.NeverFails W) (hs : Inv startOffset s)
    (hstep : s.step caller = some s') :
    Inv startOffset s' := by
  have hsound := hs.sound caller
  have hhold := hs.holder caller
  have hhist := hs.history caller
  unfold step stepFrom at hstep
  cases hp : s.phase caller with
  | idle => simp [hp] at hstep
  | waiting records =>
    simp only [hp] at hstep hsound
    split at hstep
    · rename_i hfree
      cases hstep
      refine hs.of_quiet rfl (by simp [Phase.critical, setPhase]) ?_ hsound rfl rfl
        (by rw [hp]; rfl)
      intro other hoth
      simp [setPhase, hfree, Ne.symm hoth]
    · simp at hstep
  | locked records =>
    simp only [hp] at hstep hsound hhold
    cases hstep
    exact hs.of_quiet rfl hhold (fun _ _ => Iff.rfl) ⟨hsound, rfl⟩ rfl rfl (by rw [hp]; rfl)
  | offsetRead records base =>
    simp only [hp] at hstep hsound hhold
    obtain ⟨hpay, rfl⟩ := hsound
    obtain ⟨bytes, count, hpat, hcall⟩ :=
      patchRecordBatches_wellFormedPayload hpay hs.fits
    rw [hpat, Option.map_some] at hstep
    cases hstep
    exact hs.of_quiet rfl hhold (fun _ _ => Iff.rfl) ⟨hcall, rfl⟩ rfl rfl (by rw [hp]; rfl)
  | patched call =>
    simp only [hp] at hstep hsound hhold
    cases hstep
    exact hs.of_quiet rfl hhold (fun _ _ => Iff.rfl) hsound
      (Partition.noteTransaction_stream _ _ _) rfl (by rw [hp]; rfl)
  | noted call =>
    simp only [hp] at hstep hsound hhold hhist
    obtain ⟨hcall, hbase⟩ := hsound
    have hcnt : max call.count 1 = call.count := max_eq_left hcall.count
    rw [hcnt] at hstep
    cases hstep
    simp only [historyOf, Phase.history, Prod.mk.injEq] at hhist
    refine hs.of_step rfl hhold (fun _ _ => Iff.rfl) ⟨hcall, hbase.symm⟩
      (Or.inr (hhold.mp rfl)) ?_ ?_ ?_ ?_ (wrapSigned_fits (by decide) _) rfl
    · simp only [historyOf, setPhase, fetchAdd, ofCaller_concat_self, hhist, Phase.history,
        PatchedCall.interval, hbase, nil_append]
    · intro other hoth
      simp only [historyOf, setPhase, fetchAdd, ofCaller_concat_ne hoth]
    · simp only [setPhase, fetchAdd, map_append, map_cons, map_nil]
      exact hs.consecutive.concat rfl
    · simp only [setPhase, fetchAdd, forall_mem_append, forall_mem_singleton]
      exact ⟨hs.counts, hcall.count⟩
  | advanced call offset =>
    simp only [hp] at hstep hsound hhold hhist
    obtain ⟨hcall, rfl⟩ := hsound
    obtain ⟨wal, seq, hlog⟩ := logAppend_of_neverFails hwal s caller call.base call.bytes
    rw [hlog] at hstep
    cases hstep
    simp only [historyOf, Phase.history, Prod.mk.injEq] at hhist
    refine hs.of_step rfl hhold (fun _ _ => Iff.rfl) ⟨hcall, rfl⟩ (Or.inl rfl) ?_ ?_
      hs.consecutive hs.counts hs.fits rfl
    · simp only [historyOf, setPhase, ofCaller_concat_self, hhist, Phase.history,
        PatchedCall.entry, nil_append]
    · intro other hoth
      simp only [historyOf, setPhase, ofCaller_concat_ne hoth]
  | logged call offset =>
    simp only [hp] at hstep hsound hhold hhist
    obtain ⟨hcall, rfl⟩ := hsound
    cases hstep
    simp only [historyOf, Phase.history, Prod.mk.injEq] at hhist
    refine hs.of_step rfl hhold (fun _ _ => Iff.rfl) ⟨hcall, rfl⟩ (Or.inl rfl) ?_ ?_
      hs.consecutive hs.counts hs.fits rfl
    · simp only [historyOf, setPhase, cachePut, ofCaller_concat_self, hhist, Phase.history,
        PatchedCall.entry, nil_append]
    · intro other hoth
      simp only [historyOf, setPhase, cachePut, ofCaller_concat_ne hoth]
  | finished call result =>
    simp only [hp] at hstep hsound hhold
    cases hstep
    refine hs.of_quiet rfl (by simp [Phase.critical, setPhase]) ?_ hsound rfl rfl (by rw [hp]; rfl)
    intro other hoth
    rw [hhold.mp rfl]
    simp [setPhase, Ne.symm hoth]
  | returned call result => simp [hp] at hstep

def GoodCalls : AppendAction → Prop
  | .call _ records => WellFormedPayload records
  | .step _ => True

theorem inv_exec [WalEngine W] (hwal : WalEngine.NeverFails W) {act : AppendAction}
    (hs : Inv startOffset s) (hgood : GoodCalls act) (hexec : s.exec act = some s') :
    Inv startOffset s' := by
  cases act with
  | step caller => exact inv_step hwal hs hexec
  | call caller recs =>
    have hhold := hs.holder caller
    cases hp : s.phase caller with
    | idle =>
      simp only [exec, hp] at hexec hhold
      cases hexec
      exact hs.of_quiet rfl hhold (fun _ _ => Iff.rfl) hgood rfl rfl (by rw [hp]; rfl)
    | _ => simp [exec, hp] at hexec

end Appends

end OxideMq.Broker
