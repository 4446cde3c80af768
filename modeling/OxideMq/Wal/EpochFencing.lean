import OxideMq.Lib.Run
import OxideMq.Wal.Engine

/-! Leases on the in-memory log. -/

namespace OxideMq.Wal

open Lib OxideMq.Core List

structure LeasedWal extends MemoryWal where
  activeEpochs : HashMap ℕ ℕ

namespace LeasedWal

variable {wal : LeasedWal}

def new : LeasedWal := ⟨MemoryWal.new, ∅⟩

def acquireLease (wal : LeasedWal) (streamId epoch : ℕ) :
    LeasedWal × Except OxideMqError Unit :=
  let leased := { wal with activeEpochs := wal.activeEpochs.insert streamId epoch }
  match wal.activeEpochs.lookup streamId with
  | none => (leased, .ok ())
  | some active =>
      if epoch < active then
        (wal, .error (.wal (s!"WAL lease fenced for stream {streamId}: " ++
          s!"requested epoch {epoch} < active epoch {active}")))
      else (leased, .ok ())

/-- What `append_with_epoch` does under the read lock of the epochs. -/
def checkEpoch (wal : LeasedWal) (streamId epoch : ℕ) : Except OxideMqError Unit :=
  match wal.activeEpochs.lookup streamId with
  | none => .ok ()
  | some active =>
      if epoch < active then
        .error (.wal (s!"WAL append fenced for stream {streamId}: " ++
          s!"epoch {epoch} < active epoch {active}"))
      else .ok ()

def takeSeq (wal : LeasedWal) : LeasedWal := { wal with nextSeq := wal.nextSeq + 1 }

def addRecord (wal : LeasedWal) (seq : ℕ) (record : MemoryRecord) : LeasedWal :=
  { wal with records := wal.records.insert seq record }

def pushIndex (wal : LeasedWal) (streamId seq : ℕ) : LeasedWal :=
  { wal with
    streamIndexes := (wal.streamIndexes.entryOrInsert streamId []).modify streamId (· ++ [seq]) }

def Admits (wal : LeasedWal) (streamId epoch : ℕ) : Prop :=
  ∀ active ∈ wal.activeEpochs.lookup streamId, active ≤ epoch

instance (wal : LeasedWal) (streamId epoch : ℕ) : Decidable (wal.Admits streamId epoch) :=
  inferInstanceAs (Decidable (∀ active ∈ wal.activeEpochs.lookup streamId, active ≤ epoch))

theorem acquireLease_of_admits {sid epoch : ℕ} (h : wal.Admits sid epoch) :
    wal.acquireLease sid epoch =
      ({ wal with activeEpochs := wal.activeEpochs.insert sid epoch }, .ok ()) := by
  rw [acquireLease]
  cases hact : wal.activeEpochs.lookup sid with
  | none => rfl
  | some active =>
    have hle : active ≤ epoch := h active hact
    exact if_neg (Nat.not_lt.mpr hle)

theorem acquireLease_of_not_admits {sid epoch : ℕ} (h : ¬wal.Admits sid epoch) :
    ∃ msg, wal.acquireLease sid epoch = (wal, .error (.wal msg)) := by
  rw [acquireLease]
  cases hact : wal.activeEpochs.lookup sid with
  | none => exact absurd (by simp [Admits, hact]) h
  | some active =>
    have hlt : epoch < active := by simpa [Admits, hact] using h
    exact ⟨_, if_pos hlt⟩

theorem checkEpoch_eq_ok_iff {sid epoch : ℕ} :
    wal.checkEpoch sid epoch = .ok () ↔ wal.Admits sid epoch := by
  rw [checkEpoch]
  cases hact : wal.activeEpochs.lookup sid with
  | none => simp [Admits, hact]
  | some active =>
    by_cases hlt : epoch < active
    · simp [Admits, hact, hlt]
    · simp [Admits, hact, Nat.not_lt.mp hlt]

end LeasedWal

/-- The arguments of `append_with_epoch`. -/
structure EpochAppend where
  streamId : ℕ
  epoch : ℕ
  offset : ℤ
  data : Bytes
  deriving DecidableEq, Repr

/-- Where a call of `append_with_epoch` is. -/
inductive AppendPhase where
  | called
  | checked
  | sequenced (seq : ℕ)
  | recorded (seq : ℕ)
  | returned (result : Except OxideMqError ℕ)

def AppendPhase.pending : AppendPhase → Bool
  | .checked | .sequenced _ => true
  | _ => false

inductive WalEvent where
  | leaseGranted (streamId epoch : ℕ)
  | recordAdded (append : EpochAppend) (seq : ℕ)
  deriving DecidableEq, Repr

def EpochAppend.Overtaken (append : EpochAppend) : WalEvent → Prop
  | .leaseGranted streamId epoch => append.streamId = streamId ∧ append.epoch < epoch
  | .recordAdded _ _ => False

instance (append : EpochAppend) : (event : WalEvent) → Decidable (append.Overtaken event)
  | .leaseGranted streamId epoch =>
      inferInstanceAs (Decidable (append.streamId = streamId ∧ append.epoch < epoch))
  | .recordAdded _ _ => inferInstanceAs (Decidable False)

def WalEvent.Allows (earlier : WalEvent) : WalEvent → Prop
  | .leaseGranted _ _ => True
  | .recordAdded append _ => ¬append.Overtaken earlier

instance (earlier : WalEvent) : (later : WalEvent) → Decidable (earlier.Allows later)
  | .leaseGranted _ _ => inferInstanceAs (Decidable True)
  | .recordAdded append _ => inferInstanceAs (Decidable (¬append.Overtaken earlier))

structure LeasedWrites where
  wal : LeasedWal
  calls : List (EpochAppend × AppendPhase)
  history : List WalEvent

inductive LeaseAction where
  | acquireLease (streamId epoch : ℕ)
  | appendWithEpoch (append : EpochAppend)
  | step (caller : ℕ)

namespace LeasedWrites

variable {s s' : LeasedWrites} {append : EpochAppend} {history : List WalEvent} {wal : LeasedWal}

def start (wal : LeasedWal) : LeasedWrites := ⟨wal, [], []⟩

def setPhase (s : LeasedWrites) (caller : ℕ) (append : EpochAppend) (phase : AppendPhase) :
    LeasedWrites :=
  { s with calls := s.calls.set caller (append, phase) }

def stepFrom (s : LeasedWrites) (caller : ℕ) (append : EpochAppend) :
    AppendPhase → Option LeasedWrites
  | .called =>
      match s.wal.checkEpoch append.streamId append.epoch with
      | .ok () => some (s.setPhase caller append .checked)
      | .error e => some (s.setPhase caller append (.returned (.error e)))
  | .checked =>
      some ({ s with wal := s.wal.takeSeq }.setPhase caller append (.sequenced s.wal.nextSeq))
  | .sequenced seq =>
      let record : MemoryRecord := ⟨append.streamId, append.offset, append.data⟩
      let added : LeasedWrites :=
        ⟨s.wal.addRecord seq record, s.calls, s.history ++ [.recordAdded append seq]⟩
      some (added.setPhase caller append (.recorded seq))
  | .recorded seq =>
      some ({ s with wal := s.wal.pushIndex append.streamId seq }.setPhase caller append
        (.returned (.ok seq)))
  | .returned _ => none

def exec (s : LeasedWrites) : LeaseAction → Option LeasedWrites
  | .acquireLease streamId epoch =>
      match s.wal.acquireLease streamId epoch with
      | (wal, .ok ()) =>
          some { s with wal := wal, history := s.history ++ [.leaseGranted streamId epoch] }
      | (wal, .error _) => some { s with wal := wal }
  | .appendWithEpoch append => some { s with calls := s.calls ++ [(append, .called)] }
  | .step caller =>
      match s.calls[caller]? with
      | none => none
      | some (append, phase) => s.stepFrom caller append phase

def Fenced (s : LeasedWrites) : Prop := s.history.Pairwise WalEvent.Allows

instance (s : LeasedWrites) : Decidable s.Fenced :=
  inferInstanceAs (Decidable (s.history.Pairwise WalEvent.Allows))

def LeaseWaits (s : LeasedWrites) : LeaseAction → Prop
  | .acquireLease streamId epoch =>
      s.wal.Admits streamId epoch →
        ∀ c ∈ s.calls, c.2.pending = true → ¬c.1.Overtaken (.leaseGranted streamId epoch)
  | _ => True

instance (s : LeasedWrites) : (a : LeaseAction) → Decidable (s.LeaseWaits a)
  | .acquireLease streamId epoch =>
      inferInstanceAs (Decidable (s.wal.Admits streamId epoch →
        ∀ c ∈ s.calls, c.2.pending = true → ¬c.1.Overtaken (.leaseGranted streamId epoch)))
  | .appendWithEpoch _ => inferInstanceAs (Decidable True)
  | .step _ => inferInstanceAs (Decidable True)

def Unovertaken (history : List WalEvent) (c : EpochAppend × AppendPhase) : Prop :=
  c.2.pending = true → ∀ event ∈ history, ¬c.1.Overtaken event

theorem unovertaken_of_not_pending {phase : AppendPhase} (h : phase.pending = false) :
    Unovertaken history (append, phase) := by
  intro hpend
  cases h.symm.trans hpend

theorem unovertaken_concat {event : WalEvent} {c : EpochAppend × AppendPhase} :
    Unovertaken (history ++ [event]) c ↔
      Unovertaken history c ∧ (c.2.pending = true → ¬c.1.Overtaken event) := by
  simp only [Unovertaken, forall_mem_append, forall_mem_singleton]
  exact imp_and

theorem unovertaken_concat_recordAdded {seq : ℕ} {c : EpochAppend × AppendPhase} :
    Unovertaken (history ++ [.recordAdded append seq]) c ↔ Unovertaken history c := by
  rw [unovertaken_concat]
  exact and_iff_left fun _ => id

def Clear (s : LeasedWrites) : Prop := s.Fenced ∧ ∀ c ∈ s.calls, Unovertaken s.history c

def LeasesKnown (s : LeasedWrites) : Prop :=
  ∀ streamId epoch, WalEvent.leaseGranted streamId epoch ∈ s.history →
    ∃ active ∈ s.wal.activeEpochs.lookup streamId, epoch ≤ active

theorem LeasesKnown.not_overtaken (hs : s.LeasesKnown)
    (hadm : s.wal.Admits append.streamId append.epoch) :
    ∀ event ∈ s.history, ¬append.Overtaken event := by
  intro event hevent hovertaken
  cases event with
  | recordAdded other seq => exact hovertaken
  | leaseGranted sid epoch =>
    obtain ⟨hstr, hlt⟩ := hovertaken
    subst hstr
    obtain ⟨active, hact, hle⟩ := hs _ _ hevent
    have := hadm active hact
    omega

theorem fenced_concat {event : WalEvent} : (history ++ [event]).Pairwise WalEvent.Allows ↔
      history.Pairwise WalEvent.Allows ∧ ∀ earlier ∈ history, earlier.Allows event := by
  rw [pairwise_append]
  simp

theorem clear_set {c : ℕ} {phase phase' : AppendPhase} (hcall : s.calls[c]? = some (append, phase))
    (hcalls : s'.calls = s.calls.set c (append, phase')) (hhist : s'.history = s.history)
    (hsame : Unovertaken s.history (append, phase') ↔ Unovertaken s.history (append, phase)) :
    s'.Clear ↔ s.Clear := by
  rw [Clear, Clear, Fenced, Fenced, hhist, hcalls, forall_mem_set_congr hcall hsame]

theorem clear_lease {sid epoch : ℕ} :
    (⟨wal, s.calls, s.history ++ [.leaseGranted sid epoch]⟩ : LeasedWrites).Clear ↔
      s.Clear ∧ ∀ c ∈ s.calls, c.2.pending = true → ¬c.1.Overtaken (.leaseGranted sid epoch) := by
  simp only [Clear, Fenced, fenced_concat, unovertaken_concat]
  constructor
  · rintro ⟨⟨hfenced, -⟩, hcalls⟩
    exact ⟨⟨hfenced, fun c hc => (hcalls c hc).1⟩, fun c hc => (hcalls c hc).2⟩
  · rintro ⟨⟨hfenced, hcalls⟩, hlease⟩
    exact ⟨⟨hfenced, fun _ _ => trivial⟩, fun c hc => ⟨hcalls c hc, hlease c hc⟩⟩

theorem clear_record {c seq : ℕ} (hcall : s.calls[c]? = some (append, .sequenced seq)) :
    (⟨wal, s.calls.set c (append, .recorded seq),
      s.history ++ [.recordAdded append seq]⟩ : LeasedWrites).Clear ↔ s.Clear := by
  have hrec : Unovertaken s.history (append, .recorded seq) :=
    unovertaken_of_not_pending rfl
  simp only [Clear, Fenced, fenced_concat, unovertaken_concat_recordAdded]
  constructor
  · rintro ⟨⟨hfenced, hallows⟩, hcalls⟩
    exact ⟨hfenced, ((forall_mem_set_iff hcall).mp ⟨hcalls, fun _ => hallows⟩).1⟩
  · rintro ⟨hfenced, hcalls⟩
    have hset := (forall_mem_set_iff hcall).mpr ⟨hcalls, hrec⟩
    exact ⟨⟨hfenced, hset.2 rfl⟩, hset.1⟩

theorem clear_step {a : LeaseAction} (hs : s.LeasesKnown) (hexec : exec s a = some s') :
    s'.Clear ↔ s.Clear ∧ s.LeaseWaits a := by
  cases a with
  | acquireLease sid epoch =>
    rw [exec] at hexec
    by_cases hadm : s.wal.Admits sid epoch
    · rw [LeasedWal.acquireLease_of_admits hadm] at hexec
      cases hexec
      rw [clear_lease, LeaseWaits, forall_prop_of_true hadm]
    · obtain ⟨msg, href⟩ := LeasedWal.acquireLease_of_not_admits hadm
      rw [href] at hexec
      cases hexec
      exact (and_iff_left fun h => absurd h hadm).symm
  | appendWithEpoch append =>
    cases hexec
    have hnew : Unovertaken s.history (append, .called) := unovertaken_of_not_pending rfl
    simp only [Clear, Fenced, LeaseWaits, forall_mem_append, forall_mem_singleton, hnew, and_true]
  | step caller =>
    rw [exec] at hexec
    cases hcall : s.calls[caller]? with
    | none => simp [hcall] at hexec
    | some c =>
      obtain ⟨append, phase⟩ := c
      rw [hcall] at hexec
      refine Iff.trans ?_ (and_iff_left trivial).symm
      cases phase with
      | called =>
        have hcalled : Unovertaken s.history (append, .called) :=
          unovertaken_of_not_pending rfl
        cases hchk : s.wal.checkEpoch append.streamId append.epoch with
        | ok u =>
          have hadm := LeasedWal.checkEpoch_eq_ok_iff.mp hchk
          simp only [stepFrom, hchk] at hexec
          cases hexec
          exact clear_set hcall rfl rfl (iff_of_true (fun _ => hs.not_overtaken hadm) hcalled)
        | error e =>
          simp only [stepFrom, hchk] at hexec
          cases hexec
          exact clear_set hcall rfl rfl (iff_of_true (unovertaken_of_not_pending rfl) hcalled)
      | checked =>
        cases hexec
        exact clear_set hcall rfl rfl Iff.rfl
      | sequenced seq =>
        cases hexec
        exact clear_record hcall
      | recorded seq =>
        cases hexec
        exact clear_set hcall rfl rfl
          (iff_of_true (unovertaken_of_not_pending rfl) (unovertaken_of_not_pending rfl))
      | returned res => simp [stepFrom] at hexec

theorem LeasesKnown.of_epochs_eq (hs : s.LeasesKnown)
    (hepochs : s'.wal.activeEpochs = s.wal.activeEpochs)
    (hhist : ∀ sid epoch, WalEvent.leaseGranted sid epoch ∈ s'.history →
      WalEvent.leaseGranted sid epoch ∈ s.history) : s'.LeasesKnown := by
  intro sid epoch hlease
  rw [hepochs]
  exact hs sid epoch (hhist sid epoch hlease)

theorem LeasesKnown.grant (hs : s.LeasesKnown) {sid epoch : ℕ} (hadm : s.wal.Admits sid epoch) :
    LeasesKnown { s with
        wal := { s.wal with activeEpochs := s.wal.activeEpochs.insert sid epoch }
        history := s.history ++ [.leaseGranted sid epoch] } := by
  intro sid' epoch' hlease
  show ∃ active ∈ (s.wal.activeEpochs.insert sid epoch).lookup sid', epoch' ≤ active
  rw [HashMap.lookup_insert_ite]
  rcases mem_append.mp hlease with hold | hnew
  · obtain ⟨active, hact, hle⟩ := hs sid' epoch' hold
    split
    · next heq =>
        subst heq
        exact ⟨epoch, rfl, hle.trans (hadm active hact)⟩
    · exact ⟨active, hact, hle⟩
  · obtain ⟨rfl, rfl⟩ := WalEvent.leaseGranted.inj (mem_singleton.mp hnew)
    exact ⟨epoch', by rw [if_pos rfl]; rfl, le_rfl⟩

theorem leasesKnown_step {a : LeaseAction} (hs : s.LeasesKnown) (hexec : exec s a = some s') :
    s'.LeasesKnown := by
  cases a with
  | acquireLease sid epoch =>
    rw [exec] at hexec
    by_cases hadm : s.wal.Admits sid epoch
    · rw [LeasedWal.acquireLease_of_admits hadm] at hexec
      cases hexec
      exact hs.grant hadm
    · obtain ⟨msg, href⟩ := LeasedWal.acquireLease_of_not_admits hadm
      rw [href] at hexec
      cases hexec
      exact hs
  | appendWithEpoch append =>
    cases hexec
    exact hs
  | step caller =>
    rw [exec] at hexec
    cases hcall : s.calls[caller]? with
    | none => simp [hcall] at hexec
    | some c =>
      obtain ⟨append, phase⟩ := c
      rw [hcall] at hexec
      cases phase with
      | called =>
        cases hchk : s.wal.checkEpoch append.streamId append.epoch with
        | ok u =>
          simp only [stepFrom, hchk] at hexec
          cases hexec
          exact hs
        | error e =>
          simp only [stepFrom, hchk] at hexec
          cases hexec
          exact hs
      | checked =>
        cases hexec
        exact hs
      | sequenced seq =>
        cases hexec
        exact hs.of_epochs_eq rfl fun sid epoch hlease => by
          simpa [setPhase] using hlease
      | recorded seq =>
        cases hexec
        exact hs
      | returned res => simp [stepFrom] at hexec

def Quiet (s : LeasedWrites) : Prop := ∀ c ∈ s.calls, c.2.pending = false

theorem Quiet.clear_iff (h : s.Quiet) : s.Clear ↔ s.Fenced := by
  refine and_iff_left fun c hc hpend => ?_
  exact absurd (hpend.symm.trans (h c hc)) (Bool.false_ne_true ∘ Eq.symm)

theorem start_leasesKnown (wal : LeasedWal) : (start wal).LeasesKnown := by
  intro sid epoch hlease
  exact absurd hlease not_mem_nil

theorem start_clear (wal : LeasedWal) : (start wal).Clear :=
  ⟨List.Pairwise.nil, forall_mem_nil _⟩

theorem clear_of_along {acts : List LeaseAction} {t : LeasedWrites}
    (halong : Along exec LeaseWaits (start wal) acts)
    (hrun : run exec (start wal) acts = some t) : t.Clear := by
  have hstep : ∀ (s : LeasedWrites) (a : LeaseAction) (s' : LeasedWrites),
      s.LeasesKnown ∧ s.Clear → s.LeaseWaits a → exec s a = some s' →
        s'.LeasesKnown ∧ s'.Clear := by
    rintro s a s' ⟨hknown, hclear⟩ hwaits hexec
    exact ⟨leasesKnown_step hknown hexec, (clear_step hknown hexec).mpr ⟨hclear, hwaits⟩⟩
  exact (run_invariant hstep ⟨start_leasesKnown wal, start_clear wal⟩ halong hrun).2

theorem along_of_clear {actions : List LeaseAction} {t : LeasedWrites}
    (hrun : run exec (start wal) actions = some t) (ht : t.Clear) :
    Along exec LeaseWaits (start wal) actions := by
  have hany : Along exec (fun _ _ => True) (start wal) actions :=
    along_of_forall (P := fun _ => True) fun _ _ => trivial
  have hknown : Along exec (fun s _ => s.LeasesKnown ∧ True) (start wal) actions :=
    Along.invariant (fun s a s' hs _ hexec => leasesKnown_step hs hexec)
      (start_leasesKnown wal) hany
  refine (along_of_run ?_ hknown hrun ht).2
  intro s a s' hs hexec hs'
  exact (clear_step hs.1 hexec).mp hs'

theorem leases_fence_appends {wal : LeasedWal} {actions : List LeaseAction} {t : LeasedWrites}
    (hrun : run exec (start wal) actions = some t) :
    (Along exec LeaseWaits (start wal) actions →
      ∀ front, front <+: actions → ∀ u, run exec (start wal) front = some u → u.Fenced) ∧
    (t.Quiet → (∀ front, front <+: actions → ∀ u, run exec (start wal) front = some u → u.Fenced) →
        Along exec LeaseWaits (start wal) actions) := by
  constructor
  · rintro halong front ⟨rest, rfl⟩ u hu
    exact (clear_of_along (along_append halong).1 hu).1
  · intro hquiet hfenced
    exact along_of_clear hrun (hquiet.clear_iff.mpr (hfenced actions List.prefix_rfl t hrun))

theorem lease_overtaken_by_append : ∃ (actions : List LeaseAction) (t : LeasedWrites),
      run exec (start LeasedWal.new) actions = some t ∧
        t.history = [.leaseGranted 42 10, .leaseGranted 42 11, .recordAdded ⟨42, 10, 2, [0]⟩ 1] ∧
        t.wal.readStream 42 0 1024 = [(1, ⟨42, 2, [0]⟩)] ∧ ¬t.Fenced := by
  have hstale : ((run exec (start LeasedWal.new)
      [.acquireLease 42 10, .appendWithEpoch ⟨42, 10, 2, [0]⟩, .step 0, .acquireLease 42 11,
        .step 0, .step 0, .step 0]).map fun t => (t.history, t.wal.readStream 42 0 1024)) =
      some ([.leaseGranted 42 10, .leaseGranted 42 11, .recordAdded ⟨42, 10, 2, [0]⟩ 1],
        [(1, ⟨42, 2, [0]⟩)]) := by
    decide +kernel
  obtain ⟨t, hrun, ht⟩ := Option.map_eq_some_iff.mp hstale
  obtain ⟨hhist, hread⟩ := Prod.mk.inj ht
  refine ⟨_, t, hrun, hhist, hread, ?_⟩
  rw [Fenced, hhist]
  decide

theorem leases_fence_appends_failover : ∃ t, run exec (start LeasedWal.new)
      [.acquireLease 42 10, .appendWithEpoch ⟨42, 10, 0, [0]⟩, .step 0, .step 0, .step 0,
        .acquireLease 42 11, .appendWithEpoch ⟨42, 10, 2, [0]⟩, .step 1] = some t ∧
      t.Fenced := by
  have hdone : (run exec (start LeasedWal.new)
      [.acquireLease 42 10, .appendWithEpoch ⟨42, 10, 0, [0]⟩, .step 0, .step 0, .step 0,
        .acquireLease 42 11, .appendWithEpoch ⟨42, 10, 2, [0]⟩, .step 1]).isSome = true := by
    decide +kernel
  obtain ⟨t, hrun⟩ := Option.isSome_iff_exists.mp hdone
  exact ⟨t, hrun, (leases_fence_appends hrun).1 (by decide +kernel) _ List.prefix_rfl t hrun⟩

end LeasedWrites

end OxideMq.Wal
