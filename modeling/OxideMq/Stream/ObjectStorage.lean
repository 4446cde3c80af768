import OxideMq.Stream.Compactor

/-!
The object store kept in memory, and the decorator that repeats calls which fail for a
moment. A call that failed may have taken effect all the same; repeating it is harmless,
since every call of the store is idempotent in what later calls can see.
-/

namespace OxideMq.Stream

open Lib OxideMq.Core List

structure MemoryObjectStorage where
  objects : HashMap String Bytes
  putCount : UInt64
  getCount : UInt64
  bytesStored : UInt64

/-- The calls of the trait `ObjectStorage`. -/
inductive StorageCall where
  | putObject (key : String) (data : Bytes)
  | getObject (key : String)
  | getObjectRange (key : String) (start stop : UInt64)
  | deleteObject (key : String)
  | deleteObjects (keys : List String)
  | listObjects (start : String)

inductive StorageAnswer where
  | done
  | bytes (data : Bytes)
  | keys (names : List String)
  deriving DecidableEq

/-- The answer to a call; a slice out of bounds panics. -/
abbrev Answered := Option (Except OxideMqError StorageAnswer)

namespace MemoryObjectStorage

def new : MemoryObjectStorage := ⟨∅, 0, 0, 0⟩

def clear (store : MemoryObjectStorage) : MemoryObjectStorage :=
  { store with objects := ∅, bytesStored := 0 }

/-- `bytes_stored` without the object under the key. -/
def bytesWithout (store : MemoryObjectStorage) (key : String) : UInt64 :=
  match store.objects.lookup key with
  | some old => store.bytesStored - UInt64.ofNat old.length
  | none => store.bytesStored

def putObject (store : MemoryObjectStorage) (key : String) (data : Bytes) : MemoryObjectStorage :=
  { store with
    objects := store.objects.insert key data
    bytesStored := store.bytesWithout key + UInt64.ofNat data.length
    putCount := store.putCount + 1 }

def deleteObject (store : MemoryObjectStorage) (key : String) : MemoryObjectStorage :=
  { store with objects := store.objects.erase key, bytesStored := store.bytesWithout key }

def deleteObjects (store : MemoryObjectStorage) (keys : List String) : MemoryObjectStorage :=
  keys.foldl deleteObject store

/-- The octets `start..=stop` of an object, with `end + 1` as a `u64`. -/
def slice (obj : Bytes) (start stop : UInt64) : Option Bytes :=
  if UInt64.ofNat obj.length ≤ start then some []
  else
    let actualEnd := min (stop + 1) (UInt64.ofNat obj.length)
    if actualEnd < start then none else some ((obj.take actualEnd.toNat).drop start.toNat)

def notFound (key : String) : OxideMqError := .storage ("Object not found: " ++ key)

def exec (store : MemoryObjectStorage) : StorageCall → MemoryObjectStorage × Answered
  | .putObject key data => (store.putObject key data, some (.ok .done))
  | .getObject key => ({ store with getCount := store.getCount + 1 },
      match store.objects.lookup key with
      | some data => some (.ok (.bytes data))
      | none => some (.error (notFound key)))
  | .getObjectRange key start stop => ({ store with getCount := store.getCount + 1 },
      match store.objects.lookup key with
      | some obj => (slice obj start stop).map fun data => .ok (.bytes data)
      | none => some (.error (notFound key)))
  | .deleteObject key => (store.deleteObject key, some (.ok .done))
  | .deleteObjects keys => (store.deleteObjects keys, some (.ok .done))
  | .listObjects start => (store, some (.ok (.keys
      ((store.objects.keys.filter fun key => start.toList.isPrefixOf key.toList).mergeSort))))

/-! ### The bytes that are stored -/

/-- `total_bytes` is the size of all objects, as a `u64`. -/
def Accounted (store : MemoryObjectStorage) : Prop :=
  store.bytesStored = UInt64.ofNat (HashMap.total List.length store.objects)

theorem bytesWithout_eq {store : MemoryObjectStorage} (h : store.Accounted) (key : String) :
    store.bytesWithout key =
      UInt64.ofNat (HashMap.total List.length (store.objects.erase key)) := by
  have htotal := HashMap.total_erase List.length store.objects key
  rw [Accounted, ← htotal] at h
  rw [bytesWithout]
  cases hold : store.objects.lookup key with
  | none => simpa [hold] using h
  | some old =>
    dsimp only
    rw [h, hold, Option.map_some, Option.getD_some, UInt64.ofNat_add, UInt64.add_sub_cancel]

theorem Accounted.deleteObjects {store : MemoryObjectStorage} (h : store.Accounted)
    (keys : List String) : (store.deleteObjects keys).Accounted := by
  induction keys generalizing store with
  | nil => exact h
  | cons key keys ih => exact @ih (store.deleteObject key) (bytesWithout_eq h key)

theorem Accounted.exec {store : MemoryObjectStorage} (h : store.Accounted) (call : StorageCall) :
    (store.exec call).1.Accounted := by
  cases call with
  | putObject key data =>
    have htotal := HashMap.total_update (m := store.objects) List.length
      (store.objects.lookup_insert_ite key · data)
    have herase := HashMap.total_erase List.length store.objects key
    show store.bytesWithout key + UInt64.ofNat data.length =
      UInt64.ofNat (HashMap.total List.length (store.objects.insert key data))
    rw [bytesWithout_eq h, ← UInt64.ofNat_add]
    congr 1
    omega
  | getObject key => exact h
  | getObjectRange key start stop => exact h
  | deleteObject key => exact bytesWithout_eq h key
  | deleteObjects keys => exact h.deleteObjects keys
  | listObjects start => exact h

/-- A run of calls, with `none` for a `clear`. -/
def after (store : MemoryObjectStorage) (calls : List (Option StorageCall)) :
    MemoryObjectStorage :=
  calls.foldl (fun store call => call.elim store.clear fun call => (store.exec call).1) store

/-- After every run the counter is the size of what is stored, up to its own overflow. -/
theorem bytes_accounted (calls : List (Option StorageCall)) : (new.after calls).Accounted := by
  suffices h : ∀ store : MemoryObjectStorage, store.Accounted → (store.after calls).Accounted from
    h new rfl
  induction calls with
  | nil => exact fun _ h => h
  | cons call calls ih =>
    intro store h
    cases call with
    | none => exact ih store.clear rfl
    | some call => exact ih (store.exec call).1 (h.exec call)

/-! ### Repeated calls -/

/-- The two stores answer alike from now on. -/
def Same (s t : MemoryObjectStorage) : Prop :=
  s.objects = t.objects ∧ s.bytesStored = t.bytesStored

variable {s t : MemoryObjectStorage}

theorem Same.bytesWithout (h : s.Same t) (key : String) :
    s.bytesWithout key = t.bytesWithout key := by
  rw [MemoryObjectStorage.bytesWithout, h.1, h.2, MemoryObjectStorage.bytesWithout]

theorem Same.deleteObjects (h : s.Same t) (keys : List String) :
    (s.deleteObjects keys).Same (t.deleteObjects keys) := by
  induction keys generalizing s t with
  | nil => exact h
  | cons key keys ih =>
    refine @ih (s.deleteObject key) (t.deleteObject key) ⟨?_, h.bytesWithout key⟩
    rw [deleteObject, h.1, deleteObject]

theorem Same.exec (h : s.Same t) (call : StorageCall) :
    (s.exec call).1.Same (t.exec call).1 ∧ (s.exec call).2 = (t.exec call).2 := by
  cases call with
  | putObject key data =>
    refine ⟨⟨?_, ?_⟩, rfl⟩
    · show s.objects.insert key data = t.objects.insert key data
      rw [h.1]
    · show s.bytesWithout key + _ = t.bytesWithout key + _
      rw [h.bytesWithout]
  | getObject key => exact ⟨h, by simp only [MemoryObjectStorage.exec, h.1]⟩
  | getObjectRange key start stop => exact ⟨h, by simp only [MemoryObjectStorage.exec, h.1]⟩
  | deleteObject key => exact ⟨h.deleteObjects [key], rfl⟩
  | deleteObjects keys => exact ⟨h.deleteObjects keys, rfl⟩
  | listObjects start => exact ⟨h, by simp only [MemoryObjectStorage.exec, h.1]⟩

theorem deleteObject_of_absent {key : String} (h : s.objects.lookup key = none) :
    s.deleteObject key = s := by
  have herase : s.objects.erase key = s.objects :=
    AList.ext (kerase_of_notMem_keys (AList.lookup_eq_none.mp h))
  rw [deleteObject, bytesWithout, h, herase]

/-- The objects of the streams' tiers are those of the store: deleting them agrees. -/
theorem objects_deleteObjects (keys : List String) :
    (s.deleteObjects keys).objects = Stream.deleteObjects s.objects keys := by
  induction keys generalizing s with
  | nil => rfl
  | cons key keys ih => exact ih

/-- So does reading one. -/
theorem exec_getObject {W : Type} {tiers : Tiers W} (h : tiers.objects = s.objects)
    (key : String) :
    (s.exec (.getObject key)).2 = some ((S3Stream.getObject tiers key).map .bytes) := by
  rw [S3Stream.getObject, h, exec]
  cases s.objects.lookup key with
  | none => rfl
  | some data => rfl

theorem deleteObjects_of_absent {keys : List String}
    (h : ∀ key ∈ keys, s.objects.lookup key = none) : s.deleteObjects keys = s := by
  induction keys with
  | nil => rfl
  | cons key keys ih =>
    obtain ⟨hkey, hkeys⟩ := forall_mem_cons.mp h
    rw [deleteObjects, foldl_cons, deleteObject_of_absent hkey]
    exact ih hkeys

/-- A call made twice is answered as before and leaves what the first one has left. -/
theorem exec_twice (s : MemoryObjectStorage) (call : StorageCall) :
    ((s.exec call).1.exec call).1.Same (s.exec call).1 ∧
      ((s.exec call).1.exec call).2 = (s.exec call).2 := by
  have hdelete (keys : List String) :
      ((s.deleteObjects keys).deleteObjects keys).Same (s.deleteObjects keys) := by
    rw [deleteObjects_of_absent]
    · exact ⟨rfl, rfl⟩
    · intro key hkey
      rw [objects_deleteObjects, lookup_deleteObjects, if_pos hkey]
  cases call with
  | putObject key data =>
    refine ⟨⟨AList.insert_insert _, ?_⟩, rfl⟩
    show (s.putObject key data).bytesWithout key + _ = (s.putObject key data).bytesStored
    have hlookup : (s.putObject key data).objects.lookup key = some data :=
      AList.lookup_insert s.objects
    rw [bytesWithout, hlookup]
    exact UInt64.sub_add_cancel _ _
  | getObject key => exact ⟨⟨rfl, rfl⟩, rfl⟩
  | getObjectRange key start stop => exact ⟨⟨rfl, rfl⟩, rfl⟩
  | deleteObject key => exact ⟨hdelete [key], rfl⟩
  | deleteObjects keys => exact ⟨hdelete keys, rfl⟩
  | listObjects start => exact ⟨⟨rfl, rfl⟩, rfl⟩

end MemoryObjectStorage

/-! ### The retry loop -/

section

variable {σ α : Type} (op : σ → σ × Option (Except OxideMqError α))

def isTransient (e : OxideMqError) : Bool :=
  ["503", "SlowDown", "RateLimit", "TooManyRequests"].any fun word =>
    decide (word.toList <:+: e.message.toList)

def nextBackoff (backoff : UInt64) : UInt64 :=
  if 0 < backoff then min (backoff * 2) 1000 else backoff

/-- `execute_with_retry`, with the retries that are left; the last component is the time slept. -/
def executeWithRetry : ℕ → UInt64 → σ → (σ × Option (Except OxideMqError α)) × ℕ
  | 0, _, s => (op s, 0)
  | retries + 1, backoff, s =>
      match (op s).2 with
      | some (.error e) =>
          if isTransient e then
            let rest := executeWithRetry retries (nextBackoff backoff) (op s).1
            (rest.1, backoff.toNat + rest.2)
          else (op s, 0)
      | _ => (op s, 0)

/-- What the attempt comes to that is made after `n` others. -/
def attempt : ℕ → σ → σ × Option (Except OxideMqError α)
  | 0, s => op s
  | n + 1, s => attempt n (op s).1

def FailsTransiently (answer : Option (Except OxideMqError α)) : Prop :=
  ∃ e, answer = some (.error e) ∧ isTransient e

variable {op}

theorem executeWithRetry_of_transient {s : σ} (h : FailsTransiently (op s).2) (retries : ℕ)
    (backoff : UInt64) :
    executeWithRetry op (retries + 1) backoff s =
      let rest := executeWithRetry op retries (nextBackoff backoff) (op s).1
      (rest.1, backoff.toNat + rest.2) := by
  obtain ⟨e, he, ht⟩ := h
  rw [executeWithRetry, he]
  dsimp only
  rw [if_pos ht]

theorem executeWithRetry_of_not_transient {s : σ} (h : ¬ FailsTransiently (op s).2)
    (retries : ℕ) (backoff : UInt64) :
    executeWithRetry op retries backoff s = (op s, 0) := by
  cases retries with
  | zero => rfl
  | succ retries =>
    rw [executeWithRetry]
    rcases hop : (op s).2 with _ | e | a
    · rfl
    · dsimp only
      rw [if_neg fun ht => h ⟨e, hop, ht⟩]
    · rfl

theorem nextBackoff_le (backoff : UInt64) : (nextBackoff backoff).toNat ≤ 1000 := by
  rw [nextBackoff]
  split
  · by_cases hle : backoff * 2 ≤ 1000
    · rw [show min (backoff * 2) 1000 = backoff * 2 from if_pos hle]
      exact UInt64.le_iff_toNat_le.mp hle
    · rw [show min (backoff * 2) 1000 = 1000 from if_neg hle]
      exact le_rfl
  · rename_i hzero
    rw [UInt64.lt_iff_toNat_lt, UInt64.toNat_zero] at hzero
    omega

/-- The loop answers with its first attempt that does not fail transiently, or with the last
one it may make. It sleeps once before each repetition, for the base or for a second at most. -/
theorem executeWithRetry_law (op : σ → σ × Option (Except OxideMqError α)) (retries : ℕ)
    (backoff : UInt64) (s : σ) :
    ∃ n ≤ retries, (executeWithRetry op retries backoff s).1 = attempt op n s ∧
      (∀ i < n, FailsTransiently (attempt op i s).2) ∧
      (n < retries → ¬ FailsTransiently (attempt op n s).2) ∧
      (executeWithRetry op retries backoff s).2 ≤ n * max backoff.toNat 1000 := by
  induction retries generalizing backoff s with
  | zero => exact ⟨0, le_rfl, rfl, fun i hi => absurd hi (Nat.not_lt_zero i),
      fun h => absurd h (lt_irrefl 0), Nat.zero_le _⟩
  | succ retries ih =>
    by_cases hfails : FailsTransiently (op s).2
    · obtain ⟨n, hn, hlast, hbefore, hstop, hslept⟩ :=
        ih (nextBackoff backoff) (op s).1
      rw [executeWithRetry_of_transient hfails]
      refine ⟨n + 1, by omega, hlast, fun i hi => ?_, fun h => hstop (by omega), ?_⟩
      · cases i with
        | zero => exact hfails
        | succ i => exact hbefore i (by omega)
      · rw [max_eq_right (nextBackoff_le backoff)] at hslept
        have hone : n * 1000 ≤ n * max backoff.toNat 1000 :=
          Nat.mul_le_mul_left n (le_max_right _ _)
        have hbase : backoff.toNat ≤ max backoff.toNat 1000 := le_max_left _ _
        rw [Nat.succ_mul]
        dsimp only
        omega
    · rw [executeWithRetry_of_not_transient hfails]
      exact ⟨0, Nat.zero_le _, rfl, fun i hi => absurd hi (Nat.not_lt_zero i), fun _ => hfails,
        Nat.zero_le _⟩

end

/-! ### The retrying store -/

/-- A transient failure of the store below, which may have come after the call took effect. -/
structure StorageFault where
  error : OxideMqError
  applied : Bool

namespace MemoryObjectStorage

/-- An attempt at a call, with the faults that are still to come. -/
def faulty (call : StorageCall) :
    MemoryObjectStorage × List StorageFault → (MemoryObjectStorage × List StorageFault) × Answered
  | (store, []) => (((store.exec call).1, []), (store.exec call).2)
  | (store, fault :: faults) =>
      ((if fault.applied then (store.exec call).1 else store, faults), some (.error fault.error))

/-- A call of `RetryableObjectStorage` that meets the faults. -/
def retried (maxRetries : ℕ) (backoff : UInt64) (store : MemoryObjectStorage)
    (call : StorageCall × List StorageFault) : MemoryObjectStorage × Answered :=
  let last := (executeWithRetry (faulty call.1) maxRetries backoff (store, call.2)).1
  (last.1.1, last.2)

/-- The answers to a sequence of calls, and the store after it. -/
def answers {C : Type} (exec : MemoryObjectStorage → C → MemoryObjectStorage × Answered) :
    MemoryObjectStorage → List C → MemoryObjectStorage × List Answered
  | store, [] => (store, [])
  | store, call :: calls =>
      let rest := answers exec (exec store call).1 calls
      (rest.1, (exec store call).2 :: rest.2)

/-- The call has taken effect or not; either way the attempts to come end as the plain call. -/
theorem retried_call {store : MemoryObjectStorage} {call : StorageCall}
    {faults : List StorageFault} {retries : ℕ} (hlen : faults.length ≤ retries)
    (hfaults : ∀ fault ∈ faults, isTransient fault.error) (backoff : UInt64)
    (h : s.Same store ∨ s.Same (store.exec call).1) :
    let last := (executeWithRetry (faulty call) retries backoff (s, faults)).1
    last.1.1.Same (store.exec call).1 ∧ last.2 = (store.exec call).2 := by
  have hexec {s : MemoryObjectStorage} (h : s.Same store ∨ s.Same (store.exec call).1) :
      (s.exec call).1.Same (store.exec call).1 ∧ (s.exec call).2 = (store.exec call).2 := by
    rcases h with hbefore | hafter
    · exact hbefore.exec call
    · obtain ⟨hobjects, hanswer⟩ := hafter.exec call
      obtain ⟨htwice, hsame⟩ := exec_twice store call
      exact ⟨⟨hobjects.1.trans htwice.1, hobjects.2.trans htwice.2⟩, hanswer.trans hsame⟩
  induction retries generalizing s faults backoff with
  | zero =>
    obtain rfl := length_eq_zero_iff.mp (Nat.le_zero.mp hlen)
    exact hexec h
  | succ retries ih =>
    cases faults with
    | nil =>
      by_cases hfails : FailsTransiently (faulty call (s, [])).2
      · -- an error of the store itself can look transient, and comes back each time
        rw [executeWithRetry_of_transient hfails]
        exact ih (Nat.zero_le _) hfaults _ (Or.inr (hexec h).1)
      · rw [executeWithRetry_of_not_transient hfails]
        exact hexec h
    | cons fault faults =>
      obtain ⟨hfault, hrest⟩ := forall_mem_cons.mp hfaults
      rw [executeWithRetry_of_transient ⟨fault.error, rfl, hfault⟩]
      refine ih (Nat.le_of_succ_le_succ hlen) hrest _ ?_
      show (if fault.applied then (s.exec call).1 else s).Same _ ∨ _
      split
      · exact Or.inr (hexec h).1
      · exact h

/-- If no call meets more transient failures than there are retries, the retrying store answers
every sequence of calls as the plain one does, and the stores hold the same in the end. -/
theorem retried_answers_eq (maxRetries : ℕ) (backoff : UInt64) (store : MemoryObjectStorage)
    (calls : List (StorageCall × List StorageFault))
    (hcalls : ∀ call ∈ calls, call.2.length ≤ maxRetries ∧
      ∀ fault ∈ call.2, isTransient fault.error) :
    (answers (retried maxRetries backoff) store calls).1.Same
        (answers exec store (calls.map Prod.fst)).1 ∧
      (answers (retried maxRetries backoff) store calls).2 =
        (answers exec store (calls.map Prod.fst)).2 := by
  suffices h : ∀ s t : MemoryObjectStorage, s.Same t →
      (answers (retried maxRetries backoff) s calls).1.Same
          (answers exec t (calls.map Prod.fst)).1 ∧
        (answers (retried maxRetries backoff) s calls).2 =
          (answers exec t (calls.map Prod.fst)).2 from h store store ⟨rfl, rfl⟩
  induction calls with
  | nil => exact fun s t h => ⟨h, rfl⟩
  | cons call calls ih =>
    intro s t h
    obtain ⟨⟨hlen, hfaults⟩, hrest⟩ := forall_mem_cons.mp hcalls
    obtain ⟨hsame, hanswer⟩ := retried_call hlen hfaults backoff (Or.inl h)
    obtain ⟨hsame', hanswers⟩ := ih hrest _ _ hsame
    exact ⟨hsame', congrArg₂ List.cons hanswer hanswers⟩

/-- The first put fails after it took effect. -/
theorem retried_answers_eq_slowDown :
    isTransient (.storage "SlowDown") ∧
      (answers (retried 1 50) new [(.putObject "a" [1, 2], [⟨.storage "SlowDown", true⟩]),
        (.getObject "a", [])]).2 = [some (.ok .done), some (.ok (.bytes [1, 2]))] := by
  have ht : isTransient (.storage "SlowDown") := by decide +kernel
  refine ⟨ht, (retried_answers_eq 1 50 new _ ?_).2⟩
  simp [ht]

end MemoryObjectStorage

end OxideMq.Stream
