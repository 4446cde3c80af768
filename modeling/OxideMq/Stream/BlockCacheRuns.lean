import OxideMq.Lib.Run
import OxideMq.Stream.BlockCache

/-! The block cache over a run of calls. -/

namespace OxideMq.Stream

open Lib HashMap List Option

inductive BlockCacheCall where
  | get (key : BlockKey)
  | put (key : BlockKey) (data : Bytes)
  | clear
  deriving DecidableEq

namespace BlockCache

variable {cache : BlockCache} {key k : BlockKey} {data : Bytes}

structure InStep (cache : BlockCache) : Prop where
  nodup : cache.lruOrder.Nodup
  keys : ∀ k, k ∈ cache.lruOrder ↔ (cache.entries.lookup k).isSome

theorem evict_spec (n limit : ℕ) (lru : List BlockKey) (cur : ℕ) (m : HashMap BlockKey Bytes) :
    ∃ popped, lru = popped ++ (evict n limit lru cur m).1 ∧
      (∀ k, (evict n limit lru cur m).2.2.lookup k = if k ∈ popped then none else m.lookup k) ∧
      (cur = total length m →
        (evict n limit lru cur m).2.1 = total length (evict n limit lru cur m).2.2) ∧
      ((evict n limit lru cur m).2.1 + n ≤ limit ∨ (evict n limit lru cur m).1 = []) := by
  induction lru generalizing cur m with
  | nil => exact ⟨[], rfl, by simp [evict], id, Or.inr rfl⟩
  | cons old lru ih =>
    rw [evict]
    split
    · obtain ⟨popped, hlru, hl, hsum, hstop⟩ := ih (cur - ((m.lookup old).getD []).length)
        (m.erase old)
      refine ⟨old :: popped, congrArg (old :: ·) hlru, fun k => ?_, fun hcur => hsum ?_, hstop⟩
      · rw [hl, lookup_erase_ite]
        by_cases hk : k = old
        · simp [hk]
        · simp [hk]
      · have hrest := total_erase length m old
        cases hold : m.lookup old with
        | none =>
          rw [hold, map_none, getD_none] at hrest
          rw [getD_none, length_nil]
          omega
        | some v =>
          rw [hold, map_some, getD_some] at hrest
          rw [getD_some]
          omega
    · rename_i hfits
      exact ⟨[], rfl, by simp, id, Or.inl (not_lt.mp hfits)⟩

theorem put_spec (h : cache.InStep) (key : BlockKey) (data : Bytes) : ∃ popped rest,
    cache.lruOrder = popped ++ rest ∧ (cache.put key data).lruOrder = rest.erase key ++ [key] ∧
    ∀ k, (evict data.length cache.maxBytes cache.lruOrder cache.currentBytes
      cache.entries).2.2.lookup k = if k ∈ popped then none else cache.entries.lookup k := by
  obtain ⟨popped, hlru, hl, -⟩ := evict_spec data.length cache.maxBytes cache.lruOrder
    cache.currentBytes cache.entries
  refine ⟨popped, _, hlru, ?_, hl⟩
  simp only [put]
  split
  · rfl
  · rename_i hnone
    -- a key that is still queued has its entry
    rw [erase_of_not_mem]
    intro hkey
    have hnd := h.nodup
    have hmem := (h.keys key).mp (by rw [hlru]; exact mem_append_right _ hkey)
    rw [hlru] at hnd
    rw [hl, if_neg fun hpop => (nodup_append.mp hnd).2.2 key hpop key hkey rfl] at hnone
    exact hnone hmem

theorem lookup_put {popped : List BlockKey}
    (hl : ∀ k, (evict data.length cache.maxBytes cache.lruOrder cache.currentBytes
      cache.entries).2.2.lookup k = if k ∈ popped then none else cache.entries.lookup k)
    (k : BlockKey) : (cache.put key data).entries.lookup k =
      if k = key then some data else if k ∈ popped then none else cache.entries.lookup k := by
  simp only [put, lookup_insert_ite, hl]

theorem InStep.put (h : cache.InStep) : (cache.put key data).InStep := by
  obtain ⟨popped, rest, hlru, hput, hl⟩ := put_spec h key data
  have hnd := h.nodup
  rw [hlru, nodup_append] at hnd
  constructor
  · rw [hput, ← concat_eq_append]
    exact (hnd.2.1.erase key).concat hnd.2.1.not_mem_erase
  · intro k
    rw [hput, lookup_put hl, mem_append, mem_singleton, hnd.2.1.mem_erase_iff]
    have hk := h.keys k
    rw [hlru, mem_append] at hk
    by_cases hkey : k = key
    · simp [hkey]
    · by_cases hpop : k ∈ popped
      · have hrest : k ∉ rest := fun hrest => hnd.2.2 k hpop k hrest rfl
        simp [hkey, hpop, hrest]
      · simp [hkey, hpop] at hk ⊢
        exact hk

theorem InStep.touch (h : cache.InStep) (hkey : (cache.entries.lookup key).isSome) :
    (cache.touch key).InStep := by
  constructor
  · rw [BlockCache.touch, ← concat_eq_append]
    exact (h.nodup.erase key).concat h.nodup.not_mem_erase
  · intro k
    rw [BlockCache.touch, mem_append, mem_singleton, h.nodup.mem_erase_iff, h.keys]
    by_cases hk : k = key
    · subst hk
      simpa using hkey
    · simp [hk]

theorem inStep_clear : cache.clear.InStep := ⟨nodup_nil, by simp [clear]⟩

theorem inStep_new (limit : ℕ) : (new limit).InStep := ⟨nodup_nil, by simp [new]⟩

theorem get_fst (cache : BlockCache) (key : BlockKey) : (cache.get key).1 =
    if (cache.entries.lookup key).isSome then cache.touch key else cache := by
  unfold get
  split
  · rename_i h
    rw [h]
    rfl
  · rename_i h
    rw [h]
    rfl

structure Used where
  cache : BlockCache
  uses : List BlockKey

def Used.exec (s : Used) : BlockCacheCall → Used
  | .get key => ⟨(s.cache.get key).1, s.uses ++ if (s.cache.get key).2.isSome then [key] else []⟩
  | .put key data => ⟨s.cache.put key data, s.uses ++ [key]⟩
  | .clear => ⟨s.cache.clear, s.uses⟩

def after (maxBytes : ℕ) (calls : List BlockCacheCall) : Used :=
  calls.foldl Used.exec ⟨new maxBytes, []⟩

theorem after_concat (limit : ℕ) (calls : List BlockCacheCall) (call : BlockCacheCall) :
    after limit (calls ++ [call]) = (after limit calls).exec call := by
  rw [after, foldl_concat, after]

def UsedAfter (uses : List BlockKey) (evicted kept : BlockKey) : Prop :=
  ∃ before later, uses = before ++ kept :: later ∧ evicted ∉ kept :: later

theorem UsedAfter.concat {uses : List BlockKey} {a b : BlockKey} (h : UsedAfter uses a b)
    (ha : a ≠ k) : UsedAfter (uses ++ [k]) a b := by
  obtain ⟨before, later, rfl, hnot⟩ := h
  exact ⟨before, later ++ [k], by simp, by simpa [ha] using hnot⟩

structure Sound (limit : ℕ) (s : Used) : Prop where
  inStep : s.cache.InStep
  order : s.cache.lruOrder.Pairwise (UsedAfter s.uses)
  bytes : s.cache.currentBytes = total length s.cache.entries
  limit : s.cache.maxBytes = limit

theorem order_used {uses lru rest popped : List BlockKey} (h : lru.Pairwise (UsedAfter uses))
    (hnd : lru.Nodup) (hlru : lru = popped ++ rest) (key : BlockKey) :
    (rest.erase key ++ [key]).Pairwise (UsedAfter (uses ++ [key])) := by
  rw [hlru] at h hnd
  have hrest := (nodup_append.mp hnd).2.1
  refine pairwise_append.mpr ⟨?_, pairwise_singleton _ _, fun a ha b hb => ?_⟩
  · refine ((pairwise_append.mp h).2.1.sublist erase_sublist).imp_of_mem fun ha _ hab => ?_
    exact hab.concat fun heq => hrest.not_mem_erase (heq ▸ ha)
  · rw [mem_singleton.mp hb]
    refine ⟨uses, [], rfl, fun hmem => ?_⟩
    exact hrest.not_mem_erase (mem_singleton.mp hmem ▸ ha)

theorem currentBytes_put (h : cache.currentBytes = total length cache.entries) :
    (cache.put key data).currentBytes = total length (cache.put key data).entries := by
  obtain ⟨-, -, -, hsum, -⟩ := evict_spec data.length cache.maxBytes cache.lruOrder
    cache.currentBytes cache.entries
  simp only [put]
  generalize evict data.length cache.maxBytes cache.lruOrder cache.currentBytes cache.entries = r
    at hsum
  obtain ⟨lru, cur, m⟩ := r
  have hexact : cur = total length m := hsum h
  have hupd : total length (m.insert key data) + ((m.lookup key).map length).getD 0 =
      total length m + data.length := total_update length fun k => lookup_insert_ite m key k data
  have hle := total_erase length m key
  dsimp only
  cases hold : m.lookup key with
  | none =>
    rw [hold, map_none, getD_none] at hupd
    rw [getD_none, length_nil]
    omega
  | some v =>
    rw [hold, map_some, getD_some] at hupd hle
    rw [getD_some]
    omega

theorem Sound.exec {limit : ℕ} {s : Used} (h : Sound limit s) (call : BlockCacheCall) :
    Sound limit (s.exec call) := by
  cases call with
  | clear => exact ⟨inStep_clear, Pairwise.nil, rfl, h.limit⟩
  | put key data =>
    obtain ⟨popped, rest, hlru, hput, -⟩ := put_spec h.inStep key data
    refine ⟨h.inStep.put, ?_, currentBytes_put h.bytes, h.limit⟩
    rw [Used.exec, hput]
    exact order_used h.order h.inStep.nodup hlru key
  | get key =>
    rw [Used.exec, get_fst, get_snd]
    split
    · rename_i hkey
      exact ⟨h.inStep.touch hkey,
        order_used h.order h.inStep.nodup (nil_append _).symm key, h.bytes, h.limit⟩
    · rw [append_nil]
      exact h

theorem sound_after (limit : ℕ) (calls : List BlockCacheCall) : Sound limit (after limit calls) :=
  foldlRecOn calls Used.exec ⟨inStep_new limit, Pairwise.nil, rfl, rfl⟩ fun _ h call _ => h.exec call

def BlockCacheCall.putAt (key : BlockKey) : BlockCacheCall → Option Bytes
  | .put k data => if k = key then some data else none
  | _ => none

def lastPut (calls : List BlockCacheCall) (key : BlockKey) : Option Bytes :=
  calls.reverse.findSome? (BlockCacheCall.putAt key)

def RemovedSince (maxBytes : ℕ) (calls : List BlockCacheCall) (key : BlockKey) : Prop :=
  ∃ before call later, calls = before ++ call :: later ∧
    ((after maxBytes before).cache.entries.lookup key).isSome ∧
    (after maxBytes (before ++ [call])).cache.entries.lookup key = none ∧
    (call = .clear ∨ ∃ k data, call = .put k data) ∧
    ∀ c ∈ later, BlockCacheCall.putAt key c = none

theorem lookup_exec {s : Used} (h : s.cache.InStep) {call : BlockCacheCall}
    (hput : BlockCacheCall.putAt key call = none) :
    (s.exec call).cache.entries.lookup key = s.cache.entries.lookup key ∨
      (s.exec call).cache.entries.lookup key = none ∧
        (call = .clear ∨ ∃ k data, call = .put k data) := by
  cases call with
  | get k =>
    rw [Used.exec, entries_get]
    exact Or.inl rfl
  | clear => exact Or.inr ⟨rfl, Or.inl rfl⟩
  | put k data =>
    obtain ⟨popped, rest, -, -, hl⟩ := put_spec h k data
    have hne : key ≠ k := fun heq => by simp [BlockCacheCall.putAt, heq] at hput
    rw [Used.exec, lookup_put hl, if_neg hne]
    split
    · exact Or.inr ⟨rfl, Or.inr ⟨k, data, rfl⟩⟩
    · exact Or.inl rfl

theorem lookup_after (limit : ℕ) (calls : List BlockCacheCall) (key : BlockKey) :
    (after limit calls).cache.entries.lookup key = lastPut calls key ∨
      (after limit calls).cache.entries.lookup key = none ∧ RemovedSince limit calls key := by
  induction calls using reverseRecOn with
  | nil => exact Or.inl rfl
  | append_singleton calls call ih =>
    rw [after_concat, lastPut, reverse_concat, findSome?_cons, ← lastPut]
    cases hput : BlockCacheCall.putAt key call with
    | some data =>
      cases call with
      | put k d =>
        simp only [BlockCacheCall.putAt, ite_none_right_eq_some] at hput
        rw [Used.exec, hput.1, ← hput.2]
        exact Or.inl (lookup_put_self _ _ _)
      | _ => simp [BlockCacheCall.putAt] at hput
    | none =>
      dsimp only
      -- an entry that is gone was removed by this call, or before it
      have hext : RemovedSince limit calls key → RemovedSince limit (calls ++ [call]) key := by
        rintro ⟨before, c, later, rfl, hthere, hgone, hc, hlater⟩
        refine ⟨before, c, later ++ [call], by simp, hthere, hgone, hc, ?_⟩
        simpa [or_imp, forall_and, hput] using hlater
      rcases lookup_exec (sound_after limit calls).inStep hput with hsame | ⟨hnone, hcall⟩
      · rw [hsame]
        exact ih.imp_right (And.imp_right hext)
      · cases hbef : (after limit calls).cache.entries.lookup key with
        | some data =>
          refine Or.inr ⟨hnone, calls, call, [], rfl, by rw [hbef]; rfl, ?_, hcall, by simp⟩
          rw [after_concat, hnone]
        | none =>
          rw [hnone]
          rw [hbef] at ih
          exact ih.imp_right (And.imp_right hext)

def Evicts (cache : BlockCache) (data : Bytes) (key : BlockKey) : Prop :=
  (cache.entries.lookup key).isSome ∧
    (evict data.length cache.maxBytes cache.lruOrder cache.currentBytes
      cache.entries).2.2.lookup key = none

theorem lru_exact (maxBytes : ℕ) (calls : List BlockCacheCall) :
    (∀ key, ((after maxBytes calls).cache.get key).2 = lastPut calls key ∨
      ((after maxBytes calls).cache.get key).2 = none ∧ RemovedSince maxBytes calls key) ∧
    (after maxBytes calls).cache.currentBytes =
      total length (after maxBytes calls).cache.entries ∧
    ∀ key data,
      (((after maxBytes calls).cache.put key data).currentBytes ≤ maxBytes ∨
        ∀ k, (((after maxBytes calls).cache.put key data).entries.lookup k).isSome → k = key) ∧
      ∀ evicted kept, (after maxBytes calls).cache.Evicts data evicted → kept ≠ key →
        (((after maxBytes calls).cache.put key data).entries.lookup kept).isSome →
        UsedAfter (after maxBytes calls).uses evicted kept := by
  have h := sound_after maxBytes calls
  refine ⟨fun key => ?_, h.bytes, fun key data => ⟨?_, fun evicted kept hev hne hkept => ?_⟩⟩
  · rw [get_snd]
    exact lookup_after maxBytes calls key
  · obtain ⟨popped, hlru, hl, -, hstop⟩ := evict_spec data.length
      (after maxBytes calls).cache.maxBytes (after maxBytes calls).cache.lruOrder
      (after maxBytes calls).cache.currentBytes (after maxBytes calls).cache.entries
    refine hstop.imp (fun hfits => ?_) fun hnil k hk => ?_
    · exact ((Nat.add_le_add_right (Nat.sub_le _ _) _).trans hfits).trans h.limit.le
    · -- all keys were popped
      rw [hnil, append_nil] at hlru
      rw [lookup_put hl, ← hlru] at hk
      by_contra hne
      have hin := h.inStep.keys k
      by_cases hmem : k ∈ (after maxBytes calls).cache.lruOrder
      · simp [hne, hmem] at hk
      · simp [hne, hmem] at hk hin
        simp [hin] at hk
  · obtain ⟨popped, rest, hlru, -, hl⟩ := put_spec h.inStep key data
    rw [lookup_put hl, if_neg hne] at hkept
    have hpopped : evicted ∈ popped := by
      by_contra hnot
      have hgone := hev.2
      rw [hl, if_neg hnot] at hgone
      exact absurd hev.1 (by simp [hgone])
    have hrest : kept ∈ rest := by
      have hmem := (h.inStep.keys kept).mpr
      rw [hlru, mem_append] at hmem
      split at hkept
      · cases hkept
      · rename_i hnot
        exact (hmem hkept).resolve_left hnot
    have hord := h.order
    rw [hlru, pairwise_append] at hord
    exact hord.2.2 evicted hpopped kept hrest

end BlockCache

structure SharedBlockCache where
  cache : BlockCache
  found : ℕ → Option BlockKey

inductive BlockCacheStep where
  | lookup (thread : ℕ) (key : BlockKey)
  | touch (thread : ℕ)
  | put (thread : ℕ) (key : BlockKey) (data : Bytes)
  | clear (thread : ℕ)

namespace SharedBlockCache

def fresh (maxBytes : ℕ) : SharedBlockCache := ⟨BlockCache.new maxBytes, fun _ => none⟩

def exec (s : SharedBlockCache) : BlockCacheStep → Option SharedBlockCache
  | .lookup thread key =>
      if s.found thread = none then
        some { s with
          found := Function.update s.found thread
            (if (s.cache.entries.lookup key).isSome then some key else none) }
      else none
  | .touch thread =>
      (s.found thread).map fun key =>
        ⟨s.cache.touch key, Function.update s.found thread none⟩
  | .put thread key data =>
      if s.found thread = none then some { s with cache := s.cache.put key data } else none
  | .clear thread =>
      if s.found thread = none then some { s with cache := s.cache.clear } else none

def FindsCached (s : SharedBlockCache) : BlockCacheStep → Prop
  | .touch thread => (s.found thread).all fun key => (s.cache.entries.lookup key).isSome
  | _ => True

instance (s : SharedBlockCache) : (step : BlockCacheStep) → Decidable (s.FindsCached step)
  | .touch _ => inferInstanceAs (Decidable (_ = true))
  | .lookup _ _ | .put _ _ _ | .clear _ => isTrue trivial

theorem inStep_exec (s : SharedBlockCache) (step : BlockCacheStep) (s' : SharedBlockCache)
    (h : s.cache.InStep) (hcached : s.FindsCached step) (hexec : s.exec step = some s') : s'.cache.InStep := by
  cases step with
  | touch thread =>
    obtain ⟨key, hfound, rfl⟩ := map_eq_some_iff.mp hexec
    rw [FindsCached, hfound] at hcached
    exact h.touch hcached
  | lookup thread key =>
    obtain ⟨-, rfl⟩ := (ite_some_none_eq_some).mp hexec
    exact h
  | put thread key data =>
    obtain ⟨-, rfl⟩ := (ite_some_none_eq_some).mp hexec
    exact h.put
  | clear thread =>
    obtain ⟨-, rfl⟩ := (ite_some_none_eq_some).mp hexec
    exact BlockCache.inStep_clear

theorem interleaved_inStep (maxBytes : ℕ) (steps : List BlockCacheStep) (s : SharedBlockCache)
    (hcached : Along exec FindsCached (fresh maxBytes) steps)
    (hrun : run exec (fresh maxBytes) steps = some s) : s.cache.InStep :=
  run_invariant inStep_exec (BlockCache.inStep_new maxBytes) hcached hrun

theorem interleaved_inStep_of_two_gets : ∃ s,
    run exec (fresh 8) [.put 0 ⟨"a", 1, 0⟩ [1], .lookup 1 ⟨"a", 1, 0⟩, .lookup 2 ⟨"a", 1, 0⟩,
      .touch 2, .touch 1] = some s ∧ s.cache.InStep :=
  ⟨_, rfl, interleaved_inStep 8 [.put 0 ⟨"a", 1, 0⟩ [1], .lookup 1 ⟨"a", 1, 0⟩,
    .lookup 2 ⟨"a", 1, 0⟩, .touch 2, .touch 1] _ (by decide) rfl⟩

theorem cleared_key_queued : ∃ s,
    run exec (fresh 8) [.put 0 ⟨"a", 1, 0⟩ [1], .lookup 1 ⟨"a", 1, 0⟩, .clear 2, .touch 1] =
      some s ∧ (∀ thread, s.found thread = none) ∧ ¬s.cache.InStep := by
  refine ⟨_, rfl, fun thread => ?_, fun h => ?_⟩
  · by_cases hthread : thread = 1
    · rw [hthread]
      rfl
    · simp [Function.update_of_ne hthread, fresh]
  · have := (h.keys ⟨"a", 1, 0⟩).mp (by decide)
    revert this
    decide

end SharedBlockCache

end OxideMq.Stream
