import OxideMq.Lib.HashMap

/-! The cache of blocks decoded from object storage, with least-recently-used eviction. -/

namespace OxideMq.Stream

open Lib

structure BlockKey where
  objectKey : String
  streamId : ℕ
  startOffset : ℤ
  deriving DecidableEq, Repr

structure BlockCache where
  maxBytes : ℕ
  currentBytes : ℕ
  entries : HashMap BlockKey Bytes
  lruOrder : List BlockKey

namespace BlockCache

def new (maxBytes : ℕ) : BlockCache := ⟨maxBytes, 0, ∅, []⟩

def get (cache : BlockCache) (key : BlockKey) : BlockCache × Option Bytes :=
  match cache.entries.lookup key with
  | some data => ({ cache with lruOrder := cache.lruOrder.erase key ++ [key] }, some data)
  | none => (cache, none)

def evict (dataLen maxBytes : ℕ) : List BlockKey → ℕ → HashMap BlockKey Bytes →
    List BlockKey × ℕ × HashMap BlockKey Bytes
  | [], currentBytes, entries => ([], currentBytes, entries)
  | oldKey :: lru, currentBytes, entries =>
      if currentBytes + dataLen > maxBytes then
        evict dataLen maxBytes lru (currentBytes - ((entries.lookup oldKey).getD []).length)
          (entries.erase oldKey)
      else (oldKey :: lru, currentBytes, entries)

def put (cache : BlockCache) (key : BlockKey) (data : Bytes) : BlockCache :=
  let (lru, currentBytes, entries) :=
    evict data.length cache.maxBytes cache.lruOrder cache.currentBytes cache.entries
  let old := entries.lookup key
  { cache with
    currentBytes := currentBytes - (old.getD []).length + data.length
    entries := entries.insert key data
    lruOrder := (if old.isSome then lru.erase key else lru) ++ [key] }

def touch (cache : BlockCache) (key : BlockKey) : BlockCache :=
  { cache with lruOrder := cache.lruOrder.erase key ++ [key] }

def clear (cache : BlockCache) : BlockCache :=
  { cache with currentBytes := 0, entries := ∅, lruOrder := [] }

@[simp] theorem entries_get (cache : BlockCache) (key : BlockKey) :
    (cache.get key).1.entries = cache.entries := by
  unfold get
  split <;> rfl

theorem get_snd (cache : BlockCache) (key : BlockKey) :
    (cache.get key).2 = cache.entries.lookup key := by
  unfold get
  split
  · rename_i data h
    exact h.symm
  · rename_i h
    exact h.symm

theorem lookup_of_lookup_evict {dataLen limit currentBytes : ℕ} {lru : List BlockKey}
    {es : HashMap BlockKey Bytes} {key : BlockKey} {data : Bytes}
    (h : (evict dataLen limit lru currentBytes es).2.2.lookup key = some data) :
    es.lookup key = some data := by
  induction lru generalizing currentBytes es with
  | nil => exact h
  | cons oldKey lru ih =>
    rw [evict] at h
    split at h
    · have hrest := ih h
      rw [HashMap.lookup_erase_ite] at hrest
      split at hrest
      · simp at hrest
      · exact hrest
    · exact h

theorem lookup_of_lookup_put {cache : BlockCache} {key key' : BlockKey} {data data' : Bytes}
    (h : (cache.put key data).entries.lookup key' = some data') :
    key' = key ∧ data' = data ∨ cache.entries.lookup key' = some data' := by
  simp only [put, HashMap.lookup_insert_ite] at h
  split at h
  · rename_i hkey
    exact Or.inl ⟨hkey, (Option.some.inj h).symm⟩
  · exact Or.inr (lookup_of_lookup_evict h)

theorem lookup_put_self (cache : BlockCache) (key : BlockKey) (data : Bytes) :
    (cache.put key data).entries.lookup key = some data := by
  simp only [put, HashMap.lookup_insert_ite, if_true]

end BlockCache

end OxideMq.Stream
