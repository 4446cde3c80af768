import OxideMq.Stream.Compactor

/-! Reads from the block cache. -/

namespace OxideMq.Stream

open Lib OxideMq.Core OxideMq.Wal S3Stream List Option

structure ColdStore (W : Type) where
  tiers : Tiers W
  streams : List S3Stream

inductive ColdAction where
  | create (streamId : ℕ) (startOffset : ℤ)
  | append (i : ℕ) (payload : Bytes) (recordCount : ℤ)
  | upload (i : ℕ) (startOffset endOffset : ℤ) (records : List Bytes)
  | fetch (i : ℕ) (startOffset : ℤ) (maxBytes : ℕ)
  | compact (i : ℕ) (targetObjectSize : ℕ)
  | trim (i : ℕ) (newStartOffset : ℤ)

def S3Stream.fromBlockCache {W : Type} (stream : S3Stream) (tiers : Tiers W) (startOffset : ℤ)
    (maxBytes : ℕ) : Option (S3ObjectMeta × Bytes) :=
  if startOffset < stream.startOffset ∨ startOffset ≥ stream.nextOffset then none
  else
    match tiers.logCache.readRange stream.streamId startOffset maxBytes with
    | some _ => none
    | none =>
        (stream.coveringObject startOffset).bind fun object =>
          (tiers.blockCache.get ⟨object.key, stream.streamId, object.startOffset⟩).2.map
            (object, ·)

namespace ColdStore

variable {W : Type}

def fresh (wal : W) (cacheBytes blockCacheBytes : ℕ) : ColdStore W :=
  ⟨⟨wal, ∅, LogCache.new cacheBytes, BlockCache.new blockCacheBytes⟩, []⟩

def on {α : Type} (s : ColdStore W) (i : ℕ)
    (op : S3Stream → Tiers W → S3Stream × Tiers W × α) : Option (ColdStore W) :=
  (s.streams[i]?).map fun stream =>
    ⟨(op stream s.tiers).2.1, s.streams.set i (op stream s.tiers).1⟩

def exec [WalEngine W] (s : ColdStore W) : ColdAction → Option (ColdStore W)
  | .create streamId startOffset =>
      some { s with streams := s.streams ++ [S3Stream.new streamId startOffset] }
  | .append i payload recordCount =>
      s.on i fun stream tiers => stream.appendWithCount tiers payload recordCount
  | .upload i startOffset endOffset records =>
      s.on i fun stream tiers => stream.uploadBatch tiers startOffset endOffset records
  | .fetch i startOffset maxBytes =>
      s.on i fun stream tiers => (stream, stream.fetch tiers startOffset maxBytes)
  | .compact i targetObjectSize =>
      s.on i fun stream tiers => stream.compactStream tiers targetObjectSize
  | .trim i newStartOffset => s.on i fun stream tiers => stream.trim tiers newStartOffset

def Current (s : ColdStore W) : ColdAction → Prop
  | .fetch i startOffset maxBytes =>
      ∀ stream ∈ s.streams[i]?,
        ∀ found ∈ stream.fromBlockCache s.tiers startOffset maxBytes,
          (stream.fetch s.tiers startOffset maxBytes).2 = .ok [(found.1.startOffset, found.2)] ∧
            Stored s.tiers ⟨found.1.key, stream.streamId, found.1.startOffset⟩ found.2
  | _ => True

def Present (s : ColdStore W) : ColdAction → Prop
  | .fetch i startOffset _ =>
      ∀ stream ∈ s.streams[i]?, ∀ object ∈ stream.coveringObject startOffset,
        (s.tiers.objects.lookup object.key).isSome = true
  | _ => True

def OneContent (content : String → Bytes) (s : ColdStore W) (action : ColdAction) : Prop :=
  (∀ entry ∈ s.tiers.objects.entries, entry.2 = content entry.1) ∧ s.Present action

instance (tiers : Tiers W) (key : BlockKey) (data : Bytes) : Decidable (Stored tiers key data) :=
  decidable_of_iff ((tiers.objects.lookup key.objectKey).bind
    (blockData · key.streamId key.startOffset) = some data) bind_eq_some_iff

instance (s : ColdStore W) : DecidablePred s.Current
  | .fetch .. => inferInstanceAs (Decidable (∀ _ ∈ _, _))
  | .create .. | .append .. | .upload .. | .compact .. | .trim .. => isTrue trivial

instance (s : ColdStore W) : DecidablePred s.Present
  | .fetch .. => inferInstanceAs (Decidable (∀ _ ∈ _, _))
  | .create .. | .append .. | .upload .. | .compact .. | .trim .. => isTrue trivial

instance (content : String → Bytes) (s : ColdStore W) (action : ColdAction) :
    Decidable (s.OneContent content action) :=
  inferInstanceAs (Decidable (_ ∧ _))

def CachedOf (content : String → Bytes) (s : ColdStore W) : Prop :=
  ∀ key data, s.tiers.blockCache.entries.lookup key = some data →
    blockData (content key.objectKey) key.streamId key.startOffset = some data

theorem fetch_of_fromBlockCache {str : S3Stream} {tiers : Tiers W} {start : ℤ} {limit : ℕ}
    {obj : S3ObjectMeta} {data : Bytes}
    (h : str.fromBlockCache tiers start limit = some (obj, data)) :
    (str.fetch tiers start limit).2 = .ok [(obj.startOffset, data)] ∧
      str.coveringObject start = some obj ∧
      tiers.blockCache.entries.lookup ⟨obj.key, str.streamId, obj.startOffset⟩ = some data := by
  unfold fromBlockCache at h
  split at h
  · cases h
  rename_i hin
  cases hread : tiers.logCache.readRange str.streamId start limit with
  | some res => simp [hread] at h
  | none =>
    simp only [hread, bind_eq_some_iff, map_eq_some_iff] at h
    obtain ⟨obj', hcov, data', hget, heq⟩ := h
    cases heq
    have hl := hget
    rw [BlockCache.get_snd] at hl
    have hblk : (fetchBlock str tiers obj).2 = .ok data := by
      unfold fetchBlock
      split
      · rename_i cache bytes h
        rw [h] at hget
        rw [some.inj hget]
      · rename_i cache h
        rw [h] at hget
        cases hget
    refine ⟨?_, hcov, hl⟩
    simp only [fetch, if_neg hin, hread, hcov]
    split
    · rename_i tiers' bytes h
      rw [h] at hblk
      rw [Except.ok.inj hblk]
    · rename_i tiers' e h
      rw [h] at hblk
      cases hblk

theorem cachedOf_on {α : Type} {content : String → Bytes} {s s' : ColdStore W} {i : ℕ}
    {op : S3Stream → Tiers W → S3Stream × Tiers W × α} (h : CachedOf content s)
    (hop : ∀ str, (op str s.tiers).2.1.blockCache = s.tiers.blockCache)
    (hon : s.on i op = some s') : CachedOf content s' := by
  obtain ⟨str, -, rfl⟩ := map_eq_some_iff.mp hon
  intro key data hl
  dsimp only at hl
  rw [hop str] at hl
  exact h key data hl

theorem cachedOf_exec [WalEngine W] {content : String → Bytes} (s : ColdStore W)
    (act : ColdAction) (s' : ColdStore W) (h : CachedOf content s)
    (hone : OneContent content s act) (hexec : s.exec act = some s') : CachedOf content s' := by
  cases act with
  | create sid start =>
    cases hexec
    exact h
  | fetch i start limit =>
    obtain ⟨str, -, rfl⟩ := map_eq_some_iff.mp hexec
    intro key data hl
    rcases (fetch_frame str s.tiers start limit).2.2 key data hl with hold | ⟨raw, hraw, hdata⟩
    · exact h key data hold
    · have hcontent : raw = content key.objectKey := hone.1 _ (HashMap.lookup_eq_some.mp hraw)
      exact hcontent ▸ hdata
  | append i payload cnt =>
    rw [exec] at hexec
    refine cachedOf_on h (fun str => ?_) hexec
    obtain ⟨_, -, heq⟩ | ⟨_, -, heq⟩ := appendWithCount_cases str s.tiers payload cnt
    · rw [heq]
    · rw [heq]
  | upload i start stop recs =>
    rw [exec] at hexec
    refine cachedOf_on h (fun str => ?_) hexec
    unfold uploadBatch
    split
    · rfl
    · rfl
  | compact i target =>
    rw [exec] at hexec
    refine cachedOf_on h (fun str => ?_) hexec
    obtain ⟨-, heq, -⟩ | ⟨_, -, heq⟩ := compactStream_cases str s.tiers target
    · rw [heq]
    · rw [heq]
  | trim i newStart =>
    rw [exec] at hexec
    refine cachedOf_on h (fun str => ?_) hexec
    unfold S3Stream.trim
    dsimp only
    split
    · rfl
    · rfl

theorem cold_reads_current [WalEngine W] (wal : W) (cacheBytes blockCacheBytes : ℕ)
    (content : String → Bytes) (actions : List ColdAction)
    (hone : Along exec (OneContent content) (fresh wal cacheBytes blockCacheBytes) actions) :
    Along exec Current (fresh wal cacheBytes blockCacheBytes) actions := by
  have hinit : CachedOf content (fresh wal cacheBytes blockCacheBytes) :=
    fun key data hl => by simp [fresh, BlockCache.new] at hl
  refine (Along.invariant cachedOf_exec hinit hone).imp fun s act ⟨hcached, hnames, hthere⟩ => ?_
  cases act with
  | fetch i start limit =>
    intro str hstr ⟨obj, data⟩ hfrom
    obtain ⟨hfetch, hcov, hl⟩ := fetch_of_fromBlockCache hfrom
    obtain ⟨raw, hraw⟩ := isSome_iff_exists.mp (hthere str hstr obj hcov)
    have hcontent : raw = content obj.key := hnames _ (HashMap.lookup_eq_some.mp hraw)
    exact ⟨hfetch, raw, hraw, hcontent ▸ hcached _ data hl⟩
  | _ => trivial

def oneCold (i : ℕ) (first : Bytes) : List ColdAction :=
  [.create 1 0, .append i first 1, .append i [0] 1, .upload i 0 0 [first]]

theorem cold_reads_current_of_two_fetches :
    Along exec Current (fresh MemoryWal.new 1 64) (oneCold 0 [7] ++ [.fetch 0 0 8, .fetch 0 0 8]) ∧
      (run exec (fresh MemoryWal.new 1 64) (oneCold 0 [7] ++ [.fetch 0 0 8])).bind (fun s =>
        (s.streams[0]?).bind fun stream =>
          (stream.fromBlockCache s.tiers 0 8).map Prod.snd) = some [7] :=
  ⟨cold_reads_current _ 1 64 (fun _ => S3ObjectCodec.encode [⟨1, 0, 0, 1, [7]⟩]) _
    (by decide +kernel), by decide +kernel⟩

theorem reused_id_reads_stale :
    ¬Along exec Current (fresh MemoryWal.new 1 64)
      (oneCold 0 [7] ++ .fetch 0 0 8 :: oneCold 1 [9] ++ [.fetch 1 0 8]) ∧
      ((run exec (fresh MemoryWal.new 1 64)
        (oneCold 0 [7] ++ .fetch 0 0 8 :: oneCold 1 [9])).bind fun s =>
          (s.streams[1]?).map fun stream => (stream.fetch s.tiers 0 8).2) = some (.ok [(0, [7])]) :=
  ⟨by decide +kernel, by decide +kernel⟩

end ColdStore

end OxideMq.Stream
