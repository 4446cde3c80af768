import OxideMq.Wal.Engine
import OxideMq.Stream.LogCache
import OxideMq.Stream.BlockCache
import OxideMq.Stream.ObjectFormat

/-! A stream over three tiers: the write-ahead log takes every append, the log cache serves the
recent ones, and object storage, behind the block cache, those that were uploaded. -/

namespace OxideMq.Stream

open Lib OxideMq.Core OxideMq.Wal Option

structure Tiers (W : Type) where
  wal : W
  objects : HashMap String Bytes
  logCache : LogCache
  blockCache : BlockCache

structure S3ObjectMeta where
  key : String
  startOffset : ℤ
  endOffset : ℤ
  recordCount : ℕ
  sizeBytes : ℕ
  deriving DecidableEq, Repr

structure S3Stream where
  streamId : ℕ
  startOffset : ℤ
  nextOffset : ℤ
  s3Objects : List S3ObjectMeta
  deriving DecidableEq, Repr

namespace S3Stream

def new (streamId : ℕ) (startOffset : ℤ) : S3Stream := ⟨streamId, startOffset, startOffset, []⟩

variable {W : Type}
variable {stream : S3Stream} {tiers : Tiers W}

def cacheBlocks (objectKey : String) (streamId : ℕ) (startOffset : ℤ) :
    List S3DataBlock → BlockCache → Option Bytes → BlockCache × Option Bytes
  | [], cache, found => (cache, found)
  | b :: blocks, cache, found =>
      cacheBlocks objectKey streamId startOffset blocks
        (cache.put ⟨objectKey, b.streamId, b.startOffset⟩ b.data)
        (if b.streamId = streamId ∧ b.startOffset = startOffset then some b.data else found)

def getObject (tiers : Tiers W) (key : String) : Except OxideMqError Bytes :=
  match tiers.objects.lookup key with
  | some raw => .ok raw
  | none => .error (.storage ("Object not found: " ++ key))

def fetchBlock (stream : S3Stream) (tiers : Tiers W) (object : S3ObjectMeta) :
    Tiers W × Except OxideMqError Bytes :=
  match tiers.blockCache.get ⟨object.key, stream.streamId, object.startOffset⟩ with
  | (blockCache, some cachedBytes) => ({ tiers with blockCache := blockCache }, .ok cachedBytes)
  | (blockCache, none) =>
      match getObject tiers object.key with
      | .error e => ({ tiers with blockCache := blockCache }, .error e)
      | .ok rawObj =>
          match S3ObjectCodec.decodeAll rawObj with
          | .error e => ({ tiers with blockCache := blockCache }, .error e)
          | .ok blocks =>
              match cacheBlocks object.key stream.streamId object.startOffset blocks blockCache
                none with
              | (blockCache', some data) => ({ tiers with blockCache := blockCache' }, .ok data)
              | (blockCache', none) =>
                  ({ tiers with blockCache := blockCache' },
                    .error (.storage ("Block not found in S3 object " ++ object.key)))

def coveringObject (stream : S3Stream) (offset : ℤ) : Option S3ObjectMeta :=
  stream.s3Objects.find? fun object =>
    decide (object.startOffset ≤ offset ∧ offset ≤ object.endOffset)

def fetch (stream : S3Stream) (tiers : Tiers W) (startOffset : ℤ) (maxBytes : ℕ) :
    Tiers W × Except OxideMqError (List (ℤ × Bytes)) :=
  if startOffset < stream.startOffset ∨ startOffset ≥ stream.nextOffset then (tiers, .ok [])
  else
    match tiers.logCache.readRange stream.streamId startOffset maxBytes with
    | some cachedRecords => (tiers, .ok cachedRecords)
    | none =>
        match stream.coveringObject startOffset with
        | none => (tiers, .ok [])
        | some object =>
            match fetchBlock stream tiers object with
            | (tiers', .ok blockData) => (tiers', .ok [(object.startOffset, blockData)])
            | (tiers', .error e) => (tiers', .error e)

def objectKey (streamId : ℕ) (startOffset endOffset : ℤ) : String :=
  "streams/" ++ toString streamId ++ "/" ++ String.ofList (pad20 startOffset) ++ "_" ++
    String.ofList (pad20 endOffset) ++ ".data"

def advanceStartOffset (stream : S3Stream) (tiers : Tiers W) (newStartOffset : ℤ) :
    S3Stream × Tiers W × ℤ :=
  if newStartOffset > stream.startOffset then
    ({ stream with startOffset := newStartOffset },
      { tiers with logCache := tiers.logCache.trim stream.streamId newStartOffset },
      newStartOffset)
  else (stream, tiers, stream.startOffset)

def findBlock (streamId : ℕ) (startOffset : ℤ) :
    List S3DataBlock → Option Bytes → Option Bytes
  | [], found => found
  | b :: blocks, found =>
      findBlock streamId startOffset blocks
        (if b.streamId = streamId ∧ b.startOffset = startOffset then some b.data else found)

def blockData (raw : Bytes) (streamId : ℕ) (startOffset : ℤ) : Option Bytes :=
  match S3ObjectCodec.decodeAll raw with
  | .ok blocks => findBlock streamId startOffset blocks none
  | .error _ => none

theorem blockData_of_decodeAll {raw : Bytes} {blks : List S3DataBlock}
    (h : S3ObjectCodec.decodeAll raw = .ok blks) (sid : ℕ) (start : ℤ) :
    blockData raw sid start = findBlock sid start blks none := by
  unfold blockData
  rw [h]

theorem findBlock_or (sid : ℕ) (start : ℤ) (blks : List S3DataBlock) (found : Option Bytes) :
    findBlock sid start blks found = (findBlock sid start blks none).or found := by
  induction blks generalizing found with
  | nil => simp [findBlock]
  | cons b blks ih =>
    by_cases hkey : b.streamId = sid ∧ b.startOffset = start
    · simp only [findBlock, if_pos hkey]
      rw [ih, Option.or_assoc, Option.some_or]
    · simp only [findBlock, if_neg hkey]
      exact ih found

theorem cacheBlocks_snd (key : String) (sid : ℕ) (start : ℤ)
    (blks : List S3DataBlock) (cache : BlockCache) (found : Option Bytes) :
    (cacheBlocks key sid start blks cache found).2 = findBlock sid start blks found := by
  induction blks generalizing cache found with
  | nil => rfl
  | cons b blks ih => exact ih _ _

theorem lookup_cacheBlocks {objectKey : String} {sid : ℕ} {start : ℤ}
    {blks : List S3DataBlock} {cache : BlockCache} {found : Option Bytes} {key : BlockKey}
    {data : Bytes}
    (h : (cacheBlocks objectKey sid start blks cache found).1.entries.lookup key = some data) :
    (key.objectKey = objectKey ∧ findBlock key.streamId key.startOffset blks none = some data) ∨
    (cache.entries.lookup key = some data ∧
      (key.objectKey = objectKey → findBlock key.streamId key.startOffset blks none = none)) := by
  induction blks generalizing cache found with
  | nil => exact Or.inr ⟨h, fun _ => rfl⟩
  | cons b blks ih =>
    have hcons : findBlock key.streamId key.startOffset (b :: blks) none =
        (findBlock key.streamId key.startOffset blks none).or
          (if b.streamId = key.streamId ∧ b.startOffset = key.startOffset then some b.data
            else none) := by
      rw [findBlock, findBlock_or]
    rw [hcons]
    rcases ih h with ⟨hobj, hfound⟩ | ⟨hcached, hnone⟩
    · exact Or.inl ⟨hobj, by rw [hfound, some_or]⟩
    · by_cases hkey : key = ⟨objectKey, b.streamId, b.startOffset⟩
      · subst hkey
        rw [BlockCache.lookup_put_self] at hcached
        refine Or.inl ⟨rfl, ?_⟩
        rw [hnone rfl, none_or, if_pos ⟨rfl, rfl⟩, hcached]
      · rcases BlockCache.lookup_of_lookup_put hcached with ⟨heq, -⟩ | hold
        · exact absurd heq hkey
        · refine Or.inr ⟨hold, fun hobj => ?_⟩
          rw [hnone hobj, none_or, if_neg]
          rintro ⟨hstr, hstart⟩
          exact hkey (by rw [hstr, hstart, ← hobj])

def Coherent (tiers : Tiers W) : Prop :=
  ∀ key data, tiers.blockCache.entries.lookup key = some data →
    ∃ raw, tiers.objects.lookup key.objectKey = some raw ∧
      blockData raw key.streamId key.startOffset = some data

theorem fetchBlock_of_stored {obj : S3ObjectMeta} {raw data : Bytes} (hcoh : Coherent tiers)
    (hobj : tiers.objects.lookup obj.key = some raw)
    (hdata : blockData raw stream.streamId obj.startOffset = some data) :
    (fetchBlock stream tiers obj).2 = .ok data := by
  unfold fetchBlock
  split
  · rename_i blockCache cachedBytes hget
    have hl := BlockCache.get_snd tiers.blockCache ⟨obj.key, stream.streamId, obj.startOffset⟩
    rw [hget] at hl
    obtain ⟨raw', hobj', hdata'⟩ := hcoh _ _ hl.symm
    rw [hobj] at hobj'
    cases hobj'
    rw [hdata] at hdata'
    rw [some.inj hdata']
  · rename_i blockCache hget
    unfold blockData at hdata
    split at hdata
    · rename_i blks hdec
      simp only [getObject, hobj, hdec]
      have hfound := cacheBlocks_snd obj.key stream.streamId obj.startOffset blks blockCache none
      rw [hdata] at hfound
      split
      · rename_i blockCache' data' hloop
        rw [hloop] at hfound
        rw [some.inj hfound]
      · rename_i blockCache' hloop
        rw [hloop] at hfound
        simp at hfound
    · simp at hdata

def Stored (tiers : Tiers W) (key : BlockKey) (data : Bytes) : Prop :=
  ∃ raw, tiers.objects.lookup key.objectKey = some raw ∧
    blockData raw key.streamId key.startOffset = some data

theorem fetchBlock_frame (str : S3Stream) (tiers : Tiers W) (obj : S3ObjectMeta) :
    (fetchBlock str tiers obj).1.objects = tiers.objects ∧
      (fetchBlock str tiers obj).1.logCache = tiers.logCache ∧
      ∀ key data, (fetchBlock str tiers obj).1.blockCache.entries.lookup key = some data →
        tiers.blockCache.entries.lookup key = some data ∨ Stored tiers key data := by
  have hget : (tiers.blockCache.get ⟨obj.key, str.streamId, obj.startOffset⟩).1.entries =
      tiers.blockCache.entries := BlockCache.entries_get _ _
  -- the cache after the lookup has the entries it had before
  have hkept : ∀ blockCache : BlockCache, blockCache.entries = tiers.blockCache.entries →
      ∀ key data, blockCache.entries.lookup key = some data →
        tiers.blockCache.entries.lookup key = some data ∨ Stored tiers key data := by
    intro blockCache hentries key data hl
    exact Or.inl (hentries ▸ hl)
  unfold fetchBlock
  split
  · rename_i blockCache cachedBytes h
    rw [h] at hget
    exact ⟨rfl, rfl, hkept blockCache hget⟩
  · rename_i blockCache h
    rw [h] at hget
    cases hobj : getObject tiers obj.key with
    | error e => exact ⟨rfl, rfl, hkept blockCache hget⟩
    | ok raw =>
      dsimp only
      cases hdec : S3ObjectCodec.decodeAll raw with
      | error e => exact ⟨rfl, rfl, hkept blockCache hget⟩
      | ok blks =>
        have hraw : tiers.objects.lookup obj.key = some raw := by
          unfold getObject at hobj
          split at hobj
          · rename_i raw' hl
            rw [hl, Except.ok.inj hobj]
          · simp at hobj
        have hfilled : ∀ key data, (cacheBlocks obj.key str.streamId obj.startOffset blks
            blockCache none).1.entries.lookup key = some data →
            tiers.blockCache.entries.lookup key = some data ∨ Stored tiers key data := by
          intro key data hl
          rcases lookup_cacheBlocks hl with ⟨hkey, hfound⟩ | ⟨hold, -⟩
          · exact Or.inr ⟨raw, hkey ▸ hraw, by rw [blockData_of_decodeAll hdec, hfound]⟩
          · exact Or.inl (hget ▸ hold)
        dsimp only
        split
        · rename_i blockCache' data hloop
          rw [hloop] at hfilled
          exact ⟨rfl, rfl, hfilled⟩
        · rename_i blockCache' hloop
          rw [hloop] at hfilled
          exact ⟨rfl, rfl, hfilled⟩

theorem fetch_frame (str : S3Stream) (tiers : Tiers W) (start : ℤ) (limit : ℕ) :
    (str.fetch tiers start limit).1.objects = tiers.objects ∧
      (str.fetch tiers start limit).1.logCache = tiers.logCache ∧
      ∀ key data, (str.fetch tiers start limit).1.blockCache.entries.lookup key = some data →
        tiers.blockCache.entries.lookup key = some data ∨ Stored tiers key data := by
  unfold fetch
  split
  · exact ⟨rfl, rfl, fun _ _ => Or.inl⟩
  · split
    · exact ⟨rfl, rfl, fun _ _ => Or.inl⟩
    · split
      · exact ⟨rfl, rfl, fun _ _ => Or.inl⟩
      · rename_i obj _
        have hframe := fetchBlock_frame str tiers obj
        split
        · rename_i tiers' blockData h
          rw [h] at hframe
          exact hframe
        · rename_i tiers' e h
          rw [h] at hframe
          exact hframe

theorem Coherent.fetch (h : Coherent tiers) (str : S3Stream) (start : ℤ) (limit : ℕ) :
    Coherent (str.fetch tiers start limit).1 := by
  obtain ⟨hobjs, -, hread⟩ := fetch_frame str tiers start limit
  intro key data hl
  rw [hobjs]
  exact (hread key data hl).elim (h key data) id

theorem fetch_of_cached {off : ℤ} {payload : Bytes}
    (hrange : stream.startOffset ≤ off ∧ off < stream.nextOffset)
    (hcached : tiers.logCache.get stream.streamId off = some payload) (limit : ℕ) :
    ∃ rest, stream.fetch tiers off limit = (tiers, .ok ((off, payload) :: rest)) := by
  have hin : ¬(off < stream.startOffset ∨ off ≥ stream.nextOffset) := by omega
  cases hread : tiers.logCache.readRange stream.streamId off limit with
  | none =>
    rw [LogCache.readRange_eq_none.mp hread] at hcached
    simp at hcached
  | some res =>
    obtain ⟨⟨payload', rest, hget, hres⟩, -⟩ := LogCache.readRange_eq_some hread
    rw [hcached] at hget
    cases hget
    exact ⟨rest, by simp only [fetch, if_neg hin, hread, hres]⟩

theorem fetch_of_stored {off : ℤ} {payload raw : Bytes} {obj : S3ObjectMeta}
    (hcoh : Coherent tiers) (hrange : stream.startOffset ≤ off ∧ off < stream.nextOffset)
    (huncached : tiers.logCache.get stream.streamId off = none)
    (hcov : stream.coveringObject off = some obj) (hstart : obj.startOffset = off)
    (hobj : tiers.objects.lookup obj.key = some raw)
    (hdata : blockData raw stream.streamId off = some payload) (limit : ℕ) :
    (stream.fetch tiers off limit).2 = .ok [(off, payload)] := by
  have hin : ¬(off < stream.startOffset ∨ off ≥ stream.nextOffset) := by omega
  have hread : tiers.logCache.readRange stream.streamId off limit = none :=
    LogCache.readRange_eq_none.mpr huncached
  subst hstart
  have hblk := fetchBlock_of_stored hcoh hobj hdata
  simp only [fetch, if_neg hin, hread, hcov]
  split
  · rename_i tiers' blockData h
    rw [h] at hblk
    rw [Except.ok.inj hblk]
  · rename_i tiers' e h
    rw [h] at hblk
    simp at hblk

variable [WalEngine W]

def appendWithCount (stream : S3Stream) (tiers : Tiers W) (payload : Bytes) (recordCount : ℤ) :
    S3Stream × Tiers W × Except OxideMqError ℤ :=
  let count := max recordCount 1
  let offset := stream.nextOffset
  let stream' := { stream with nextOffset := wrapSigned 64 (offset + count) }
  match WalEngine.append tiers.wal stream.streamId offset payload with
  | (wal, .error e) => (stream', { tiers with wal := wal }, .error e)
  | (wal, .ok _) =>
      (stream', { tiers with
        wal := wal
        logCache := tiers.logCache.put stream.streamId offset payload }, .ok offset)

def uploadBatch (stream : S3Stream) (tiers : Tiers W) (startOffset endOffset : ℤ)
    (records : List Bytes) : S3Stream × Tiers W × Except OxideMqError String :=
  if records.isEmpty then (stream, tiers, .ok "")
  else
    let recordCount := records.length % 2 ^ 32
    let objectPayload := S3ObjectCodec.encode
      [⟨stream.streamId, startOffset, endOffset, recordCount, records.flatten⟩]
    let key := objectKey stream.streamId startOffset endOffset
    ({ stream with
        s3Objects := stream.s3Objects ++
          [⟨key, startOffset, endOffset, recordCount, objectPayload.length⟩] },
      { tiers with
        objects := tiers.objects.insert key objectPayload
        wal := (WalEngine.trim tiers.wal stream.streamId startOffset).1 },
      .ok key)

@[simp] theorem appendWithCount_stream (str : S3Stream) (tiers : Tiers W) (payload : Bytes)
    (cnt : ℤ) :
    (str.appendWithCount tiers payload cnt).1 = { str with
        nextOffset := wrapSigned 64 (str.nextOffset + max cnt 1) } := by
  unfold appendWithCount
  dsimp only
  split <;> rfl

theorem appendWithCount_cases (str : S3Stream) (tiers : Tiers W) (payload : Bytes) (cnt : ℤ) :
    (∃ seq, (WalEngine.append tiers.wal str.streamId str.nextOffset payload).2 = .ok seq ∧
      (str.appendWithCount tiers payload cnt).2 = ({ tiers with
          wal := (WalEngine.append tiers.wal str.streamId str.nextOffset payload).1
          logCache := tiers.logCache.put str.streamId str.nextOffset payload },
          .ok str.nextOffset)) ∨
    ∃ e, (WalEngine.append tiers.wal str.streamId str.nextOffset payload).2 = .error e ∧
      (str.appendWithCount tiers payload cnt).2 =
        ({ tiers with
          wal := (WalEngine.append tiers.wal str.streamId str.nextOffset payload).1 },
          .error e) := by
  unfold appendWithCount
  dsimp only
  split
  · rename_i wal e h
    exact Or.inr ⟨e, by rw [h], by rw [h]⟩
  · rename_i wal seq h
    exact Or.inl ⟨seq, by rw [h], by rw [h]⟩

end S3Stream

end OxideMq.Stream
