import OxideMq.Stream.S3Stream
import OxideMq.Lib.Run

/-! Any number of streams over the same tiers, with concurrent callers. -/

namespace OxideMq.Stream

open Lib OxideMq.Core OxideMq.Wal S3Stream List Option HashMap LogCache

structure Call where
  streamId : ℕ
  offset : ℤ
  payload : Bytes
  deriving DecidableEq, Repr

structure System (W : Type) where
  tiers : Tiers W
  streams : HashMap ℕ S3Stream
  reserved : List Call
  logged : List Call
  acked : List Call

inductive SystemAction where
  | create (streamId : ℕ) (startOffset : ℤ)
  | reserve (streamId : ℕ) (payload : Bytes) (recordCount : ℤ)
  | log (call : Call)
  | finish (call : Call)
  | upload (streamId : ℕ) (startOffset endOffset : ℤ) (records : List Bytes)
  | fetch (streamId : ℕ) (startOffset : ℤ) (maxBytes : ℕ)
  | reorder (streamId : ℕ)

namespace System

def init {W : Type} (wal : W) (cacheBytes blockCacheBytes : ℕ) : System W :=
  ⟨⟨wal, ∅, LogCache.new cacheBytes, BlockCache.new blockCacheBytes⟩, ∅, [], [], []⟩

variable {W : Type}
variable {sys sys' : System W} {streamId : ℕ} {call : Call} {payload : Bytes} {startOffset : ℤ}

def exec [WalEngine W] (sys : System W) : SystemAction → Option (System W)
  | .create streamId startOffset =>
      if (sys.streams.lookup streamId).isNone ∧ FitsSigned 64 startOffset then
        some { sys with
          streams := sys.streams.insert streamId (S3Stream.new streamId startOffset) }
      else none
  | .reserve streamId payload recordCount =>
      (sys.streams.lookup streamId).map fun stream =>
        { sys with
          streams := sys.streams.insert streamId { stream with
            nextOffset := wrapSigned 64 (stream.nextOffset + max recordCount 1) }
          reserved := ⟨streamId, stream.nextOffset, payload⟩ :: sys.reserved }
  | .log call =>
      if call ∈ sys.reserved then
        match WalEngine.append sys.tiers.wal call.streamId call.offset call.payload with
        | (wal, .ok _) => some { sys with
            tiers := { sys.tiers with wal := wal }
            reserved := sys.reserved.erase call
            logged := call :: sys.logged }
        | (wal, .error _) => some { sys with
            tiers := { sys.tiers with wal := wal }
            reserved := sys.reserved.erase call }
      else none
  | .finish call =>
      if call ∈ sys.logged then
        some { sys with
          tiers := { sys.tiers with
            logCache := sys.tiers.logCache.put call.streamId call.offset call.payload }
          logged := sys.logged.erase call
          acked := call :: sys.acked }
      else none
  | .upload streamId startOffset endOffset records =>
      (sys.streams.lookup streamId).map fun stream =>
        let (stream', tiers, _) := stream.uploadBatch sys.tiers startOffset endOffset records
        { sys with tiers := tiers, streams := sys.streams.insert streamId stream' }
  | .fetch streamId startOffset maxBytes =>
      (sys.streams.lookup streamId).map fun stream =>
        { sys with tiers := (stream.fetch sys.tiers startOffset maxBytes).1 }
  | .reorder streamId =>
      some { sys with
        tiers := { sys.tiers with logCache := sys.tiers.logCache.reorder streamId } }

def Uploaded (sys : System W) (streamId : ℕ) (offset : ℤ) (payload : Bytes) : Prop :=
  ∃ stream object raw, sys.streams.lookup streamId = some stream ∧
    stream.coveringObject offset = some object ∧ object.startOffset = offset ∧
    sys.tiers.objects.lookup object.key = some raw ∧
    S3Stream.blockData raw streamId offset = some payload

def Keeps (sys : System W) : SystemAction → Prop
  | .reserve streamId _ recordCount => ∀ stream, sys.streams.lookup streamId = some stream →
      stream.nextOffset + max recordCount 1 ≤ i64Max
  | .finish call => ∀ s o v, sys.tiers.logCache.get s o = some v →
      (sys.tiers.logCache.put call.streamId call.offset call.payload).get s o = none →
      Uploaded sys s o v
  | .upload streamId startOffset endOffset records => records ≠ [] →
      sys.tiers.objects.lookup (S3Stream.objectKey streamId startOffset endOffset) = none
  | _ => True

def InStream (sys : System W) (call : Call) : Prop :=
  ∃ stream, sys.streams.lookup call.streamId = some stream ∧
    stream.startOffset ≤ call.offset ∧ call.offset < stream.nextOffset

def calls (sys : System W) : List Call := sys.reserved ++ sys.logged ++ sys.acked

structure Readable (sys : System W) : Prop where
  ids : ∀ streamId stream, sys.streams.lookup streamId = some stream →
    stream.streamId = streamId ∧ stream.startOffset ≤ stream.nextOffset ∧
      FitsSigned 64 stream.nextOffset
  inStream : ∀ call ∈ sys.calls, InStream sys call
  distinct : (sys.calls.map fun call => (call.streamId, call.offset)).Nodup
  cached : ∀ s o v, sys.tiers.logCache.get s o = some v → ⟨s, o, v⟩ ∈ sys.acked
  readable : ∀ call ∈ sys.acked,
    sys.tiers.logCache.get call.streamId call.offset = some call.payload ∨
      Uploaded sys call.streamId call.offset call.payload
  coherent : S3Stream.Coherent sys.tiers

def Forward (sys sys' : System W) : Prop :=
  ∀ streamId stream, sys.streams.lookup streamId = some stream →
    ∃ stream', sys'.streams.lookup streamId = some stream' ∧
      stream'.startOffset = stream.startOffset ∧ stream.nextOffset ≤ stream'.nextOffset ∧
      stream.s3Objects <+: stream'.s3Objects

theorem Forward.of_streams_eq (h : sys'.streams = sys.streams) : Forward sys sys' := by
  intro streamId str hstr
  exact ⟨str, by rw [h, hstr], rfl, le_rfl, prefix_rfl⟩

theorem Forward.of_insert {str str' : S3Stream} (hold : sys.streams.lookup streamId = some str)
    (hnew : sys'.streams = sys.streams.insert streamId str')
    (hstart : str'.startOffset = str.startOffset)
    (hnext : str.nextOffset ≤ str'.nextOffset)
    (hobjs : str.s3Objects <+: str'.s3Objects) : Forward sys sys' := by
  intro id s hs
  rw [hnew, lookup_insert_ite]
  by_cases hid : id = streamId
  · subst hid
    rw [hold] at hs
    cases hs
    exact ⟨str', by rw [if_pos rfl], hstart, hnext, hobjs⟩
  · exact ⟨s, by rw [if_neg hid, hs], rfl, le_rfl, prefix_rfl⟩

theorem InStream.forward (h : InStream sys call) (hfwd : Forward sys sys') :
    InStream sys' call := by
  obtain ⟨str, hstr, hlo, hhi⟩ := h
  obtain ⟨str', hstr', hstart, hnext, -⟩ := hfwd _ _ hstr
  exact ⟨str', hstr', by omega, by omega⟩

theorem Uploaded.forward {off : ℤ} (h : Uploaded sys streamId off payload)
    (hfwd : Forward sys sys') (hobjs : ∀ key raw, sys.tiers.objects.lookup key = some raw →
      sys'.tiers.objects.lookup key = some raw) : Uploaded sys' streamId off payload := by
  obtain ⟨str, obj, raw, hstr, hcov, hstart, hraw, hdata⟩ := h
  obtain ⟨str', hstr', -, -, more, hmore⟩ := hfwd _ _ hstr
  refine ⟨str', obj, raw, hstr', ?_, hstart, hobjs _ _ hraw, hdata⟩
  -- objects registered later come behind the one found
  rw [coveringObject] at hcov ⊢
  rw [← hmore, find?_append, hcov, some_or]

theorem Readable.of_caches_eq (hsys : Readable sys) (hfwd : Forward sys sys')
    (hcache : sys'.tiers.logCache = sys.tiers.logCache)
    (hobjs : sys'.tiers.objects = sys.tiers.objects)
    (hblocks : sys'.tiers.blockCache = sys.tiers.blockCache) (hacked : sys'.acked = sys.acked)
    (hids : ∀ streamId str, sys'.streams.lookup streamId = some str →
      str.streamId = streamId ∧ str.startOffset ≤ str.nextOffset ∧
        FitsSigned 64 str.nextOffset) (hinStream : ∀ call ∈ sys'.calls, InStream sys' call)
    (hdist : (sys'.calls.map fun call => (call.streamId, call.offset)).Nodup) :
    Readable sys' := by
  refine ⟨hids, hinStream, hdist, ?_, ?_, ?_⟩
  · rw [hcache, hacked]
    exact hsys.cached
  · rw [hcache, hacked]
    intro call hcall
    refine (hsys.readable call hcall).imp_right fun h => h.forward hfwd ?_
    rw [hobjs]
    exact fun _ _ => id
  · intro key data hl
    rw [hblocks] at hl
    rw [hobjs]
    exact hsys.coherent key data hl

theorem readable_create [WalEngine W] (hsys : Readable sys)
    (hexec : exec sys (.create streamId startOffset) = some sys') :
    Readable sys' := by
  simp only [exec, ite_none_right_eq_some, some.injEq] at hexec
  obtain ⟨⟨hfresh, hfits⟩, rfl⟩ := hexec
  have hfwd : Forward sys { sys with
      streams := sys.streams.insert streamId (new streamId startOffset) } := by
    intro id str hstr
    have hid : id ≠ streamId := by
      rintro rfl
      simp [hstr] at hfresh
    exact ⟨str, by rw [lookup_insert_ite, if_neg hid, hstr], rfl, le_rfl, prefix_rfl⟩
  refine hsys.of_caches_eq hfwd rfl rfl rfl rfl ?_
    (fun call hcall => (hsys.inStream call hcall).forward hfwd) hsys.distinct
  intro id str hstr
  rw [lookup_insert_ite] at hstr
  split at hstr
  · rename_i hid
    cases hstr
    exact ⟨hid.symm, le_rfl, hfits⟩
  · exact hsys.ids id str hstr

theorem readable_reserve [WalEngine W] {cnt : ℤ} (hsys : Readable sys)
    (hk : Keeps sys (.reserve streamId payload cnt))
    (hexec : exec sys (.reserve streamId payload cnt) = some sys') : Readable sys' := by
  simp only [exec, map_eq_some_iff] at hexec
  obtain ⟨str, hstr, rfl⟩ := hexec
  obtain ⟨hid, hstart, hfits⟩ := hsys.ids streamId str hstr
  have hbd := hk str hstr
  have hfits' : FitsSigned 64 (str.nextOffset + max cnt 1) := by
    unfold FitsSigned at hfits ⊢
    unfold i64Max at hbd
    omega
  rw [wrapSigned_of_fits (by decide) hfits']
  let str' : S3Stream := { str with nextOffset := str.nextOffset + max cnt 1 }
  have hfwd : Forward sys { sys with
      streams := sys.streams.insert streamId str'
      reserved := ⟨streamId, str.nextOffset, payload⟩ :: sys.reserved } :=
    Forward.of_insert hstr rfl rfl (by dsimp only [str']; omega) prefix_rfl
  refine hsys.of_caches_eq hfwd rfl rfl rfl rfl ?_ ?_ ?_
  · intro id s hs
    rw [lookup_insert_ite] at hs
    split at hs
    · rename_i heq
      cases hs
      exact ⟨hid.trans heq.symm, by dsimp only [str']; omega, hfits'⟩
    · exact hsys.ids id s hs
  · intro call hcall
    rcases mem_cons.mp hcall with rfl | hcall
    · refine ⟨str', by rw [lookup_insert_ite, if_pos rfl], hstart, ?_⟩
      dsimp only [str']
      omega
    · exact (hsys.inStream call hcall).forward hfwd
  · -- the offsets handed out before are below the next one
    refine nodup_cons.mpr ⟨fun hmem => ?_, hsys.distinct⟩
    obtain ⟨call, hcall, heq⟩ := mem_map.mp hmem
    obtain ⟨str'', hstr'', -, hlt⟩ := hsys.inStream call hcall
    obtain ⟨hcallId, hcallOffset⟩ := Prod.mk.inj heq
    rw [hcallId, hstr] at hstr''
    cases hstr''
    dsimp only at hcallOffset
    omega

theorem perm_move {before after : List Call} (h : call ∈ before) :
    (before.erase call ++ call :: after).Perm (before ++ after) :=
  perm_middle.trans ((perm_cons_erase h).symm.append_right after)

theorem readable_log [WalEngine W] (hsys : Readable sys) (hexec : exec sys (.log call) = some sys') :
    Readable sys' := by
  simp only [exec, ite_none_right_eq_some] at hexec
  obtain ⟨hcall, hexec⟩ := hexec
  split at hexec
  · rename_i wal seq _
    cases hexec
    have hperm : (sys.reserved.erase call ++ call :: sys.logged ++ sys.acked).Perm sys.calls :=
      (perm_move hcall).append_right _
    refine hsys.of_caches_eq (Forward.of_streams_eq rfl) rfl rfl rfl rfl hsys.ids
      (fun c hc => hsys.inStream c (hperm.subset hc)) ?_
    exact (hperm.map _).nodup_iff.mpr hsys.distinct
  · rename_i wal e _
    cases hexec
    have hsub : (sys.reserved.erase call ++ sys.logged ++ sys.acked).Sublist sys.calls :=
      (erase_sublist.append_right _).append_right _
    refine hsys.of_caches_eq (Forward.of_streams_eq rfl) rfl rfl rfl rfl hsys.ids
      (fun c hc => hsys.inStream c (hsub.subset hc)) ?_
    exact hsys.distinct.sublist (hsub.map _)

theorem readable_finish [WalEngine W] (hsys : Readable sys) (hk : Keeps sys (.finish call))
    (hexec : exec sys (.finish call) = some sys') :
    Readable sys' := by
  simp only [exec, ite_none_right_eq_some, some.injEq] at hexec
  obtain ⟨hcall, rfl⟩ := hexec
  have hperm : (sys.reserved ++ sys.logged.erase call ++ call :: sys.acked).Perm sys.calls := by
    rw [calls, append_assoc, append_assoc]
    exact (perm_move hcall).append_left _
  -- no call that has returned has the offset of this one
  have hoth : ∀ c ∈ sys.acked, ¬(c.streamId = call.streamId ∧ c.offset = call.offset) := by
    rintro c hc ⟨hid, hoff⟩
    have hdist := hsys.distinct
    rw [calls, map_append, nodup_append] at hdist
    refine hdist.2.2 (call.streamId, call.offset) ?_ (c.streamId, c.offset)
      (mem_map.mpr ⟨c, hc, rfl⟩) (by rw [hid, hoff])
    exact mem_map.mpr ⟨call, mem_append_right _ hcall, rfl⟩
  refine ⟨hsys.ids, fun c hc => (hsys.inStream c (hperm.subset hc)).forward
    (Forward.of_streams_eq rfl), (hperm.map _).nodup_iff.mpr hsys.distinct, ?_, ?_, hsys.coherent⟩
  · intro s o v hget
    rcases get_of_get_put hget with ⟨rfl, rfl, rfl⟩ | hold
    · exact mem_cons_self
    · exact mem_cons_of_mem _ (hsys.cached s o v hold)
  · intro c hc
    rcases mem_cons.mp hc with rfl | hc
    · exact Or.inl (get_put_self _ _ _ _)
    rcases hsys.readable c hc with hcached | hup
    · cases hafter : (sys.tiers.logCache.put call.streamId call.offset call.payload).get
        c.streamId c.offset with
      | some v =>
        rcases get_of_get_put hafter with ⟨hid, hoff, -⟩ | hold
        · exact absurd ⟨hid, hoff⟩ (hoth c hc)
        · rw [hcached] at hold
          exact Or.inl hold.symm
      | none =>
        refine Or.inr ((hk _ _ _ hcached hafter).forward (Forward.of_streams_eq rfl) ?_)
        exact fun _ _ => id
    · exact Or.inr (hup.forward (Forward.of_streams_eq rfl) fun _ _ => id)

theorem readable_upload [WalEngine W] {endOffset : ℤ} {records : List Bytes} (hsys : Readable sys)
    (hk : Keeps sys (.upload streamId startOffset endOffset records))
    (hexec : exec sys (.upload streamId startOffset endOffset records) = some sys') :
    Readable sys' := by
  simp only [exec, map_eq_some_iff] at hexec
  obtain ⟨stream, hstr, rfl⟩ := hexec
  obtain ⟨hid, hstart, hfits⟩ := hsys.ids streamId stream hstr
  by_cases hrecs : records = []
  · -- nothing to upload: the stream is stored again as it was
    subst hrecs
    have hsame : ∀ id, (sys.streams.insert streamId stream).lookup id = sys.streams.lookup id := by
      intro id
      rw [lookup_insert_ite]
      split
      · rename_i heq
        rw [heq, hstr]
      · rfl
    have hfwd : Forward sys { sys with streams := sys.streams.insert streamId stream } :=
      Forward.of_insert hstr rfl rfl le_rfl prefix_rfl
    refine hsys.of_caches_eq hfwd rfl rfl rfl rfl (fun id s hs => ?_)
      (fun c hc => (hsys.inStream c hc).forward hfwd) hsys.distinct
    exact hsys.ids id s ((hsame id).symm.trans hs)
  have hfresh := hk hrecs
  have hnonempty : records.isEmpty = false := by simpa using hrecs
  simp only [uploadBatch, hnonempty, Bool.false_eq_true, if_false]
  -- storage keeps every object it had, since the new key was not in use
  have hobjs : ∀ (payload : Bytes) key raw, sys.tiers.objects.lookup key = some raw →
      (sys.tiers.objects.insert (objectKey stream.streamId startOffset endOffset)
        payload).lookup key = some raw := by
    intro payload key raw hraw
    have hne : key ≠ objectKey stream.streamId startOffset endOffset := by
      rintro rfl
      rw [hid, hfresh] at hraw
      simp at hraw
    rw [lookup_insert_ite, if_neg hne, hraw]
  have hfwd : ∀ (object : S3ObjectMeta) (tiers : Tiers W), Forward sys { sys with
      tiers := tiers
      streams := sys.streams.insert streamId { stream with
        s3Objects := stream.s3Objects ++ [object] } } :=
    fun _ _ => Forward.of_insert hstr rfl rfl le_rfl (prefix_append _ _)
  refine ⟨?_, fun c hc => (hsys.inStream c hc).forward (hfwd _ _), hsys.distinct,
    hsys.cached, fun c hc => (hsys.readable c hc).imp_right fun h =>
      h.forward (hfwd _ _) (hobjs _), ?_⟩
  · intro id s hs
    rw [lookup_insert_ite] at hs
    split at hs
    · rename_i heq
      cases hs
      exact ⟨hid.trans heq.symm, hstart, hfits⟩
    · exact hsys.ids id s hs
  · intro key data hl
    obtain ⟨raw, hraw, hdata⟩ := hsys.coherent key data hl
    exact ⟨raw, hobjs _ _ _ hraw, hdata⟩

theorem readable_fetch [WalEngine W] {limit : ℕ} (hsys : Readable sys)
    (hexec : exec sys (.fetch streamId startOffset limit) = some sys') : Readable sys' := by
  simp only [exec, map_eq_some_iff] at hexec
  obtain ⟨str, hstr, rfl⟩ := hexec
  obtain ⟨hobjs, hcache, -⟩ := fetch_frame str sys.tiers startOffset limit
  refine ⟨hsys.ids, fun c hc => (hsys.inStream c hc).forward (Forward.of_streams_eq rfl),
    hsys.distinct, ?_, ?_, hsys.coherent.fetch _ _ _⟩
  · dsimp only
    rw [hcache]
    exact hsys.cached
  · dsimp only
    rw [hcache]
    intro c hc
    refine (hsys.readable c hc).imp_right fun h => h.forward (Forward.of_streams_eq rfl) ?_
    rw [hobjs]
    exact fun _ _ => id

theorem readable_reorder [WalEngine W] (hsys : Readable sys)
    (hexec : exec sys (.reorder streamId) = some sys') : Readable sys' := by
  simp only [exec, some.injEq] at hexec
  subst hexec
  refine ⟨hsys.ids, fun c hc => (hsys.inStream c hc).forward (Forward.of_streams_eq rfl),
    hsys.distinct, ?_, ?_, hsys.coherent⟩
  · simp only [get_reorder]
    exact hsys.cached
  · simp only [get_reorder]
    exact fun c hc => (hsys.readable c hc).imp_right fun h =>
      h.forward (Forward.of_streams_eq rfl) fun _ _ => id

theorem readable_step [WalEngine W] (sys : System W) (act : SystemAction) (sys' : System W)
    (hsys : Readable sys) (hk : Keeps sys act) (hexec : exec sys act = some sys') :
    Readable sys' := by
  cases act with
  | create streamId startOffset => exact readable_create hsys hexec
  | reserve streamId payload cnt => exact readable_reserve hsys hk hexec
  | log call => exact readable_log hsys hexec
  | finish call => exact readable_finish hsys hk hexec
  | upload streamId startOffset stop recs => exact readable_upload hsys hk hexec
  | fetch streamId startOffset limit => exact readable_fetch hsys hexec
  | reorder streamId => exact readable_reorder hsys hexec

theorem readable_init (wal : W) (cacheBytes blockCacheBytes : ℕ) :
    Readable (init wal cacheBytes blockCacheBytes) := by
  refine ⟨fun _ _ h => ?_, fun _ h => ?_, nodup_nil, fun _ _ _ h => ?_, fun _ h => ?_,
    fun _ _ h => ?_⟩
  all_goals simp [init, calls, BlockCache.new] at h

theorem fetch_acked [WalEngine W] {wal : W} {cacheBytes blockCacheBytes : ℕ}
    {actions : List SystemAction} {sys : System W}
    (hkeeps : Along exec Keeps (init wal cacheBytes blockCacheBytes) actions)
    (hrun : run exec (init wal cacheBytes blockCacheBytes) actions = some sys)
    {call : Call} (hcall : call ∈ sys.acked) (maxBytes : ℕ) :
    ∃ stream rest, sys.streams.lookup call.streamId = some stream ∧
      (stream.fetch sys.tiers call.offset maxBytes).2 =
        .ok ((call.offset, call.payload) :: rest) := by
  have hsys := run_invariant readable_step (readable_init wal cacheBytes blockCacheBytes) hkeeps
    hrun
  obtain ⟨stream, hstr, hrange⟩ := hsys.inStream call (List.mem_append_right _ hcall)
  obtain ⟨hid, -, -⟩ := hsys.ids _ _ hstr
  cases hget : sys.tiers.logCache.get call.streamId call.offset with
  | some payload =>
    -- what the cache holds at this offset is what the call appended
    have hmem : (⟨call.streamId, call.offset, payload⟩ : Call) ∈ sys.calls :=
      List.mem_append_right _ (hsys.cached _ _ _ hget)
    have hsame : (⟨call.streamId, call.offset, payload⟩ : Call) = call :=
      List.inj_on_of_nodup_map hsys.distinct hmem (List.mem_append_right _ hcall) rfl
    have hpay : payload = call.payload := congrArg Call.payload hsame
    obtain ⟨rest, hfetch⟩ := fetch_of_cached hrange
      (show sys.tiers.logCache.get stream.streamId call.offset = some call.payload by
        rw [hid, hget, hpay]) maxBytes
    exact ⟨stream, rest, hstr, by rw [hfetch]⟩
  | none =>
    rcases hsys.readable call hcall with hcached | hup
    · rw [hget] at hcached
      simp at hcached
    · obtain ⟨str', obj, raw, hstr', hcov, hstart, hraw, hdata⟩ := hup
      rw [hstr] at hstr'
      cases hstr'
      refine ⟨stream, [], hstr, fetch_of_stored hsys.coherent hrange ?_ hcov
        hstart hraw ?_ maxBytes⟩
      · rw [hid, hget]
      · rw [hid, hdata]

theorem fetch_acked_one_batch : let call : Call := ⟨7, 0, [1, 2, 3]⟩
    ∃ (sys : System MemoryWal) (stream : S3Stream) (rest : List (ℤ × Bytes)),
      run exec (init MemoryWal.new 1024 1024)
        [.create 7 0, .reserve 7 [1, 2, 3] 1, .log call, .finish call] = some sys ∧
      sys.streams.lookup 7 = some stream ∧
      (stream.fetch sys.tiers 0 1).2 = .ok ((0, [1, 2, 3]) :: rest) := by
  intro call
  have hk : Along exec Keeps (init MemoryWal.new 1024 1024)
      [.create 7 0, .reserve 7 [1, 2, 3] 1, .log call, .finish call] := by
    refine .cons trivial rfl (.cons (fun stream hstr => ?_) rfl (.cons trivial rfl
      (.cons (fun s o v hcached _ => ?_) rfl trivial)))
    · rw [← Option.some.inj hstr]
      decide
    · simp [init] at hcached
  have hacked : call ∈ [call] := List.mem_cons_self
  obtain ⟨stream, rest, hstr, hfetch⟩ := fetch_acked hk rfl hacked 1
  exact ⟨_, stream, rest, rfl, hstr, hfetch⟩

theorem acked_lost_by_eviction :
    ∃ (actions : List SystemAction) (sys : System MemoryWal) (stream : S3Stream) (call : Call),
      run exec (init MemoryWal.new 4 1024) actions = some sys ∧ call ∈ sys.acked ∧
        sys.streams.lookup call.streamId = some stream ∧ stream.startOffset ≤ call.offset ∧
        (stream.fetch sys.tiers call.offset 1024).2 = .ok [] := by
  refine ⟨[.create 7 0, .reserve 7 [1, 2, 3] 1, .log ⟨7, 0, [1, 2, 3]⟩, .finish ⟨7, 0, [1, 2, 3]⟩,
    .reserve 7 [4, 5, 6] 1, .log ⟨7, 1, [4, 5, 6]⟩, .finish ⟨7, 1, [4, 5, 6]⟩], _, _,
    ⟨7, 0, [1, 2, 3]⟩, rfl, ?_, rfl, ?_, ?_⟩
  · decide
  · decide
  · rfl

end System

end OxideMq.Stream
