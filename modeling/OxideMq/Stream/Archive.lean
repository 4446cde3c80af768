import OxideMq.Stream.Compactor

/-! The objects of one stream over a run of uploads, compactions and trims. -/

namespace OxideMq.Stream

open Lib OxideMq.Core OxideMq.Wal S3Stream List

structure Archive (W : Type) where
  stream : S3Stream
  tiers : Tiers W
  uploaded : List S3DataBlock

inductive ArchiveAction (W : Type) where
  | upload (startOffset endOffset : ℤ) (records : List Bytes)
  | compact (targetObjectSize : ℕ)
  | trim (newStartOffset : ℤ)
  | meanwhile (startOffset nextOffset : ℤ) (wal : W) (logCache : LogCache)
      (blockCache : BlockCache)

namespace Archive

variable {W : Type}
variable {targetObjectSize : ℕ} {stream : S3Stream} {s s' : Archive W} {blocks : List S3DataBlock}
  {tiers : Tiers W} {startOffset : ℤ} {object : S3ObjectMeta}

def fresh (streamId : ℕ) (startOffset : ℤ) (tiers : Tiers W) : Archive W :=
  ⟨S3Stream.new streamId startOffset, tiers, []⟩

def uploadedBy (streamId : ℕ) (startOffset endOffset : ℤ) (records : List Bytes) :
    List S3DataBlock :=
  if records.isEmpty then []
  else [⟨streamId, startOffset, endOffset, records.length % 2 ^ 32, records.flatten⟩]

def compact (s : Archive W) (targetObjectSize : ℕ) : Archive W :=
  { s with
    stream := (s.stream.compactStream s.tiers targetObjectSize).1
    tiers := (s.stream.compactStream s.tiers targetObjectSize).2.1 }

def exec [WalEngine W] (s : Archive W) : ArchiveAction W → Option (Archive W)
  | .upload startOffset endOffset records =>
      let (stream, tiers, _) := s.stream.uploadBatch s.tiers startOffset endOffset records
      some ⟨stream, tiers,
        s.uploaded ++ uploadedBy s.stream.streamId startOffset endOffset records⟩
  | .compact targetObjectSize => some (s.compact targetObjectSize)
  | .trim newStartOffset =>
      let (stream, tiers, _) := s.stream.trim s.tiers newStartOffset
      some { s with stream := stream, tiers := tiers }
  | .meanwhile startOffset nextOffset wal logCache blockCache =>
      some { s with
        stream := { s.stream with startOffset := startOffset, nextOffset := nextOffset }
        tiers := ⟨wal, s.tiers.objects, logCache, blockCache⟩ }

/-- The offsets of an upload are of type `i64`. -/
def InRange : ArchiveAction W → Prop
  | .upload startOffset endOffset _ => FitsSigned 64 startOffset ∧ FitsSigned 64 endOffset
  | _ => True

def Present (s : Archive W) : Prop :=
  ∀ m ∈ s.stream.s3Objects, (s.tiers.objects.lookup m.key).isSome

instance (s : Archive W) : Decidable s.Present :=
  inferInstanceAs (Decidable (∀ _ ∈ _, _))

def heldBlocks (s : Archive W) : List S3DataBlock :=
  (s.stream.s3Objects.map S3ObjectMeta.key).dedup.flatMap (blocksAt s.tiers.objects)

def Safe (s : Archive W) : ArchiveAction W → Prop
  | .compact targetObjectSize =>
      ∀ blocks, s.stream.Merges s.tiers targetObjectSize blocks →
        (s.stream.keysToDelete targetObjectSize).Nodup ∧
        compactedKey s.stream.streamId (minOffset blocks) (maxOffset blocks) ∉
          s.stream.s3Objects.map S3ObjectMeta.key ∧
        blocks.length < 2 ^ 16
  | _ => True

theorem exec_upload [WalEngine W] {stop : ℤ} {recs : List Bytes}
    (h : s.exec (.upload startOffset stop recs) = some s') :
    s'.stream.streamId = s.stream.streamId ∧
      (s'.stream.s3Objects = s.stream.s3Objects ∧ s'.tiers.objects = s.tiers.objects ∧
          s'.uploaded = s.uploaded ∨
        recs ≠ [] ∧ ∃ block : S3DataBlock, ∃ size, block.startOffset = startOffset ∧
          block.endOffset = stop ∧
          s'.stream.s3Objects = s.stream.s3Objects ++
            [⟨objectKey s.stream.streamId startOffset stop, startOffset, stop,
              block.recordCount, size⟩] ∧
          s'.tiers.objects = s.tiers.objects.insert (objectKey s.stream.streamId startOffset stop)
            (S3ObjectCodec.encode [block]) ∧
          s'.uploaded = s.uploaded ++ [block]) := by
  cases hemp : recs.isEmpty with
  | true =>
    simp only [exec, uploadBatch, uploadedBy, hemp, if_true, append_nil] at h
    cases h
    exact ⟨rfl, Or.inl ⟨rfl, rfl, rfl⟩⟩
  | false =>
    simp only [exec, uploadBatch, uploadedBy, hemp, Bool.false_eq_true, if_false] at h
    cases h
    exact ⟨rfl, Or.inr ⟨by simpa using hemp, _, _, rfl, rfl, rfl, rfl, rfl⟩⟩

theorem exec_trim [WalEngine W] {newStart : ℤ} (h : s.exec (.trim newStart) = some s') :
    s'.stream.streamId = s.stream.streamId ∧ s'.uploaded = s.uploaded ∧
      (s'.stream.s3Objects = s.stream.s3Objects ∧ s'.tiers.objects = s.tiers.objects ∨
        s'.stream.s3Objects =
          s.stream.s3Objects.filter (fun m => !decide (m.endOffset < newStart)) ∧
        s'.tiers.objects = deleteObjects s.tiers.objects
          ((s.stream.s3Objects.filter fun m => decide (m.endOffset < newStart)).map
            S3ObjectMeta.key)) := by
  cases htrim : WalEngine.trim s.tiers.wal s.stream.streamId newStart with
  | mk wal res =>
    cases res with
    | error e =>
      simp only [exec, trim, htrim] at h
      cases h
      exact ⟨rfl, rfl, Or.inl ⟨rfl, rfl⟩⟩
    | ok done =>
      simp only [exec, trim, htrim] at h
      cases h
      exact ⟨rfl, rfl, Or.inr ⟨rfl, rfl⟩⟩

def merge (s : Archive W) (targetObjectSize : ℕ) (blocks : List S3DataBlock) : Archive W :=
  { s with
    stream := s.stream.replaceObjects (s.stream.keysToDelete targetObjectSize)
      (s.stream.compactedMeta blocks)
    tiers := { s.tiers with objects := s.stream.mergedStorage s.tiers targetObjectSize blocks } }

@[simp] theorem merge_objects (s : Archive W) (targetObjectSize : ℕ) (blocks : List S3DataBlock) :
    (s.merge targetObjectSize blocks).tiers.objects =
      s.stream.mergedStorage s.tiers targetObjectSize blocks := rfl

theorem compact_of_ok
    (hok : (s.stream.compactStream s.tiers targetObjectSize).2.2 = .ok (some object)) :
    ∃ blocks, s.stream.Merges s.tiers targetObjectSize blocks ∧
      s.compact targetObjectSize = s.merge targetObjectSize blocks := by
  rcases s.stream.compactStream_cases s.tiers targetObjectSize with
    ⟨-, -, hnone⟩ | ⟨blocks, hmerges, heq⟩
  · exact absurd hok (hnone object)
  · refine ⟨blocks, hmerges, ?_⟩
    rw [compact, heq, merge]

theorem compact_cases (s : Archive W) (target : ℕ) : s.compact target = s ∨
      ∃ blocks, s.stream.Merges s.tiers target blocks ∧
        s.compact target = s.merge target blocks := by
  rcases s.stream.compactStream_cases s.tiers target with
    ⟨hstream, htiers, -⟩ | ⟨blocks, hmerges, heq⟩
  · refine Or.inl ?_
    rw [compact, hstream, htiers]
  · refine Or.inr ⟨blocks, hmerges, ?_⟩
    rw [compact, heq, merge]

structure Sound (s : Archive W) : Prop where
  keyed : ∀ m ∈ s.stream.s3Objects, m.Keyed s.stream.streamId
  present : s.Present

theorem sound_fresh (sid : ℕ) (start : ℤ) (tiers : Tiers W) : Sound (fresh sid start tiers) :=
  ⟨by simp [fresh, new], by simp [Present, fresh, new]⟩

theorem keyed_upload {sid : ℕ} {stop : ℤ} {count size : ℕ}
    (hstart : FitsSigned 64 startOffset) (hend : FitsSigned 64 stop) :
    S3ObjectMeta.Keyed sid ⟨objectKey sid startOffset stop, startOffset, stop, count, size⟩ :=
  ⟨hstart, hend, names_objectKey sid startOffset stop⟩

theorem fits_of_merges (h : stream.Merges tiers targetObjectSize blocks) :
    ∀ b ∈ blocks, b.Fits := by
  intro b hb
  rw [readBlocks_eq_ok h.read, mem_flatMap] at hb
  obtain ⟨m, -, hm⟩ := hb
  exact blocksAt_fits hm

theorem keyed_compactedMeta (h : ∀ b ∈ blocks, b.Fits) :
    (stream.compactedMeta blocks).Keyed stream.streamId :=
  ⟨fits_minOffset h, fits_maxOffset h, names_compactedKey _ _ _⟩

theorem mem_replaceObjects {keysToDelete : List String} {m : S3ObjectMeta} :
    m ∈ (stream.replaceObjects keysToDelete object).s3Objects ↔
      (m ∈ stream.s3Objects ∧ m.key ∉ keysToDelete) ∨ m = object := by
  rw [replaceObjects, mem_insertionSort, mem_append, mem_singleton, mem_filter]
  simp

theorem lookup_mergedStorage (str : S3Stream) (tiers : Tiers W) (target : ℕ)
    (blks : List S3DataBlock) (key : String) :
    (str.mergedStorage tiers target blks).lookup key = if key ∈ str.keysToDelete target then none
      else if key = (str.compactedMeta blks).key then some (S3ObjectCodec.encode blks)
      else tiers.objects.lookup key := by
  rw [mergedStorage, lookup_deleteObjects, HashMap.lookup_insert_ite]

theorem keysToDelete_subset (str : S3Stream) (target : ℕ) :
    str.keysToDelete target ⊆ str.s3Objects.map S3ObjectMeta.key :=
  map_subset _ filter_sublist.subset

theorem Sound.compact (h : Sound s) (hsafe : s.Safe (.compact targetObjectSize)) :
    Sound (s.compact targetObjectSize) := by
  rcases s.compact_cases targetObjectSize with heq | ⟨blocks, hmerges, heq⟩
  · rw [heq]
    exact h
  · obtain ⟨-, hnew, -⟩ := hsafe blocks hmerges
    rw [heq]
    refine ⟨fun m hm => ?_, fun m hm => ?_⟩
    · rcases mem_replaceObjects.mp hm with ⟨hold, -⟩ | rfl
      · exact h.keyed m hold
      · exact keyed_compactedMeta (fits_of_merges hmerges)
    · rw [merge_objects, lookup_mergedStorage]
      rcases mem_replaceObjects.mp hm with ⟨hold, hkept⟩ | rfl
      · rw [if_neg hkept]
        split
        · rfl
        · exact h.present m hold
      · have hkept : (s.stream.compactedMeta blocks).key ∉ s.stream.keysToDelete targetObjectSize :=
          fun hdel => hnew (keysToDelete_subset _ _ hdel)
        rw [if_neg hkept, if_pos rfl]
        rfl

theorem Sound.upload [WalEngine W] (h : Sound s) {stop : ℤ} {recs : List Bytes}
    (hstart : FitsSigned 64 startOffset) (hend : FitsSigned 64 stop)
    (hexec : s.exec (.upload startOffset stop recs) = some s') : Sound s' := by
  obtain ⟨hid, ⟨hobjs, hstorage, -⟩ | ⟨-, block, size, -, -, hobjs, hstorage, -⟩⟩ :=
    exec_upload hexec
  · refine ⟨?_, ?_⟩
    · rw [hobjs, hid]
      exact h.keyed
    · rw [Present, hobjs, hstorage]
      exact h.present
  · refine ⟨?_, ?_⟩
    · rw [hobjs, hid, forall_mem_append, forall_mem_singleton]
      exact ⟨h.keyed, keyed_upload hstart hend⟩
    · rw [Present, hobjs, hstorage, forall_mem_append, forall_mem_singleton]
      refine ⟨fun m hm => ?_, by simp⟩
      rw [HashMap.lookup_insert_ite]
      split
      · rfl
      · exact h.present m hm

theorem Sound.trim [WalEngine W] (h : Sound s) {newStartOffset : ℤ}
    (hexec : s.exec (.trim newStartOffset) = some s') : Sound s' := by
  obtain ⟨hid, -, ⟨hobjs, hstorage⟩ | ⟨hobjs, hstorage⟩⟩ := exec_trim hexec
  · refine ⟨?_, ?_⟩
    · rw [hobjs, hid]
      exact h.keyed
    · rw [Present, hobjs, hstorage]
      exact h.present
  · have hold : ∀ m ∈ s'.stream.s3Objects,
        m ∈ s.stream.s3Objects ∧ newStartOffset ≤ m.endOffset := by
      intro m hm
      rw [hobjs, mem_filter] at hm
      simpa using hm
    refine ⟨fun m hm => hid ▸ h.keyed m (hold m hm).1, fun m hm => ?_⟩
    obtain ⟨hmem, habove⟩ := hold m hm
    rw [hstorage, lookup_deleteObjects, if_neg]
    · exact h.present m hmem
    · intro hdel
      obtain ⟨x, hx, hkey⟩ := mem_map.mp hdel
      obtain ⟨hxmem, hlt⟩ := mem_filter.mp hx
      have hend := ((h.keyed x hxmem).eq_of_key (h.keyed m hmem) hkey).2
      have hlt : x.endOffset < newStartOffset := of_decide_eq_true hlt
      omega

theorem sound_exec [WalEngine W] {act : ArchiveAction W} (h : Sound s) (hrange : InRange act)
    (hsafe : s.Safe act) (hexec : s.exec act = some s') :
    Sound s' := by
  cases act with
  | upload startOffset stop recs => exact h.upload hrange.1 hrange.2 hexec
  | compact targetObjectSize =>
    cases hexec
    exact h.compact hsafe
  | trim newStart => exact h.trim hexec
  | meanwhile startOffset nextOffset wal logCache blockCache =>
    cases hexec
    exact ⟨h.keyed, h.present⟩

def keptKeys (stream : S3Stream) (targetObjectSize : ℕ) : List String :=
  ((stream.s3Objects.map S3ObjectMeta.key).filter fun key =>
    !(stream.keysToDelete targetObjectSize).contains key).dedup

theorem mem_keptKeys {key : String} : key ∈ keptKeys stream targetObjectSize ↔
      key ∈ stream.s3Objects.map S3ObjectMeta.key ∧ key ∉ stream.keysToDelete targetObjectSize := by
  rw [keptKeys, mem_dedup, mem_filter]
  simp

theorem keys_perm_before (hnd : (stream.keysToDelete targetObjectSize).Nodup) :
    (stream.s3Objects.map S3ObjectMeta.key).dedup.Perm
      (keptKeys stream targetObjectSize ++ stream.keysToDelete targetObjectSize) := by
  have hapart : (keptKeys stream targetObjectSize ++ stream.keysToDelete targetObjectSize).Nodup :=
    (nodup_dedup _).append hnd fun key hkept hdel => (mem_keptKeys.mp hkept).2 hdel
  refine (perm_ext_iff_of_nodup (nodup_dedup _) hapart).mpr fun key => ?_
  rw [mem_dedup, mem_append, mem_keptKeys]
  constructor
  · intro hkey
    by_cases hdel : key ∈ stream.keysToDelete targetObjectSize
    · exact Or.inr hdel
    · exact Or.inl ⟨hkey, hdel⟩
  · rintro (⟨hkey, -⟩ | hdel)
    · exact hkey
    · exact keysToDelete_subset _ _ hdel

theorem keys_perm_after (target : ℕ) (hnew : object.key ∉ stream.s3Objects.map S3ObjectMeta.key) :
    ((stream.replaceObjects (stream.keysToDelete target) object).s3Objects.map
        S3ObjectMeta.key).dedup.Perm (keptKeys stream target ++ [object.key]) := by
  have hapart : (keptKeys stream target ++ [object.key]).Nodup := by
    refine (nodup_dedup _).append (nodup_singleton _) fun key hkept hobj => hnew ?_
    rw [← mem_singleton.mp hobj]
    exact (mem_keptKeys.mp hkept).1
  refine (perm_ext_iff_of_nodup (nodup_dedup _) hapart).mpr fun key => ?_
  rw [mem_dedup, mem_append, mem_singleton, mem_keptKeys, mem_map]
  constructor
  · rintro ⟨m, hm, rfl⟩
    rcases mem_replaceObjects.mp hm with ⟨hold, hkept⟩ | rfl
    · exact Or.inl ⟨mem_map_of_mem hold, hkept⟩
    · exact Or.inr rfl
  · rintro (⟨hkey, hkept⟩ | rfl)
    · obtain ⟨m, hm, rfl⟩ := mem_map.mp hkey
      exact ⟨m, mem_replaceObjects.mpr (Or.inl ⟨hm, hkept⟩), rfl⟩
    · exact ⟨object, mem_replaceObjects.mpr (Or.inr rfl), rfl⟩

theorem blocks_of_merges (h : stream.Merges tiers targetObjectSize blocks) :
    blocks = (stream.keysToDelete targetObjectSize).flatMap (blocksAt tiers.objects) := by
  rw [readBlocks_eq_ok h.read, keysToDelete, flatMap_map]

theorem blocksAt_merged (hfits : ∀ b ∈ blocks, b.Fits)
    (hkept : (stream.compactedMeta blocks).key ∉ stream.keysToDelete targetObjectSize) :
    blocksAt (stream.mergedStorage tiers targetObjectSize blocks)
        (stream.compactedMeta blocks).key =
      blocks.take (blocks.length % 2 ^ 16) := by
  have hl := lookup_mergedStorage stream tiers targetObjectSize blocks
    (stream.compactedMeta blocks).key
  rw [if_neg hkept, if_pos rfl] at hl
  simp only [blocksAt, hl, S3ObjectCodec.decodeAll_encode_take hfits]

theorem blocksAt_kept {key : String} (hkept : key ∉ stream.keysToDelete targetObjectSize)
    (hoth : key ≠ (stream.compactedMeta blocks).key) :
    blocksAt (stream.mergedStorage tiers targetObjectSize blocks) key =
      blocksAt tiers.objects key := by
  apply blocksAt_congr
  rw [lookup_mergedStorage, if_neg hkept, if_neg hoth]

theorem heldBlocks_compact (hsafe : s.Safe (.compact targetObjectSize)) :
    (s.compact targetObjectSize).heldBlocks.Perm s.heldBlocks := by
  rcases s.compact_cases targetObjectSize with heq | ⟨blocks, hmerges, heq⟩
  · rw [heq]
  · obtain ⟨hnd, hnew, hcnt⟩ := hsafe blocks hmerges
    have hnew : (s.stream.compactedMeta blocks).key ∉ s.stream.s3Objects.map S3ObjectMeta.key :=
      hnew
    have hkept : (s.stream.compactedMeta blocks).key ∉ s.stream.keysToDelete targetObjectSize :=
      fun hdel => hnew (keysToDelete_subset _ _ hdel)
    have hmerged : blocksAt (s.stream.mergedStorage s.tiers targetObjectSize blocks)
        (s.stream.compactedMeta blocks).key = blocks.take (blocks.length % 2 ^ 16) :=
      blocksAt_merged (fits_of_merges hmerges) hkept
    rw [Nat.mod_eq_of_lt hcnt, take_length] at hmerged
    have hoths : ∀ key ∈ keptKeys s.stream targetObjectSize,
        blocksAt (s.stream.mergedStorage s.tiers targetObjectSize blocks) key =
          blocksAt s.tiers.objects key := by
      intro key hkey
      obtain ⟨hreg, hstay⟩ := mem_keptKeys.mp hkey
      exact blocksAt_kept hstay fun hsame => hnew (hsame ▸ hreg)
    have hafter := (keys_perm_after targetObjectSize hnew).flatMap_right
      (blocksAt (s.stream.mergedStorage s.tiers targetObjectSize blocks))
    have hbef := (keys_perm_before hnd).flatMap_right (blocksAt s.tiers.objects)
    rw [flatMap_append, flatMap_singleton, hmerged, flatMap_congr hoths] at hafter
    rw [flatMap_append, ← blocks_of_merges hmerges] at hbef
    rw [heq]
    exact hafter.trans hbef.symm

theorem present_and_blocks_kept [WalEngine W] (streamId : ℕ) (startOffset : ℤ) (tiers : Tiers W)
    (actions : List (ArchiveAction W)) (s : Archive W)
    (hrange : ∀ action ∈ actions, InRange action)
    (hsafe : Along exec Safe (fresh streamId startOffset tiers) actions)
    (hrun : run exec (fresh streamId startOffset tiers) actions = some s) :
    s.Present ∧ ∀ targetObjectSize, s.Safe (.compact targetObjectSize) →
      (s.compact targetObjectSize).heldBlocks.Perm s.heldBlocks := by
  have hsound : Sound s := run_invariant (fun _ _ _ h hcond hexec => sound_exec h hcond.1 hcond.2 hexec)
    (sound_fresh streamId startOffset tiers) ((along_of_forall hrange).and hsafe) hrun
  exact ⟨hsound.present, fun targetObjectSize => heldBlocks_compact⟩

def emptyTiers : Tiers MemoryWal := ⟨MemoryWal.new, ∅, LogCache.new 64, BlockCache.new 64⟩

def twoUploads : List (ArchiveAction MemoryWal) := [.upload 0 4 [[1]], .upload 5 9 [[2]]]

def sameSpanTwice : List (ArchiveAction MemoryWal) :=
  twoUploads ++ [.compact 1000, .upload 2 3 [[3]], .compact 1000]

theorem twoUploads_kept : ∃ s, run exec (fresh 1 0 emptyTiers) twoUploads = some s ∧ s.Present ∧
      s.stream.s3Objects.length = 2 ∧ (s.compact 1000).stream.s3Objects.length = 1 ∧
      (s.compact 1000).heldBlocks.Perm s.heldBlocks := by
  have hchk : (run exec (fresh 1 0 emptyTiers) twoUploads).map (fun s =>
      (readBlocks s.tiers (s.stream.smallObjects 1000)).toOption.any fun blocks =>
        decide ((s.stream.s3Objects.length = 2 ∧
          (s.compact 1000).stream.s3Objects.length = 1) ∧
          (s.stream.keysToDelete 1000).Nodup ∧
          compactedKey s.stream.streamId (minOffset blocks) (maxOffset blocks) ∉
            s.stream.s3Objects.map S3ObjectMeta.key ∧
          blocks.length < 2 ^ 16)) = some true := by
    decide +kernel
  obtain ⟨s, hrun, hs⟩ := Option.map_eq_some_iff.mp hchk
  cases hread : readBlocks s.tiers (s.stream.smallObjects 1000) with
  | error e =>
    rw [hread] at hs
    cases hs
  | ok blocks =>
    rw [hread] at hs
    obtain ⟨hlens, hmerge⟩ := of_decide_eq_true hs
    have hsafe : s.Safe (.compact 1000) := by
      intro blks' hmerges
      cases hread.symm.trans hmerges.read
      exact hmerge
    obtain ⟨hpres, hkept⟩ := present_and_blocks_kept 1 0 emptyTiers twoUploads s
      (by simp [twoUploads, InRange, FitsSigned])
      ⟨trivial, fun _ _ => ⟨trivial, fun _ _ => trivial⟩⟩ hrun
    exact ⟨s, hrun, hpres, hlens.1, hlens.2, hkept 1000 hsafe⟩

theorem sameSpanTwice_dangles : ∃ s, run exec (fresh 1 0 emptyTiers) sameSpanTwice = some s ∧
      (∀ action ∈ sameSpanTwice, InRange action) ∧ ¬s.Present := by
  have hchk : (run exec (fresh 1 0 emptyTiers) sameSpanTwice).map (fun s => decide s.Present) =
      some false := by
    decide +kernel
  obtain ⟨s, hrun, hs⟩ := Option.map_eq_some_iff.mp hchk
  exact ⟨s, hrun, by simp [sameSpanTwice, twoUploads, InRange, FitsSigned], of_decide_eq_false hs⟩

end Archive

end OxideMq.Stream
