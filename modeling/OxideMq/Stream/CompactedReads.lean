import OxideMq.Stream.Archive

/-! Reading a stream after a compaction. -/

namespace OxideMq.Stream

open Lib OxideMq.Core OxideMq.Wal List S3Stream

def Holds {W : Type} (tiers : Tiers W) (key : BlockKey) (data : Bytes) : Prop :=
  match tiers.blockCache.entries.lookup key with
  | some cached => cached = data
  | none =>
      S3Stream.findBlock key.streamId key.startOffset (blocksAt tiers.objects key.objectKey) none =
        some data

namespace S3Stream

variable {W : Type}

theorem fetchBlock_eq_ok_iff {str : S3Stream} {tiers : Tiers W} {obj : S3ObjectMeta}
    {data : Bytes} :
    (fetchBlock str tiers obj).2 = .ok data ↔
      Holds tiers ⟨obj.key, str.streamId, obj.startOffset⟩ data := by
  have hcache := BlockCache.get_snd tiers.blockCache ⟨obj.key, str.streamId, obj.startOffset⟩
  unfold fetchBlock Holds
  rw [← hcache]
  split
  · rename_i blockCache cached hget
    rw [hget]
    simp
  · rename_i blockCache hget
    rw [hget]
    cases hl : tiers.objects.lookup obj.key with
    | none => simp [getObject, blocksAt, hl, findBlock]
    | some raw =>
      cases hdec : S3ObjectCodec.decodeAll raw with
      | error e => simp [getObject, blocksAt, hl, hdec, findBlock]
      | ok blocks =>
        have hfound := cacheBlocks_snd obj.key str.streamId obj.startOffset blocks blockCache none
        simp only [getObject, blocksAt, hl, hdec]
        rw [← hfound]
        split
        · rename_i cache' found hloop
          rw [hloop]
          simp
        · rename_i cache' hloop
          rw [hloop]
          simp

theorem fetch_eq_ok_iff {str : S3Stream} {tiers : Tiers W} {off start : ℤ}
    {limit : ℕ} {data : Bytes}
    (hrange : str.startOffset ≤ off ∧ off < str.nextOffset)
    (hmiss : tiers.logCache.readRange str.streamId off limit = none) :
    (str.fetch tiers off limit).2 = .ok [(start, data)] ↔
      ∃ obj, str.coveringObject off = some obj ∧ obj.startOffset = start ∧
        Holds tiers ⟨obj.key, str.streamId, start⟩ data := by
  have hin : ¬(off < str.startOffset ∨ off ≥ str.nextOffset) := by omega
  simp only [fetch, if_neg hin, hmiss]
  cases hcov : str.coveringObject off with
  | none => simp
  | some obj =>
    have hblk := @fetchBlock_eq_ok_iff W str tiers obj data
    dsimp only
    cases hfetch : fetchBlock str tiers obj with
    | mk tiers' res =>
      rw [hfetch] at hblk
      cases res with
      | error e =>
        refine ⟨fun h => by simp at h, ?_⟩
        rintro ⟨obj', hobj, rfl, hholds⟩
        cases hobj
        cases hblk.mpr hholds
      | ok blockData =>
        constructor
        · intro h
          obtain ⟨rfl, rfl⟩ : obj.startOffset = start ∧ blockData = data := by
            simpa using h
          exact ⟨obj, rfl, rfl, hblk.mp rfl⟩
        · rintro ⟨obj', hobj, rfl, hholds⟩
          cases hobj
          have hdata : blockData = data := Except.ok.inj (hblk.mpr hholds)
          rw [hdata]

end S3Stream

theorem find?_sorted_iff {α : Type} {rank : α → ℤ} {l : List α} {p : α → Bool} {Q : α → Prop}
    {x : ℤ} (hsort : l.Pairwise fun a b => rank a ≤ rank b)
    (hdist : ∀ a ∈ l, ∀ b ∈ l, rank a = rank b → a = b) :
    (∃ a, l.find? p = some a ∧ rank a = x ∧ Q a) ↔
      (∀ a ∈ l, p a = true → x ≤ rank a) ∧ ∃ a ∈ l, p a = true ∧ rank a = x ∧ Q a := by
  -- the first element that passes ranks lowest among those that do
  have hleast : ∀ a, l.find? p = some a → ∀ b ∈ l, p b = true → rank a ≤ rank b := by
    intro a hfind b hb hpass
    obtain ⟨-, front, rest, rfl, hfront⟩ := find?_eq_some_iff_append.mp hfind
    rcases mem_append.mp hb with hbef | hafter
    · have := hfront b hbef
      simp [hpass] at this
    · rcases mem_cons.mp hafter with rfl | hrest
      · exact le_rfl
      · exact (pairwise_cons.mp (pairwise_append.mp hsort).2.1).1 b hrest
  constructor
  · rintro ⟨a, hfind, rfl, hQ⟩
    exact ⟨hleast a hfind, a, mem_of_find?_eq_some hfind, find?_some hfind, rfl, hQ⟩
  · rintro ⟨hlow, b, hb, hpass, rfl, hQ⟩
    cases hfind : l.find? p with
    | none => exact absurd hpass (find?_eq_none.mp hfind b hb)
    | some a =>
      have ha := mem_of_find?_eq_some hfind
      have hrank : rank a = rank b :=
        le_antisymm (hleast a hfind b hb hpass) (hlow a ha (find?_some hfind))
      obtain rfl := hdist a ha b hb hrank
      exact ⟨a, rfl, rfl, hQ⟩

namespace Archive

variable {W : Type}
variable {s s' : Archive W} {targetObjectSize : ℕ} {blocks : List S3DataBlock}
  {a b m : S3ObjectMeta} {objects : HashMap String Bytes}

def Increasing (s : Archive W) : ArchiveAction W → Prop
  | .upload startOffset endOffset records => records ≠ [] →
      startOffset ≤ endOffset ∧ ∀ b ∈ s.uploaded, b.endOffset < startOffset
  | _ => True

def starts (objects : HashMap String Bytes) (m : S3ObjectMeta) : List ℤ :=
  m.startOffset :: (blocksAt objects m.key).map S3DataBlock.startOffset

instance (objects : HashMap String Bytes) :
    Std.Symm fun a b => (starts objects a).Disjoint (starts objects b) :=
  ⟨fun _ _ hdisjoint => hdisjoint.symm⟩

theorem starts_congr {objs' : HashMap String Bytes}
    (h : blocksAt objs' m.key = blocksAt objects m.key) :
    starts objs' m = starts objects m := by
  rw [starts, h, starts]

structure Apart (s : Archive W) : Prop where
  keyed : ∀ m ∈ s.stream.s3Objects, m.Keyed s.stream.streamId
  apart : s.stream.s3Objects.Pairwise fun a b =>
    (starts s.tiers.objects a).Disjoint (starts s.tiers.objects b)
  known : ∀ m ∈ s.stream.s3Objects, ∀ x ∈ starts s.tiers.objects m,
    ∃ b ∈ s.uploaded, b.startOffset = x
  forward : ∀ b ∈ s.uploaded, b.startOffset ≤ b.endOffset

theorem apart_fresh (sid : ℕ) (start : ℤ) (tiers : Tiers W) : Apart (fresh sid start tiers) := by
  refine ⟨?_, ?_, ?_, ?_⟩ <;> simp [fresh, new]

theorem Apart.eq_of_mem (h : Apart s) (ha : a ∈ s.stream.s3Objects) (hb : b ∈ s.stream.s3Objects)
    {x : ℤ} (hxa : x ∈ starts s.tiers.objects a) (hxb : x ∈ starts s.tiers.objects b) : a = b := by
  by_contra hne
  exact h.apart.forall ha hb hne hxa hxb

theorem Apart.eq_of_startOffset (h : Apart s) (ha : a ∈ s.stream.s3Objects)
    (hb : b ∈ s.stream.s3Objects) (hstart : a.startOffset = b.startOffset) : a = b :=
  h.eq_of_mem ha hb mem_cons_self (hstart ▸ mem_cons_self)

theorem Apart.eq_of_key (h : Apart s) (ha : a ∈ s.stream.s3Objects) (hb : b ∈ s.stream.s3Objects)
    (hkey : a.key = b.key) : a = b :=
  h.eq_of_startOffset ha hb ((h.keyed a ha).eq_of_key (h.keyed b hb) hkey).1

theorem Apart.of_sublist (h : Apart s) (hid : s'.stream.streamId = s.stream.streamId)
    (hup : s'.uploaded = s.uploaded)
    (hobjs : s'.stream.s3Objects.Sublist s.stream.s3Objects)
    (hstorage : ∀ m ∈ s'.stream.s3Objects,
      s'.tiers.objects.lookup m.key = s.tiers.objects.lookup m.key) : Apart s' := by
  have hstarts : ∀ m ∈ s'.stream.s3Objects, starts s'.tiers.objects m = starts s.tiers.objects m :=
    fun m hm => starts_congr (blocksAt_congr (hstorage m hm))
  refine ⟨fun m hm => hid ▸ h.keyed m (hobjs.subset hm), ?_, ?_, hup ▸ h.forward⟩
  · refine (h.apart.sublist hobjs).imp_of_mem fun ha hb hab => ?_
    rw [hstarts _ ha, hstarts _ hb]
    exact hab
  · intro m hm x hx
    rw [hstarts m hm] at hx
    rw [hup]
    exact h.known m (hobjs.subset hm) x hx

theorem Apart.trim [WalEngine W] (h : Apart s) {newStart : ℤ}
    (hexec : s.exec (.trim newStart) = some s') : Apart s' := by
  obtain ⟨hid, hup, ⟨hobjs, hstorage⟩ | ⟨hobjs, hstorage⟩⟩ := exec_trim hexec
  · exact h.of_sublist hid hup (by rw [hobjs]) fun m _ => by rw [hstorage]
  · refine h.of_sublist hid hup (by rw [hobjs]; exact filter_sublist) fun m hm => ?_
    rw [hobjs, mem_filter] at hm
    rw [hstorage, lookup_deleteObjects, if_neg]
    -- an object that is dropped has another key than one that stays
    intro hdel
    obtain ⟨x, hx, hkey⟩ := mem_map.mp hdel
    obtain ⟨hxmem, hxbelow⟩ := mem_filter.mp hx
    obtain rfl := h.eq_of_key hxmem hm.1 hkey
    simp [hxbelow] at hm

theorem starts_uploaded {block : S3DataBlock}
    (hl : objects.lookup m.key = some (S3ObjectCodec.encode [block]))
    (hstart : block.startOffset = m.startOffset) (hfits : FitsSigned 64 m.startOffset) :
    ∀ x ∈ starts objects m, x = m.startOffset := by
  refine forall_mem_cons.mpr ⟨rfl, ?_⟩
  intro x hx
  obtain ⟨b, hb, rfl⟩ := mem_map.mp hx
  obtain ⟨raw, blocks, hraw, hdec, hmem⟩ := exists_of_mem_blocksAt hb
  cases hl.symm.trans hraw
  exact (S3ObjectCodec.startOffset_of_singleton (hstart ▸ hfits) hdec b hmem).trans hstart

theorem Apart.upload [WalEngine W] (h : Apart s) {startOffset stop : ℤ} {recs : List Bytes}
    (hrange : FitsSigned 64 startOffset ∧ FitsSigned 64 stop)
    (hinc : s.Increasing (.upload startOffset stop recs))
    (hexec : s.exec (.upload startOffset stop recs) = some s') : Apart s' := by
  obtain ⟨hid, ⟨hobjs, hstorage, hup⟩ |
    ⟨hrecs, block, size, hstart, hend, hobjs, hstorage, hup⟩⟩ := exec_upload hexec
  · exact h.of_sublist hid hup (by rw [hobjs]) fun m _ => by rw [hstorage]
  · obtain ⟨hfwd, habove⟩ := hinc hrecs
    -- the new start is above those of all blocks so far
    have hnew : ∀ m ∈ s.stream.s3Objects, startOffset ∉ starts s.tiers.objects m := by
      intro m hm hmem
      obtain ⟨b, hb, hb'⟩ := h.known m hm startOffset hmem
      have := h.forward b hb
      have := habove b hb
      omega
    have hstarts : ∀ m ∈ s.stream.s3Objects,
        starts s'.tiers.objects m = starts s.tiers.objects m := by
      intro m hm
      refine starts_congr (blocksAt_congr ?_)
      rw [hstorage, HashMap.lookup_insert_ite, if_neg]
      intro hkey
      have hsame := (h.keyed m hm).names.unique (hkey ▸ names_objectKey _ _ _)
        (h.keyed m hm).startOffset (h.keyed m hm).endOffset hrange.1 hrange.2
      exact hnew m hm (hsame.1 ▸ mem_cons_self)
    have hblocks : ∀ x ∈ starts s'.tiers.objects
        ⟨objectKey s.stream.streamId startOffset stop, startOffset, stop,
          block.recordCount, size⟩, x = startOffset :=
      starts_uploaded (by rw [hstorage, HashMap.lookup_insert_ite, if_pos rfl]) hstart hrange.1
    refine ⟨?_, ?_, ?_, ?_⟩
    · rw [hobjs, hid, forall_mem_append, forall_mem_singleton]
      exact ⟨h.keyed, keyed_upload hrange.1 hrange.2⟩
    · rw [hobjs, pairwise_append]
      refine ⟨?_, pairwise_singleton _ _, fun m hm m' hm' => ?_⟩
      · refine h.apart.imp_of_mem fun ha hb hab => ?_
        rw [hstarts _ ha, hstarts _ hb]
        exact hab
      · rw [mem_singleton.mp hm', hstarts m hm]
        intro x hx hx'
        exact hnew m hm (hblocks x hx' ▸ hx)
    · rw [hobjs, hup, forall_mem_append, forall_mem_singleton]
      refine ⟨fun m hm x hx => ?_, fun x hx => ?_⟩
      · rw [hstarts m hm] at hx
        obtain ⟨b, hb, hbx⟩ := h.known m hm x hx
        exact ⟨b, mem_append_left _ hb, hbx⟩
      · exact ⟨block, by simp, hstart.trans (hblocks x hx).symm⟩
    · rw [hup, forall_mem_append, forall_mem_singleton, hstart, hend]
      exact ⟨h.forward, hfwd⟩

def mergedBlocks (s : Archive W) (targetObjectSize : ℕ) : List S3DataBlock :=
  (s.stream.smallObjects targetObjectSize).flatMap fun m => blocksAt s.tiers.objects m.key

theorem eq_mergedBlocks (h : s.stream.Merges s.tiers targetObjectSize blocks) :
    blocks = s.mergedBlocks targetObjectSize :=
  readBlocks_eq_ok h.read

theorem exists_small_of_mem {b : S3DataBlock} (hb : b ∈ s.mergedBlocks targetObjectSize) :
    ∃ m ∈ s.stream.s3Objects, m.sizeBytes < targetObjectSize ∧
      b.startOffset ∈ starts s.tiers.objects m := by
  obtain ⟨m, hm, hmem⟩ := mem_flatMap.mp hb
  obtain ⟨hreg, hsmall⟩ := mem_filter.mp hm
  exact ⟨m, hreg, of_decide_eq_true hsmall, mem_cons_of_mem _ (mem_map_of_mem hmem)⟩

theorem Apart.notMem_keysToDelete (h : Apart s) (hm : m ∈ s.stream.s3Objects) (target : ℕ) :
    
    m.key ∉ s.stream.keysToDelete target ↔ target ≤ m.sizeBytes := by
  rw [← not_lt, not_iff_not]
  constructor
  · intro hdel
    obtain ⟨x, hx, hkey⟩ := mem_map.mp hdel
    obtain ⟨hxmem, hsmall⟩ := mem_filter.mp hx
    obtain rfl := h.eq_of_key hxmem hm hkey
    exact of_decide_eq_true hsmall
  · intro hsmall
    exact mem_map_of_mem (mem_filter.mpr ⟨hm, decide_eq_true hsmall⟩)

theorem Apart.key_ne_compacted (h : Apart s)
    (hmerges : s.stream.Merges s.tiers targetObjectSize blocks) (hm : m ∈ s.stream.s3Objects)
    (hkept : m.key ∉ s.stream.keysToDelete targetObjectSize) :
    m.key ≠ (s.stream.compactedMeta blocks).key := by
  intro hkey
  have hfits := fits_of_merges hmerges
  have hstart : m.startOffset = minOffset blocks :=
    ((h.keyed m hm).eq_of_key (keyed_compactedMeta hfits) hkey).1
  obtain ⟨b, hb, hmin⟩ := exists_startOffset_eq_minOffset hfits hmerges.nonempty
  rw [eq_mergedBlocks hmerges] at hb
  obtain ⟨x, hx, hsmall, hmem⟩ := exists_small_of_mem hb
  rw [hmin, ← hstart] at hmem
  obtain rfl := h.eq_of_mem hm hx mem_cons_self hmem
  have hlarge := (h.notMem_keysToDelete hm targetObjectSize).mp hkept
  omega

theorem blocksAt_compacted (hmerges : s.stream.Merges s.tiers targetObjectSize blocks) :
    blocksAt (s.stream.mergedStorage s.tiers targetObjectSize blocks)
        (s.stream.compactedMeta blocks).key =
      if (s.stream.compactedMeta blocks).key ∈ s.stream.keysToDelete targetObjectSize then []
      else blocks.take (blocks.length % 2 ^ 16) := by
  split
  · rename_i hdel
    rw [blocksAt, lookup_mergedStorage, if_pos hdel]
  · rename_i hkept
    exact blocksAt_merged (fits_of_merges hmerges) hkept

theorem starts_compacted (hmerges : s.stream.Merges s.tiers targetObjectSize blocks) {x : ℤ}
    (hx : x ∈ starts (s.stream.mergedStorage s.tiers targetObjectSize blocks)
      (s.stream.compactedMeta blocks)) : ∃ b ∈ blocks, b.startOffset = x := by
  rcases mem_cons.mp hx with rfl | hblk
  · exact exists_startOffset_eq_minOffset (fits_of_merges hmerges) hmerges.nonempty
  · obtain ⟨b, hb, rfl⟩ := mem_map.mp hblk
    rw [blocksAt_compacted hmerges] at hb
    split at hb
    · simp at hb
    · exact ⟨b, mem_of_mem_take hb, rfl⟩

theorem Apart.merge (h : Apart s) (hmerges : s.stream.Merges s.tiers targetObjectSize blocks) :
    Apart (s.merge targetObjectSize blocks) := by
  have hkept : ∀ m ∈ s.stream.s3Objects, m.key ∉ s.stream.keysToDelete targetObjectSize →
      starts (s.stream.mergedStorage s.tiers targetObjectSize blocks) m =
        starts s.tiers.objects m := fun m hm hstay =>
    starts_congr (blocksAt_kept hstay (h.key_ne_compacted hmerges hm hstay))
  have hsmall : ∀ x ∈ starts (s.stream.mergedStorage s.tiers targetObjectSize blocks)
      (s.stream.compactedMeta blocks),
      ∃ m ∈ s.stream.s3Objects, m.sizeBytes < targetObjectSize ∧ x ∈ starts s.tiers.objects m := by
    intro x hx
    obtain ⟨b, hb, rfl⟩ := starts_compacted hmerges hx
    rw [eq_mergedBlocks hmerges] at hb
    exact exists_small_of_mem hb
  refine ⟨fun m hm => ?_, ?_, fun m hm x hx => ?_, h.forward⟩
  · rcases mem_replaceObjects.mp hm with ⟨hold, -⟩ | rfl
    · exact h.keyed m hold
    · exact keyed_compactedMeta (fits_of_merges hmerges)
  · refine ((perm_insertionSort _ _).pairwise_iff fun hd => hd.symm).mpr ?_
    rw [pairwise_append]
    refine ⟨?_, pairwise_singleton _ _, fun m hm m' hm' => ?_⟩
    · refine (h.apart.sublist filter_sublist).imp_of_mem fun {a b} ha hb hab => ?_
      obtain ⟨hamem, hastays⟩ := mem_filter.mp ha
      obtain ⟨hbmem, hbstays⟩ := mem_filter.mp hb
      rw [merge_objects, hkept a hamem (by simpa using hastays),
        hkept b hbmem (by simpa using hbstays)]
      exact hab
    · obtain ⟨hmem, hstay⟩ := mem_filter.mp hm
      have hstay : m.key ∉ s.stream.keysToDelete targetObjectSize := by simpa using hstay
      rw [merge_objects, mem_singleton.mp hm', hkept m hmem hstay]
      intro x hx hx'
      obtain ⟨y, hy, hysmall, hxy⟩ := hsmall x hx'
      obtain rfl := h.eq_of_mem hmem hy hx hxy
      have hlarge := (h.notMem_keysToDelete hmem targetObjectSize).mp hstay
      omega
  · rcases mem_replaceObjects.mp hm with ⟨hold, hstay⟩ | rfl
    · rw [merge_objects, hkept m hold hstay] at hx
      exact h.known m hold x hx
    · obtain ⟨y, hy, -, hxy⟩ := hsmall x hx
      exact h.known y hy x hxy

theorem Apart.compact (h : Apart s) (target : ℕ) : Apart (s.compact target) := by
  rcases s.compact_cases target with heq | ⟨blocks, hmerges, heq⟩
  · rw [heq]
    exact h
  · rw [heq]
    exact h.merge hmerges

theorem apart_exec [WalEngine W] {act : ArchiveAction W} (h : Apart s) (hrange : InRange act)
    (hinc : s.Increasing act) (hexec : s.exec act = some s') : Apart s' := by
  cases act with
  | upload start stop recs => exact h.upload hrange hinc hexec
  | compact targetObjectSize =>
    cases hexec
    exact h.compact targetObjectSize
  | trim newStart => exact h.trim hexec
  | meanwhile start nextOffset wal logCache blockCache =>
    cases hexec
    exact ⟨h.keyed, h.apart, h.known, h.forward⟩

def MergedHolds (s : Archive W) (targetObjectSize : ℕ) (start : ℤ) (data : Bytes) : Prop :=
  let blocks := s.mergedBlocks targetObjectSize
  let key := compactedKey s.stream.streamId (minOffset blocks) (maxOffset blocks)
  match s.tiers.blockCache.entries.lookup ⟨key, s.stream.streamId, start⟩ with
  | some cached => cached = data
  | none => key ∉ s.stream.keysToDelete targetObjectSize ∧
      S3Stream.findBlock s.stream.streamId start (blocks.take (blocks.length % 2 ^ 16)) none =
        some data

structure Kept (s : Archive W) (targetObjectSize : ℕ) (start : ℤ) (data : Bytes) (offset : ℤ) :
    Prop where
  large : ∀ m ∈ s.stream.s3Objects, targetObjectSize ≤ m.sizeBytes →
    m.startOffset < start → m.endOffset < offset
  span : minOffset (s.mergedBlocks targetObjectSize) < start →
    maxOffset (s.mergedBlocks targetObjectSize) < offset
  held : (∃ m ∈ s.stream.s3Objects, targetObjectSize ≤ m.sizeBytes ∧ m.startOffset = start ∧
      offset ≤ m.endOffset ∧ Holds s.tiers ⟨m.key, s.stream.streamId, start⟩ data) ∨
    (minOffset (s.mergedBlocks targetObjectSize) = start ∧
      offset ≤ maxOffset (s.mergedBlocks targetObjectSize) ∧
      s.MergedHolds targetObjectSize start data)

theorem Apart.holds_kept (h : Apart s) (hmerges : s.stream.Merges s.tiers targetObjectSize blocks)
    (hm : m ∈ s.stream.s3Objects) (hkept : m.key ∉ s.stream.keysToDelete targetObjectSize)
    (start : ℤ) (data : Bytes) :
    Holds { s.tiers with objects := s.stream.mergedStorage s.tiers targetObjectSize blocks }
        ⟨m.key, s.stream.streamId, start⟩ data ↔
      Holds s.tiers ⟨m.key, s.stream.streamId, start⟩ data := by
  simp only [Holds, blocksAt_kept hkept (h.key_ne_compacted hmerges hm hkept)]

theorem holds_compacted (hmerges : s.stream.Merges s.tiers targetObjectSize blocks) (start : ℤ)
    (data : Bytes) :
    Holds { s.tiers with objects := s.stream.mergedStorage s.tiers targetObjectSize blocks }
        ⟨(s.stream.compactedMeta blocks).key, s.stream.streamId, start⟩ data ↔
      s.MergedHolds targetObjectSize start data := by
  have hkey : (s.stream.compactedMeta blocks).key =
      compactedKey s.stream.streamId (minOffset blocks) (maxOffset blocks) := rfl
  rw [MergedHolds, ← eq_mergedBlocks hmerges, ← hkey, Holds]
  dsimp only
  split
  · exact Iff.rfl
  · rw [blocksAt_compacted hmerges]
    split
    · rename_i hdel
      simp [hdel, findBlock]
    · rename_i hkept
      simp [hkept]

theorem Apart.fetch_merge_iff (h : Apart s)
    (hmerges : s.stream.Merges s.tiers targetObjectSize blocks) {start offset : ℤ}
    (hstart : start ≤ offset) (data : Bytes) {maxBytes : ℕ}
    (hrange : s.stream.startOffset ≤ offset ∧ offset < s.stream.nextOffset)
    (hmiss : s.tiers.logCache.readRange s.stream.streamId offset maxBytes = none) :
    ((s.merge targetObjectSize blocks).stream.fetch (s.merge targetObjectSize blocks).tiers
        offset maxBytes).2 = .ok [(start, data)] ↔
      s.Kept targetObjectSize start data offset := by
  have hsort : (s.merge targetObjectSize blocks).stream.s3Objects.Pairwise
      fun a b => a.startOffset ≤ b.startOffset := pairwise_insertionSort _ _
  have hdist : ∀ a ∈ (s.merge targetObjectSize blocks).stream.s3Objects,
      ∀ b ∈ (s.merge targetObjectSize blocks).stream.s3Objects,
        a.startOffset = b.startOffset → a = b := fun a ha b hb =>
    (h.merge hmerges).eq_of_startOffset ha hb
  have hfetch := @fetch_eq_ok_iff W (s.merge targetObjectSize blocks).stream
    (s.merge targetObjectSize blocks).tiers offset start maxBytes data hrange hmiss
  rw [hfetch, coveringObject, find?_sorted_iff hsort hdist]
  have hmin : (s.stream.compactedMeta blocks).startOffset =
      minOffset (s.mergedBlocks targetObjectSize) := by rw [← eq_mergedBlocks hmerges]; rfl
  have hmax : (s.stream.compactedMeta blocks).endOffset =
      maxOffset (s.mergedBlocks targetObjectSize) := by rw [← eq_mergedBlocks hmerges]; rfl
  constructor
  · rintro ⟨hlow, m, hm, hcov, rfl, hholds⟩
    have hbef : ∀ x ∈ (s.merge targetObjectSize blocks).stream.s3Objects,
        x.startOffset < m.startOffset → x.endOffset < offset := by
      intro x hx hlt
      by_contra hreach
      have := hlow x hx (decide_eq_true ⟨by omega, by omega⟩)
      omega
    refine ⟨fun x hx hlarge => ?_, ?_, ?_⟩
    · exact hbef x (mem_replaceObjects.mpr
        (Or.inl ⟨hx, (h.notMem_keysToDelete hx targetObjectSize).mpr hlarge⟩))
    · rw [← hmin, ← hmax]
      exact hbef _ (mem_replaceObjects.mpr (Or.inr rfl))
    · have hcov := (of_decide_eq_true hcov).2
      rcases mem_replaceObjects.mp hm with ⟨hold, hkept⟩ | rfl
      · exact Or.inl ⟨m, hold, (h.notMem_keysToDelete hold targetObjectSize).mp hkept, rfl, hcov,
          (h.holds_kept hmerges hold hkept _ data).mp hholds⟩
      · refine Or.inr ⟨hmin.symm, hmax ▸ hcov, (holds_compacted hmerges _ data).mp hholds⟩
  · rintro ⟨hlarge, hspan, hheld⟩
    refine ⟨fun x hx hcov => ?_, ?_⟩
    · have hcov := of_decide_eq_true hcov
      by_contra hlt
      rcases mem_replaceObjects.mp hx with ⟨hold, hkept⟩ | rfl
      · have := hlarge x hold ((h.notMem_keysToDelete hold targetObjectSize).mp hkept) (by omega)
        omega
      · rw [hmin, hmax] at hcov
        rw [hmin] at hlt
        have := hspan (by omega)
        omega
    · rcases hheld with ⟨m, hm, hsize, rfl, hend, hholds⟩ | ⟨hfirst, hend, hholds⟩
      · have hkept := (h.notMem_keysToDelete hm targetObjectSize).mpr hsize
        exact ⟨m, mem_replaceObjects.mpr (Or.inl ⟨hm, hkept⟩), decide_eq_true ⟨hstart, hend⟩, rfl,
          (h.holds_kept hmerges hm hkept _ data).mpr hholds⟩
      · refine ⟨s.stream.compactedMeta blocks, mem_replaceObjects.mpr (Or.inr rfl),
          decide_eq_true ⟨?_, hmax ▸ hend⟩, hmin.trans hfirst,
          (holds_compacted hmerges _ data).mpr hholds⟩
        rw [hmin, hfirst]
        exact hstart

theorem fetch_compacted_iff [WalEngine W] {streamId : ℕ} {startOffset : ℤ} {tiers : Tiers W}
    {actions : List (ArchiveAction W)} {s : Archive W}
    (hrange : ∀ action ∈ actions, InRange action)
    (hincreasing : Along exec Increasing (fresh streamId startOffset tiers) actions)
    (hrun : run exec (fresh streamId startOffset tiers) actions = some s)
    {targetObjectSize : ℕ} {object : S3ObjectMeta}
    (hok : (s.stream.compactStream s.tiers targetObjectSize).2.2 = .ok (some object))
    {b : S3DataBlock} (_hb : b ∈ s.uploaded) {offset : ℤ}
    (hcover : b.startOffset ≤ offset ∧ offset ≤ b.endOffset) {maxBytes : ℕ}
    (hinside : s.stream.startOffset ≤ offset ∧ offset < s.stream.nextOffset)
    (hmiss : s.tiers.logCache.readRange s.stream.streamId offset maxBytes = none) :
    ((s.compact targetObjectSize).stream.fetch (s.compact targetObjectSize).tiers offset
        maxBytes).2 = .ok [(b.startOffset, b.data)] ↔
      s.Kept targetObjectSize b.startOffset b.data offset := by
  have hapart : Apart s := run_invariant
    (fun _ _ _ h hcond hexec => apart_exec h hcond.1 hcond.2 hexec)
    (apart_fresh streamId startOffset tiers) ((along_of_forall hrange).and hincreasing) hrun
  obtain ⟨blocks, hmerges, heq⟩ := compact_of_ok hok
  rw [heq]
  exact hapart.fetch_merge_iff hmerges hcover.1 b.data hinside hmiss

def twoCold : List (ArchiveAction MemoryWal) :=
  twoUploads ++ [.meanwhile 0 10 MemoryWal.new (LogCache.new 64) (BlockCache.new 64)]

def firstBlock : S3DataBlock := ⟨1, 0, 4, 1, [1]⟩

def secondBlock : S3DataBlock := ⟨1, 5, 9, 1, [2]⟩

theorem twoCold_inRange : ∀ action ∈ twoCold, InRange action := by
  simp [twoCold, twoUploads, InRange, FitsSigned]

theorem twoCold_increasing : Along exec Increasing (fresh 1 0 emptyTiers) twoCold := by
  refine ⟨fun _ => ⟨by norm_num, by simp [fresh]⟩, fun s hs => ⟨fun _ => ⟨by norm_num, ?_⟩,
    fun _ _ => ⟨trivial, fun _ _ => trivial⟩⟩⟩
  cases hs
  decide

def twoColdMeta : S3ObjectMeta := ⟨compactedKey 1 0 9, 0, 9, 2, 184⟩

theorem twoCold_first_kept : ∃ s, run exec (fresh 1 0 emptyTiers) twoCold = some s ∧
      s.Kept 1000 firstBlock.startOffset firstBlock.data 2 := by
  have hchk : (run exec (fresh 1 0 emptyTiers) twoCold).map (fun s =>
      decide ((s.stream.compactStream s.tiers 1000).2.2 = .ok (some twoColdMeta) ∧
        firstBlock ∈ s.uploaded ∧ (s.stream.startOffset ≤ 2 ∧ 2 < s.stream.nextOffset) ∧
        s.tiers.logCache.readRange s.stream.streamId 2 1024 = none ∧
        ((s.compact 1000).stream.fetch (s.compact 1000).tiers 2 1024).2 =
          .ok [(firstBlock.startOffset, firstBlock.data)])) = some true := by
    decide +kernel
  obtain ⟨s, hrun, hs⟩ := Option.map_eq_some_iff.mp hchk
  obtain ⟨hok, hmem, hin, hmiss, hfetch⟩ := of_decide_eq_true hs
  exact ⟨s, hrun, (fetch_compacted_iff twoCold_inRange twoCold_increasing hrun hok hmem
    (by decide) hin hmiss).mp hfetch⟩

theorem twoCold_second_lost : ∃ s, run exec (fresh 1 0 emptyTiers) twoCold = some s ∧
      (∀ action ∈ twoCold, InRange action) ∧
      Along exec Increasing (fresh 1 0 emptyTiers) twoCold ∧
      (s.stream.compactStream s.tiers 1000).2.2 = .ok (some twoColdMeta) ∧
      secondBlock ∈ s.uploaded ∧
      s.tiers.logCache.readRange s.stream.streamId secondBlock.startOffset 1024 = none ∧
      ((s.compact 1000).stream.fetch (s.compact 1000).tiers secondBlock.startOffset 1024).2 =
        .ok [(firstBlock.startOffset, firstBlock.data)] := by
  have hchk : (run exec (fresh 1 0 emptyTiers) twoCold).map (fun s =>
      decide ((s.stream.compactStream s.tiers 1000).2.2 = .ok (some twoColdMeta) ∧
        secondBlock ∈ s.uploaded ∧
        s.tiers.logCache.readRange s.stream.streamId secondBlock.startOffset 1024 = none ∧
        ((s.compact 1000).stream.fetch (s.compact 1000).tiers secondBlock.startOffset 1024).2 =
          .ok [(firstBlock.startOffset, firstBlock.data)])) = some true := by
    decide +kernel
  obtain ⟨s, hrun, hs⟩ := Option.map_eq_some_iff.mp hchk
  exact ⟨s, hrun, twoCold_inRange, twoCold_increasing, of_decide_eq_true hs⟩

end Archive

end OxideMq.Stream
