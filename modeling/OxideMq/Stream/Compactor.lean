import Mathlib.Data.List.Sort
import OxideMq.Lib.Run
import OxideMq.Stream.S3Stream

/-! Compaction merges the small objects of a stream into one and replaces them in the list of
registered objects; trimming drops the objects below a new start offset. -/

namespace OxideMq.Stream

open Lib OxideMq.Core OxideMq.Wal List

variable {key : String} {blocks : List S3DataBlock} {objects : HashMap String Bytes}

def compactedKey (streamId : ℕ) (startOffset endOffset : ℤ) : String :=
  "streams/" ++ toString streamId ++ "/" ++ String.ofList (pad20 startOffset) ++ "_" ++
    String.ofList (pad20 endOffset) ++ ".compacted.data"

/-- The loop over the merged blocks starts from `i64::MAX`. -/
def minOffset (blocks : List S3DataBlock) : ℤ :=
  blocks.foldl (fun least b => if b.startOffset < least then b.startOffset else least) (2 ^ 63 - 1)

/-- The loop over the merged blocks starts from `i64::MIN`. -/
def maxOffset (blocks : List S3DataBlock) : ℤ :=
  blocks.foldl (fun most b => if b.endOffset > most then b.endOffset else most) (-2 ^ 63)

/-- The counter is a `u32`. -/
def totalRecords (blocks : List S3DataBlock) : ℕ :=
  blocks.foldl (fun total b => (total + b.recordCount) % 2 ^ 32) 0

def deleteObjects (objects : HashMap String Bytes) (keys : List String) : HashMap String Bytes :=
  keys.foldl (fun objects key => objects.erase key) objects

namespace S3Stream

variable {W : Type}

def readBlocks (tiers : Tiers W) : List S3ObjectMeta → Except OxideMqError (List S3DataBlock)
  | [] => .ok []
  | object :: objects =>
      match getObject tiers object.key with
      | .error e => .error e
      | .ok rawData =>
          match S3ObjectCodec.decodeAll rawData with
          | .error e => .error e
          | .ok blocks =>
              match readBlocks tiers objects with
              | .error e => .error e
              | .ok rest => .ok (blocks ++ rest)

def smallObjects (stream : S3Stream) (targetObjectSize : ℕ) : List S3ObjectMeta :=
  stream.s3Objects.filter fun m => decide (m.sizeBytes < targetObjectSize)

def compactedMeta (stream : S3Stream) (mergedBlocks : List S3DataBlock) : S3ObjectMeta :=
  ⟨compactedKey stream.streamId (minOffset mergedBlocks) (maxOffset mergedBlocks),
    minOffset mergedBlocks, maxOffset mergedBlocks, totalRecords mergedBlocks,
    (S3ObjectCodec.encode mergedBlocks).length⟩

def replaceObjects (stream : S3Stream) (keysToDelete : List String) (object : S3ObjectMeta) :
    S3Stream :=
  { stream with
    s3Objects := List.insertionSort (fun a b => a.startOffset ≤ b.startOffset)
      ((stream.s3Objects.filter fun m => !keysToDelete.contains m.key) ++ [object]) }

def compactStream (stream : S3Stream) (tiers : Tiers W) (targetObjectSize : ℕ) :
    S3Stream × Tiers W × Except OxideMqError (Option S3ObjectMeta) :=
  let objects := stream.smallObjects targetObjectSize
  if objects.length < 2 then (stream, tiers, .ok none)
  else
    match readBlocks tiers objects with
    | .error e => (stream, tiers, .error e)
    | .ok mergedBlocks =>
        if mergedBlocks.isEmpty then (stream, tiers, .ok none)
        else
          let keysToDelete := objects.map S3ObjectMeta.key
          let object := stream.compactedMeta mergedBlocks
          (stream.replaceObjects keysToDelete object,
            { tiers with
              objects := deleteObjects
                (tiers.objects.insert object.key (S3ObjectCodec.encode mergedBlocks))
                keysToDelete },
            .ok (some object))

def trim [WalEngine W] (stream : S3Stream) (tiers : Tiers W) (newStartOffset : ℤ) :
    S3Stream × Tiers W × Except OxideMqError Unit :=
  let stream' := { stream with startOffset := newStartOffset }
  let logCache := tiers.logCache.trim stream.streamId newStartOffset
  match WalEngine.trim tiers.wal stream.streamId newStartOffset with
  | (wal, .error e) => (stream', { tiers with logCache := logCache, wal := wal }, .error e)
  | (wal, .ok _) =>
      let toDelete := stream.s3Objects.filter fun m => decide (m.endOffset < newStartOffset)
      let retained := stream.s3Objects.filter fun m => !decide (m.endOffset < newStartOffset)
      ({ stream' with s3Objects := retained },
        { tiers with
          logCache := logCache
          wal := wal
          objects := deleteObjects tiers.objects (toDelete.map S3ObjectMeta.key) },
        .ok ())

end S3Stream

theorem lookup_deleteObjects (objs : HashMap String Bytes) (keys : List String) (key : String) :
    (deleteObjects objs keys).lookup key = if key ∈ keys then none else objs.lookup key := by
  induction keys generalizing objs with
  | nil => simp [deleteObjects]
  | cons head keys ih =>
    have hcons : deleteObjects objs (head :: keys) = deleteObjects (objs.erase head) keys :=
      rfl
    rw [hcons, ih, HashMap.lookup_erase_ite]
    by_cases hkey : key = head <;> simp [hkey]

def blocksAt (objects : HashMap String Bytes) (key : String) : List S3DataBlock :=
  match objects.lookup key with
  | none => []
  | some raw =>
      match S3ObjectCodec.decodeAll raw with
      | .error _ => []
      | .ok blocks => blocks

theorem blocksAt_congr {objs' : HashMap String Bytes} (h : objs'.lookup key = objects.lookup key) :
    blocksAt objs' key = blocksAt objects key := by
  rw [blocksAt, h, blocksAt]

theorem exists_of_mem_blocksAt {b : S3DataBlock} (hb : b ∈ blocksAt objects key) :
    ∃ raw blocks, objects.lookup key = some raw ∧ S3ObjectCodec.decodeAll raw = .ok blocks ∧
      b ∈ blocks := by
  unfold blocksAt at hb
  split at hb
  · simp at hb
  · rename_i raw hl
    split at hb
    · simp at hb
    · rename_i blocks hdec
      exact ⟨raw, blocks, hl, hdec, hb⟩

theorem blocksAt_fits {b : S3DataBlock} (hb : b ∈ blocksAt objects key) : b.Fits := by
  obtain ⟨raw, blocks, -, hdec, hmem⟩ := exists_of_mem_blocksAt hb
  exact S3ObjectCodec.decodeAll_fits hdec b hmem

theorem S3Stream.readBlocks_eq_ok {W : Type} {tiers : Tiers W} {objs : List S3ObjectMeta}
    (h : readBlocks tiers objs = .ok blocks) :
    blocks = objs.flatMap fun m => blocksAt tiers.objects m.key := by
  induction objs generalizing blocks with
  | nil => exact (Except.ok.inj h).symm
  | cons obj objs ih =>
    rw [readBlocks] at h
    split at h
    · cases h
    · rename_i raw hget
      split at h
      · cases h
      · rename_i front hdec
        split at h
        · cases h
        · rename_i rest hrest
          cases h
          have hl : tiers.objects.lookup obj.key = some raw := by
            unfold getObject at hget
            split at hget
            · rename_i raw' hraw
              rw [hraw, Except.ok.inj hget]
            · cases hget
          have hfront : blocksAt tiers.objects obj.key = front := by
            simp only [blocksAt, hl, hdec]
          rw [flatMap_cons, hfront, ← ih hrest]

theorem foldl_select {α : Type} (better : ℤ → ℤ → Prop) [DecidableRel better] (f : α → ℤ)
    (xs : List α) (init : ℤ) :
    xs.foldl (fun best x => if better (f x) best then f x else best) init = init ∨
      ∃ x ∈ xs, f x = xs.foldl (fun best x => if better (f x) best then f x else best) init := by
  induction xs generalizing init with
  | nil => exact Or.inl rfl
  | cons x xs ih =>
    rw [foldl_cons]
    split
    · rcases ih (f x) with hinit | ⟨y, hy, hval⟩
      · exact Or.inr ⟨x, mem_cons_self, hinit.symm⟩
      · exact Or.inr ⟨y, mem_cons_of_mem _ hy, hval⟩
    · rcases ih init with hinit | ⟨y, hy, hval⟩
      · exact Or.inl hinit
      · exact Or.inr ⟨y, mem_cons_of_mem _ hy, hval⟩

theorem foldl_least_le {α : Type} (f : α → ℤ) (xs : List α) (init : ℤ) :
    xs.foldl (fun best x => if f x < best then f x else best) init ≤ init ∧
      ∀ x ∈ xs, xs.foldl (fun best x => if f x < best then f x else best) init ≤ f x := by
  induction xs generalizing init with
  | nil => exact ⟨le_rfl, by simp⟩
  | cons x xs ih =>
    rw [foldl_cons]
    obtain ⟨hinit, hrest⟩ := ih (if f x < init then f x else init)
    refine ⟨hinit.trans (by split <;> omega), forall_mem_cons.mpr ⟨?_, hrest⟩⟩
    exact hinit.trans (by split <;> omega)

theorem fits_minOffset (h : ∀ b ∈ blocks, b.Fits) : FitsSigned 64 (minOffset blocks) := by
  rcases foldl_select (· < ·) S3DataBlock.startOffset blocks (2 ^ 63 - 1) with hinit | ⟨b, hb, heq⟩
  · rw [minOffset, hinit]
    norm_num [FitsSigned]
  · rw [minOffset, ← heq]
    exact (h b hb).startOffset

theorem fits_maxOffset (h : ∀ b ∈ blocks, b.Fits) : FitsSigned 64 (maxOffset blocks) := by
  rcases foldl_select (· > ·) S3DataBlock.endOffset blocks (-2 ^ 63) with hinit | ⟨b, hb, heq⟩
  · rw [maxOffset, hinit]
    norm_num [FitsSigned]
  · rw [maxOffset, ← heq]
    exact (h b hb).endOffset

theorem exists_startOffset_eq_minOffset (h : ∀ b ∈ blocks, b.Fits) (hne : blocks ≠ []) :
    ∃ b ∈ blocks, b.startOffset = minOffset blocks := by
  rcases foldl_select (· < ·) S3DataBlock.startOffset blocks (2 ^ 63 - 1) with hinit | hblk
  · obtain ⟨b, hb⟩ := exists_mem_of_ne_nil blocks hne
    have hle : minOffset blocks ≤ b.startOffset :=
      (foldl_least_le S3DataBlock.startOffset blocks (2 ^ 63 - 1)).2 b hb
    have hfits := (h b hb).startOffset.2
    refine ⟨b, hb, le_antisymm ?_ hle⟩
    rw [minOffset, hinit]
    omega
  · exact hblk

def Names (streamId : ℕ) (startOffset endOffset : ℤ) (key : String) : Prop :=
  ∃ ending, key.toList = ("streams/" ++ toString streamId ++ "/").toList ++
    (pad20 startOffset ++ ('_' :: (pad20 endOffset ++ ending)))

theorem names_objectKey (sid : ℕ) (start stop : ℤ) :
    Names sid start stop (S3Stream.objectKey sid start stop) :=
  ⟨".data".toList, by simp [S3Stream.objectKey]⟩

theorem names_compactedKey (sid : ℕ) (start stop : ℤ) :
    Names sid start stop (compactedKey sid start stop) :=
  ⟨".compacted.data".toList, by simp [compactedKey]⟩

theorem Names.unique {streamId : ℕ} {startOffset endOffset startOffset' endOffset' : ℤ}
    (h : Names streamId startOffset endOffset key) (h' : Names streamId startOffset' endOffset' key)
    (hstart : FitsSigned 64 startOffset) (hend : FitsSigned 64 endOffset)
    (hstart' : FitsSigned 64 startOffset') (hend' : FitsSigned 64 endOffset') :
    startOffset = startOffset' ∧ endOffset = endOffset' := by
  obtain ⟨ending, hkey⟩ := h
  obtain ⟨ending', hkey'⟩ := h'
  have hoffs := append_cancel_left (hkey.symm.trans hkey')
  obtain ⟨hfirst, hrest⟩ := append_inj hoffs (by simp)
  obtain ⟨hsecond, -⟩ := append_inj (cons.inj hrest).2 (by simp)
  exact ⟨pad20_injective hstart hstart' hfirst, pad20_injective hend hend' hsecond⟩

/-- A registered object has offsets of type `i64`, and its key shows them. -/
structure S3ObjectMeta.Keyed (streamId : ℕ) (object : S3ObjectMeta) : Prop where
  startOffset : FitsSigned 64 object.startOffset
  endOffset : FitsSigned 64 object.endOffset
  names : Names streamId object.startOffset object.endOffset object.key

theorem S3ObjectMeta.Keyed.eq_of_key {sid : ℕ} {a b : S3ObjectMeta} (ha : a.Keyed sid)
    (hb : b.Keyed sid) (hkey : a.key = b.key) :
    a.startOffset = b.startOffset ∧ a.endOffset = b.endOffset :=
  ha.names.unique (hkey ▸ hb.names) ha.startOffset ha.endOffset hb.startOffset hb.endOffset

namespace S3Stream

variable {W : Type}

structure Merges (stream : S3Stream) (tiers : Tiers W) (targetObjectSize : ℕ)
    (blocks : List S3DataBlock) : Prop where
  two : 2 ≤ (stream.smallObjects targetObjectSize).length
  read : readBlocks tiers (stream.smallObjects targetObjectSize) = .ok blocks
  nonempty : blocks ≠ []

def keysToDelete (stream : S3Stream) (targetObjectSize : ℕ) : List String :=
  (stream.smallObjects targetObjectSize).map S3ObjectMeta.key

def mergedStorage (stream : S3Stream) (tiers : Tiers W) (targetObjectSize : ℕ)
    (blocks : List S3DataBlock) : HashMap String Bytes :=
  deleteObjects
    (tiers.objects.insert (stream.compactedMeta blocks).key (S3ObjectCodec.encode blocks))
    (stream.keysToDelete targetObjectSize)

theorem compactStream_cases (str : S3Stream) (tiers : Tiers W) (target : ℕ) :
    ((str.compactStream tiers target).1 = str ∧ (str.compactStream tiers target).2.1 = tiers ∧
      ∀ obj, (str.compactStream tiers target).2.2 ≠ .ok (some obj)) ∨
    ∃ blocks, str.Merges tiers target blocks ∧ str.compactStream tiers target =
        (str.replaceObjects (str.keysToDelete target) (str.compactedMeta blocks),
          { tiers with objects := str.mergedStorage tiers target blocks },
          .ok (some (str.compactedMeta blocks))) := by
  unfold compactStream
  dsimp only
  split
  · exact Or.inl ⟨rfl, rfl, by simp⟩
  · rename_i hmany
    cases hread : readBlocks tiers (str.smallObjects target) with
    | error e => exact Or.inl ⟨rfl, rfl, by simp⟩
    | ok blocks =>
      dsimp only
      split
      · exact Or.inl ⟨rfl, rfl, by simp⟩
      · rename_i hfull
        exact Or.inr ⟨blocks, ⟨by omega, hread, by simpa using hfull⟩, rfl⟩

end S3Stream

end OxideMq.Stream
