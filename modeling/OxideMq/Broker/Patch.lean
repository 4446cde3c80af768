import OxideMq.Protocol.RecordBatch

/-! Offset assignment inside a payload. -/

namespace OxideMq.Broker

open Lib OxideMq.Core OxideMq.Protocol List Option

variable {batch buf records rest : Bytes} {offset : ℤ} {batches : List Bytes}

/-- `12 + batch_len` for the batch at the front. -/
def totalBatchSize (rest : Bytes) : ℤ := 12 + batchLengthOf rest

def patchHeader (rest : Bytes) (total : ℕ) (offset : ℤ) : Bytes :=
  let rest' := splice rest 0 (beEncode 8 (ofSigned 64 offset))
  splice rest' 17 (beEncode 4 (computeCrc32c (field rest' 21 (total - 21))).toNat)

def patchCount (rest : Bytes) : ℤ := if 27 ≤ rest.length then recordCountOf rest else 1

/-- The loop of `patch_record_batches`. -/
def patchLoop : ℕ → ℕ → Bytes → ℤ → Option (Bytes × ℤ)
  | 0, _, rest, currentOffset => some (rest, currentOffset)
  | fuel + 1, cursor, rest, currentOffset =>
      if 21 ≤ rest.length ∧ magicOf rest = 2 then
        let total := totalBatchSize rest
        -- an end before the start of the buffer has wrapped around to one behind it
        if cursor + total < 0 ∨ total > rest.length then some (rest, currentOffset)
        -- `&buf[cursor + 21..cursor + total]` with the end before the start
        else if total < 21 then none
        else
          let rest' := patchHeader rest total.toNat currentOffset
          (patchLoop fuel (cursor + total.toNat) (rest'.drop total.toNat)
            (wrapSigned 64 (currentOffset + patchCount rest'))).map
            fun (tail, offset) => (rest'.take total.toNat ++ tail, offset)
      else some (rest, currentOffset)

def patchRecordBatches (records : Bytes) (baseOffset : ℤ) : Option (Bytes × ℤ) :=
  if records.length < 21 then some (records, 1)
  else
    (patchLoop records.length 0 records baseOffset).map fun (buf, currentOffset) =>
      (buf, max (wrapSigned 64 (currentOffset - baseOffset)) 1)

theorem patchHeader_length (h : 21 ≤ rest.length) (total : ℕ) (off : ℤ) :
    (patchHeader rest total off).length = rest.length := by
  have hfirst : (splice rest 0 (beEncode 8 (ofSigned 64 off))).length = rest.length :=
    splice_length rest _ (by simp; omega)
  rw [patchHeader, splice_length _ _ (by rw [hfirst]; simp; omega), hfirst]

theorem patchLoop_length {fuel cursor : ℕ} {cur : ℤ}
    (h : patchLoop fuel cursor rest cur = some (buf, offset)) :
    buf.length = rest.length := by
  induction fuel generalizing cursor rest cur buf offset with
  | zero =>
    cases h
    rfl
  | succ fuel ih =>
    rw [patchLoop] at h
    split at h
    · rename_i hb
      dsimp only at h
      split at h
      · cases h
        rfl
      · split at h
        · simp at h
        · obtain ⟨⟨tail, last⟩, hloop, heq⟩ := map_eq_some_iff.mp h
          obtain ⟨rfl, -⟩ := Prod.mk.inj heq
          have htail := ih hloop
          have hhead := patchHeader_length hb.1 (totalBatchSize rest).toNat cur
          simp only [length_append, length_take, htail, length_drop, hhead]
          omega
    · cases h
      rfl

theorem patchRecordBatches_length {base count : ℤ}
    (h : patchRecordBatches records base = some (buf, count)) :
    buf.length = records.length := by
  rw [patchRecordBatches] at h
  split at h
  · cases h
    rfl
  · obtain ⟨⟨patched, offset⟩, hloop, heq⟩ := map_eq_some_iff.mp h
    cases heq
    exact patchLoop_length hloop

theorem one_le_patchRecordBatches {base count : ℤ}
    (h : patchRecordBatches records base = some (buf, count)) : 1 ≤ count := by
  rw [patchRecordBatches] at h
  split at h
  · cases h
    rfl
  · obtain ⟨⟨patched, offset⟩, -, heq⟩ := map_eq_some_iff.mp h
    cases heq
    exact le_max_right _ _

theorem patchRecordBatches_lt {base count : ℤ}
    (h : patchRecordBatches records base = some (buf, count)) : count < 2 ^ 63 := by
  rw [patchRecordBatches] at h
  split at h
  · cases h
    norm_num
  · obtain ⟨⟨patched, offset⟩, -, heq⟩ := map_eq_some_iff.mp h
    cases heq
    exact max_lt (wrapSigned_fits (by decide) _).2 (by norm_num)

theorem field_patchHeader (h : 21 ≤ rest.length) (total : ℕ) (off : ℤ) {i n : ℕ}
    (hi : 8 ≤ i ∧ i + n ≤ 17 ∨ 21 ≤ i) :
    field (patchHeader rest total off) i n = field rest i n := by
  have hfirst : (splice rest 0 (beEncode 8 (ofSigned 64 off))).length = rest.length :=
    splice_length rest _ (by simp; omega)
  rw [patchHeader, field_splice_of_disjoint _ _ (by rw [hfirst]; simp; omega) (by simp; omega),
    field_splice_of_disjoint _ _ (by simp; omega) (by simp; omega)]

theorem drop_patchHeader (h : 21 ≤ rest.length) (total : ℕ) (off : ℤ) {i : ℕ} (hi : 21 ≤ i) :
    (patchHeader rest total off).drop i = rest.drop i := by
  have hlen := patchHeader_length h total off
  have hfield := field_patchHeader h total off (i := i) (n := rest.length) (Or.inr hi)
  rwa [field, field, take_of_length_le (by rw [length_drop]; omega),
    take_of_length_le (by rw [length_drop]; omega)] at hfield

theorem splice_append (xs ys : Bytes) {i : ℕ} (new : Bytes) (h : i + new.length ≤ xs.length) :
    splice (xs ++ ys) i new = splice xs i new ++ ys := by
  simp only [splice, append_assoc]
  rw [take_append_of_le_length (by omega), drop_append_of_le_length h]

theorem patchHeader_append (h : 21 ≤ batch.length) (rest : Bytes) (off : ℤ) :
    patchHeader (batch ++ rest) batch.length off = patchHeader batch batch.length off ++ rest := by
  have hfirst : (splice batch 0 (beEncode 8 (ofSigned 64 off))).length = batch.length :=
    splice_length batch _ (by simp; omega)
  simp only [patchHeader]
  rw [splice_append batch rest _ (by simp; omega), field_append_left _ _ (by omega),
    splice_append _ rest _ (by rw [hfirst]; simp; omega)]

theorem lastOffsetDeltaOf_append (h : 27 ≤ batch.length) (rest : Bytes) :
    lastOffsetDeltaOf (batch ++ rest) = lastOffsetDeltaOf batch := by
  rw [lastOffsetDeltaOf, field_append_left _ _ (by omega), lastOffsetDeltaOf]

theorem totalBatchSize_append (hb : Framed batch) (rest : Bytes) :
    totalBatchSize (batch ++ rest) = batch.length := by
  rw [totalBatchSize, hb.batchLengthOf_append]
  omega

theorem recordCountOf_patchHeader (h : 21 ≤ batch.length) (total : ℕ) (off : ℤ) :
    recordCountOf (patchHeader batch total off) = recordCountOf batch := by
  simp only [recordCountOf, lastOffsetDeltaOf]
  rw [field_patchHeader h total off (Or.inr (by omega))]

theorem patchLoop_batch (hb : Framed batch) (fuel cursor : ℕ) (rest : Bytes) (cur : ℤ) :
    
    patchLoop (fuel + 1) cursor (batch ++ rest) cur = (patchLoop fuel (cursor + batch.length) rest
        (wrapSigned 64 (cur + recordCountOf batch))).map
        fun (tail, offset) => (patchHeader batch batch.length cur ++ tail, offset) := by
  have hhead := hb.header
  have hpat := patchHeader_length (show 21 ≤ batch.length by omega) batch.length cur
  have hcnt : patchCount (patchHeader batch batch.length cur ++ rest) = recordCountOf batch := by
    rw [patchCount, if_pos (by simp; omega), recordCountOf, lastOffsetDeltaOf_append (by omega)]
    exact recordCountOf_patchHeader (by omega) _ _
  rw [patchLoop, if_pos ⟨by simp; omega, by rw [magicOf_append (by omega)]; exact hb.magic⟩]
  simp only [totalBatchSize_append hb, Int.toNat_natCast]
  rw [if_neg (by simp; omega), if_neg (by omega), patchHeader_append (by omega), hcnt,
    drop_left' hpat, take_left' hpat]

def patchBatches : List Bytes → ℤ → Bytes × ℤ
  | [], offset => ([], offset)
  | batch :: batches, offset =>
      let tail := patchBatches batches (wrapSigned 64 (offset + recordCountOf batch))
      (patchHeader batch batch.length offset ++ tail.1, tail.2)

theorem patchLoop_batches (hbs : ∀ b ∈ batches, Framed b) {fuel : ℕ}
    (hfuel : batches.flatten.length ≤ fuel) (cur : ℕ) (off : ℤ) :
    patchLoop fuel cur batches.flatten off = some (patchBatches batches off) := by
  induction batches generalizing fuel cur off with
  | nil => cases fuel <;> simp [patchLoop, patchBatches]
  | cons batch batches ih =>
    have hbatch := hbs batch mem_cons_self
    have hhead := hbatch.header
    rw [flatten_cons, length_append] at hfuel
    obtain ⟨fuel, rfl⟩ : ∃ k, fuel = k + 1 := ⟨fuel - 1, by omega⟩
    rw [flatten_cons, patchLoop_batch hbatch,
      ih (fun b hb => hbs b (mem_cons_of_mem _ hb)) (by omega)]
    rfl

theorem baseOffsetOf_patchHeader (h : 21 ≤ batch.length) (total : ℕ)
    (hoff : FitsSigned 64 offset) (rest : Bytes) :
    baseOffsetOf (patchHeader batch total offset ++ rest) = offset := by
  have hfirst : (splice batch 0 (beEncode 8 (ofSigned 64 offset))).length = batch.length :=
    splice_length batch _ (by simp; omega)
  have hfield : field (splice batch 0 (beEncode 8 (ofSigned 64 offset))) 0 8 =
      beEncode 8 (ofSigned 64 offset) := by
    simpa using field_splice_self batch (beEncode 8 (ofSigned 64 offset)) (i := 0) (by simp; omega)
  rw [baseOffsetOf, field_append_left _ _ (by rw [patchHeader_length h]; omega), patchHeader,
    field_splice_of_disjoint _ _ (by rw [hfirst]; simp; omega) (by simp), hfield]
  exact toSigned_beEncode (k := 8) (by decide) hoff

theorem recordCountOf_le (batch : Bytes) : 1 ≤ recordCountOf batch ∧ recordCountOf batch ≤ 2 ^ 31 := by
  have hdelta := (toSigned_fits (w := 32) (by decide) (beDecode (field batch 23 4))).2
  rw [recordCountOf, lastOffsetDeltaOf]
  norm_num at hdelta
  omega

theorem patchRecordBatches_batch (hb : Framed batch) (base : ℤ) : patchRecordBatches batch base =
      some (patchHeader batch batch.length base, recordCountOf batch) := by
  have hhead := hb.header
  obtain ⟨hcnt, hbd⟩ := recordCountOf_le batch
  have hloop : patchLoop batch.length 0 [batch].flatten base = some (patchBatches [batch] base) :=
    patchLoop_batches (by simpa using hb) (by simp) 0 base
  have htot : wrapSigned 64 (wrapSigned 64 (base + recordCountOf batch) - base) =
      recordCountOf batch := by
    rw [wrapSigned, wrapSigned, Int.bmod_sub_bmod, add_sub_cancel_left]
    exact wrapSigned_of_fits (by decide) ⟨by norm_num; omega, by norm_num at hbd ⊢; omega⟩
  rw [flatten_singleton] at hloop
  rw [patchRecordBatches, if_neg (by omega), hloop]
  simp only [patchBatches, map_some, append_nil, htot, max_eq_left hcnt]

def stamped : List Bytes → ℤ → List Bytes
  | [], _ => []
  | batch :: batches, offset =>
      patchHeader batch batch.length offset ::
        stamped batches (wrapSigned 64 (offset + recordCountOf batch))

def recordTotal (batches : List Bytes) : ℤ := (batches.map recordCountOf).sum

theorem recordTotal_cons (batch : Bytes) (batches : List Bytes) :
    recordTotal (batch :: batches) = recordCountOf batch + recordTotal batches := by
  rw [recordTotal, map_cons, sum_cons, recordTotal]

theorem recordTotal_nonneg (batches : List Bytes) : 0 ≤ recordTotal batches := by
  induction batches with
  | nil => exact le_refl 0
  | cons batch batches ih =>
    have hcnt := (recordCountOf_le batch).1
    rw [recordTotal_cons]
    omega

theorem patchBatches_fst (bs : List Bytes) (off : ℤ) :
    (patchBatches bs off).1 = (stamped bs off).flatten := by
  induction bs generalizing off with
  | nil => rfl
  | cons batch bs ih =>
    rw [patchBatches, stamped, flatten_cons]
    rw [ih]

theorem patchBatches_snd (hlo : -2 ^ 63 ≤ offset) (hhi : offset + recordTotal batches < 2 ^ 63) :
    (patchBatches batches offset).2 = offset + recordTotal batches := by
  induction batches generalizing offset with
  | nil => exact (add_zero offset).symm
  | cons batch batches ih =>
    have hcount := (recordCountOf_le batch).1
    have hrest := recordTotal_nonneg batches
    rw [recordTotal_cons] at hhi ⊢
    have hwrap : wrapSigned 64 (offset + recordCountOf batch) = offset + recordCountOf batch :=
      wrapSigned_of_fits (by decide) ⟨by norm_num; omega, by norm_num at hhi ⊢; omega⟩
    rw [patchBatches, hwrap]
    rw [ih (by omega) (by omega)]
    ring

theorem mem_stamped (hlo : -2 ^ 63 ≤ offset) (hhi : offset + recordTotal batches < 2 ^ 63)
    {bytes : Bytes} (h : bytes ∈ stamped batches offset) :
    ∃ batch ∈ batches, ∃ base, offset ≤ base ∧ FitsSigned 64 base ∧
      bytes = patchHeader batch batch.length base := by
  induction batches generalizing offset with
  | nil => simp [stamped] at h
  | cons batch batches ih =>
    have hcount := (recordCountOf_le batch).1
    have hrest := recordTotal_nonneg batches
    rw [recordTotal_cons] at hhi
    have hwrap : wrapSigned 64 (offset + recordCountOf batch) = offset + recordCountOf batch :=
      wrapSigned_of_fits (by decide) ⟨by norm_num; omega, by norm_num at hhi ⊢; omega⟩
    rw [stamped, hwrap] at h
    rcases mem_cons.mp h with rfl | htail
    · exact ⟨batch, mem_cons_self, offset, le_refl _,
        ⟨by norm_num; omega, by norm_num at hhi ⊢; omega⟩, rfl⟩
    · obtain ⟨b, hb, base, hle, hfits, heq⟩ := ih (by omega) (by omega) htail
      exact ⟨b, mem_cons_of_mem _ hb, base, by omega, hfits, heq⟩

def RoomFor (batches : List Bytes) (offset : ℤ) : Prop :=
  recordTotal batches < 2 ^ 63 ∧ offset + recordTotal batches < 2 ^ 63

theorem patchRecordBatches_flatten (hne : batches ≠ []) (hbatches : ∀ b ∈ batches, Framed b)
    (hlo : -2 ^ 63 ≤ offset) (hroom : RoomFor batches offset) :
    patchRecordBatches batches.flatten offset =
      some ((stamped batches offset).flatten, recordTotal batches) := by
  obtain ⟨batch, rest, rfl⟩ := exists_cons_of_ne_nil hne
  have hheader := (hbatches batch mem_cons_self).header
  have hcount := (recordCountOf_le batch).1
  have hrest := recordTotal_nonneg rest
  have hlong : ¬(batch :: rest).flatten.length < 21 := by
    rw [flatten_cons, length_append]
    omega
  have htotal : 1 ≤ recordTotal (batch :: rest) := by
    rw [recordTotal_cons]
    omega
  have hfits : FitsSigned 64 (recordTotal (batch :: rest)) := ⟨by norm_num; omega, hroom.1⟩
  rw [patchRecordBatches, if_neg hlong, patchLoop_batches hbatches le_rfl, map_some,
    ← patchBatches_fst]
  dsimp only
  rw [patchBatches_snd hlo hroom.2, add_sub_cancel_left, wrapSigned_of_fits (by decide) hfits,
    max_eq_left htotal]

end OxideMq.Broker
