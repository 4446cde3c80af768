import OxideMq.Core.BytesUtil

/-! The framing of the write-ahead log. -/

namespace OxideMq.Wal

open Lib OxideMq.Core List

def walMagic : UInt32 := 0x5F57414C

def headerSize : ℕ := 36

structure WalRecord where
  seq : UInt64
  streamId : UInt64
  offset : Int64
  payload : Bytes
  deriving DecidableEq, Repr

namespace WalRecord

variable {r : WalRecord}

def body (r : WalRecord) : Bytes :=
  beEncode 8 r.seq.toNat ++ (beEncode 8 r.streamId.toNat ++
    (beEncode 8 r.offset.toUInt64.toNat ++ (beEncode 4 r.payload.length ++ r.payload)))

def encode (r : WalRecord) : Bytes :=
  beEncode 4 walMagic.toNat ++ (beEncode 4 (computeCrc32c r.body).toNat ++ r.body)

def frame (crc : UInt32) (r : WalRecord) : Bytes :=
  beEncode 4 walMagic.toNat ++ (beEncode 4 crc.toNat ++ r.body)

/-- `Ok(None)` asks for more bytes; an error reports a wrong magic number or a checksum that does
not match. -/
def decode (src : Bytes) : Except OxideMqError (Option (WalRecord × ℕ)) :=
  if src.length < headerSize then .ok none
  else
    let magic := UInt32.ofNat (beDecode (field src 0 4))
    if magic ≠ walMagic then
      .error (.storage
        s!"Invalid WAL magic byte: expected 0x{hex8 walMagic}, found 0x{hex8 magic}")
    else
      let expectedCrc := UInt32.ofNat (beDecode (field src 4 4))
      let seq := UInt64.ofNat (beDecode (field src 8 8))
      let streamId := UInt64.ofNat (beDecode (field src 16 8))
      let offset := (UInt64.ofNat (beDecode (field src 24 8))).toInt64
      let payloadLen := beDecode (field src 32 4)
      let totalRecordLen := headerSize + payloadLen
      if src.length < totalRecordLen then .ok none
      else
        let actualCrc := computeCrc32c (field src 8 (totalRecordLen - 8))
        if actualCrc ≠ expectedCrc then .error (.corruptedRecord expectedCrc actualCrc)
        else
          let payload := field src headerSize payloadLen
          .ok (some (⟨seq, streamId, offset, payload⟩, totalRecordLen))

theorem body_length (r : WalRecord) : r.body.length = 28 + r.payload.length := by
  simp [body]
  omega

@[simp] theorem encode_length (r : WalRecord) : r.encode.length = 36 + r.payload.length := by
  simp only [encode, length_append, beEncode_length, body_length]
  omega

theorem encode_eq_frame (r : WalRecord) : r.encode = frame (computeCrc32c r.body) r := rfl

theorem fields_frame (crc : UInt32) (r : WalRecord) (t : Bytes) :
    field (frame crc r ++ t) 0 4 = beEncode 4 walMagic.toNat ∧
      field (frame crc r ++ t) 4 4 = beEncode 4 crc.toNat ∧
      field (frame crc r ++ t) 8 8 = beEncode 8 r.seq.toNat ∧
      field (frame crc r ++ t) 16 8 = beEncode 8 r.streamId.toNat ∧
      field (frame crc r ++ t) 24 8 = beEncode 8 r.offset.toUInt64.toNat ∧
      field (frame crc r ++ t) 32 4 = beEncode 4 r.payload.length ∧
      field (frame crc r ++ t) 36 r.payload.length = r.payload := by
  refine ⟨?_, ?_, ?_, ?_, ?_, ?_, ?_⟩
  · rw [frame, append_assoc, field_prefix _ _ (by simp)]
  · simp [frame, field_append_of_le, field_prefix]
  all_goals simp [frame, body, field_append_of_le, field_prefix]

theorem ofNat_beDecode32 (x : UInt32) : UInt32.ofNat (beDecode (beEncode 4 x.toNat)) = x := by
  have hlt : x.toNat < 256 ^ 4 := x.toNat_lt
  rw [beDecode_beEncode, Nat.mod_eq_of_lt hlt, UInt32.ofNat_toNat]

theorem ofNat_beDecode64 (x : UInt64) : UInt64.ofNat (beDecode (beEncode 8 x.toNat)) = x := by
  have hlt : x.toNat < 256 ^ 8 := x.toNat_lt
  rw [beDecode_beEncode, Nat.mod_eq_of_lt hlt, UInt64.ofNat_toNat]

theorem decode_frame (crc : UInt32) (t : Bytes) (hr : r.payload.length < 2 ^ 32) :
    decode (frame crc r ++ t) =
      if computeCrc32c r.body ≠ crc then .error (.corruptedRecord crc (computeCrc32c r.body))
      else .ok (some (r, r.encode.length)) := by
  obtain ⟨hmagic, hcrc, hseq, hid, hoff, hlen, hpay⟩ := fields_frame crc r t
  have hsize : beDecode (beEncode 4 r.payload.length) = r.payload.length := by
    rw [beDecode_beEncode, Nat.mod_eq_of_lt (by omega)]
  have hbody : field (frame crc r ++ t) 8 (36 + r.payload.length - 8) = r.body := by
    rw [show 36 + r.payload.length - 8 = r.body.length by rw [body_length]; omega]
    simp [frame, field_append_of_le, field_prefix]
  have hlong : (frame crc r).length = 36 + r.payload.length := by
    simp only [frame, length_append, beEncode_length, body_length]
    omega
  unfold decode
  simp only [length_append, hlong, encode_length, headerSize, hmagic, hcrc, hseq, hid, hoff, hlen,
    ofNat_beDecode32, ofNat_beDecode64, Int64.toInt64_toUInt64, hsize, hpay, hbody]
  rw [if_neg (by omega), if_neg (by simp), if_neg (by omega)]

theorem decode_encode_append (t : Bytes) (hr : r.payload.length < 2 ^ 32) :
    decode (r.encode ++ t) = .ok (some (r, r.encode.length)) := by
  rw [encode_eq_frame, decode_frame _ t hr, if_neg (by simp), encode_eq_frame]

theorem decode_strict_prefix {s : Bytes} (hr : r.payload.length < 2 ^ 32) (hs : s <+: r.encode)
    (hne : s ≠ r.encode) : decode s = .ok none := by
  obtain ⟨t, ht⟩ := hs
  have hshort : s.length < 36 + r.payload.length := by
    have hlen := congrArg length ht
    simp only [length_append, encode_length] at hlen
    have htpos : t ≠ [] := fun h => hne (by simpa [h] using ht)
    have := length_pos_of_ne_nil htpos
    omega
  by_cases hhead : s.length < 36
  · simp [decode, headerSize, hhead]
  -- the header is complete, so its fields are those of the encoding
  have hfield : ∀ i n, i + n ≤ 36 → field s i n = field (r.encode ++ []) i n := by
    intro i n hin
    rw [append_nil, ← ht, field_append_left _ _ (by omega)]
  obtain ⟨hmagic, -, -, -, -, hlen, -⟩ := fields_frame (computeCrc32c r.body) r []
  rw [encode_eq_frame] at hfield
  have hmagic : UInt32.ofNat (beDecode (field s 0 4)) = walMagic := by
    rw [hfield 0 4 (by omega), hmagic, ofNat_beDecode32]
  have hpayloadLen : beDecode (field s 32 4) = r.payload.length := by
    rw [hfield 32 4 (by omega), hlen, beDecode_beEncode, Nat.mod_eq_of_lt (by omega)]
  simp [decode, headerSize, hhead, hmagic, hpayloadLen, hshort]

theorem beEncode_ofNat_field32 (src : Bytes) {i : ℕ} (h : i + 4 ≤ src.length) :
    beEncode 4 (UInt32.ofNat (beDecode (field src i 4))).toNat = field src i 4 := by
  rw [UInt32.toNat_ofNat_of_lt' (beDecode_field_lt src i 4), beEncode_field src h]

theorem beEncode_ofNat_field64 (src : Bytes) {i : ℕ} (h : i + 8 ≤ src.length) :
    beEncode 8 (UInt64.ofNat (beDecode (field src i 8))).toNat = field src i 8 := by
  rw [UInt64.toNat_ofNat_of_lt' (beDecode_field_lt src i 8), beEncode_field src h]

theorem decode_eq_some {src : Bytes} {n : ℕ} (h : decode src = .ok (some (r, n))) :
    n = r.encode.length ∧ r.payload.length < 2 ^ 32 ∧ src = r.encode ++ src.drop n := by
  unfold decode at h
  simp only at h
  split at h
  · simp at h
  split at h
  · simp at h
  split at h
  · simp at h
  split at h
  · simp at h
  rename_i hhead hmagic hpay hcrc
  simp only [headerSize, not_lt, ne_eq, not_not] at hhead hmagic hpay hcrc
  simp only [Except.ok.injEq, Option.some.injEq, Prod.mk.injEq] at h
  obtain ⟨rfl, rfl⟩ := h
  simp only [headerSize]
  have hlen : (field src 36 (beDecode (field src 32 4))).length = beDecode (field src 32 4) := by
    rw [field_length]; omega
  have hsmall : beDecode (field src 32 4) < 2 ^ 32 := beDecode_field_lt src 32 4
  have hbody : body ⟨UInt64.ofNat (beDecode (field src 8 8)),
      UInt64.ofNat (beDecode (field src 16 8)),
      (UInt64.ofNat (beDecode (field src 24 8))).toInt64,
      field src 36 (beDecode (field src 32 4))⟩ =
      field src 8 (28 + beDecode (field src 32 4)) := by
    rw [show 28 + beDecode (field src 32 4) = 8 + (8 + (8 + (4 + beDecode (field src 32 4))))
      by omega, field_add, field_add, field_add, field_add]
    simp only [body, hlen, UInt64.toUInt64_toInt64]
    rw [beEncode_ofNat_field64 src (by omega), beEncode_ofNat_field64 src (by omega),
      beEncode_ofNat_field64 src (by omega), beEncode_field src (by omega)]
  refine ⟨by simp [hlen], by rw [hlen]; exact hsmall, ?_⟩
  rw [encode, hbody]
  rw [show 36 + beDecode (field src 32 4) - 8 = 28 + beDecode (field src 32 4) by omega] at hcrc
  rw [hcrc, ← hmagic, beEncode_ofNat_field32 src (by omega), beEncode_ofNat_field32 src (by omega),
    ← field_add src 4, ← field_add src 0,
    show 4 + (4 + (28 + beDecode (field src 32 4))) = 36 + beDecode (field src 32 4) by omega]
  simp [field]

end WalRecord

end OxideMq.Wal
