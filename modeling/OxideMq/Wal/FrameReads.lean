import OxideMq.Lib.Decoder
import OxideMq.Wal.Frame

/-! The framing of the write-ahead log, read by read. -/

namespace OxideMq.Wal

open Lib OxideMq.Core Decoder

namespace WalRecord

def invalidMagic (magic : UInt32) : OxideMqError :=
  .storage s!"Invalid WAL magic byte: expected 0x{hex8 walMagic}, found 0x{hex8 magic}"

def readHeader : Decoder OxideMqError (UInt32 × UInt64 × UInt64 × Int64 × ℕ) := do
  let magic ← Decoder.getNat 4
  if UInt32.ofNat magic ≠ walMagic then Decoder.fail (invalidMagic (UInt32.ofNat magic))
  else
    let expectedCrc ← Decoder.getNat 4
    let seq ← Decoder.getNat 8
    let streamId ← Decoder.getNat 8
    let offset ← Decoder.getNat 8
    let payloadLen ← Decoder.getNat 4
    return (UInt32.ofNat expectedCrc, UInt64.ofNat seq, UInt64.ofNat streamId,
      (UInt64.ofNat offset).toInt64, payloadLen)

def decodeReads (src : Bytes) : Attempt OxideMqError (Option (WalRecord × ℕ)) :=
  if src.length < headerSize then some (.ok none)
  else
    (readHeader.run src).attempt.andThen fun (expectedCrc, seq, streamId, offset, payloadLen) =>
      let totalRecordLen := headerSize + payloadLen
      if src.length < totalRecordLen then some (.ok none)
      else
        (slice src 8 totalRecordLen).bind fun bodyBytes =>
          let actualCrc := computeCrc32c bodyBytes
          if actualCrc ≠ expectedCrc then some (.error (.corruptedRecord expectedCrc actualCrc))
          else
            (slice src headerSize totalRecordLen).bind fun payload =>
              some (.ok (some (⟨seq, streamId, offset, payload⟩, totalRecordLen)))

theorem decodeReads_eq (src : Bytes) : decodeReads src = some (decode src) := by
  rw [decodeReads, decode]
  split
  · rfl
  · rename_i hhead
    have hlong : 36 ≤ src.length := not_lt.mp hhead
    rw [show readHeader.run src = readHeader.run (src.drop 0) from rfl, readHeader,
      run_getNat_at (by omega)]
    by_cases hmagic : UInt32.ofNat (beDecode (field src 0 4)) ≠ walMagic
    · rw [if_pos hmagic, if_pos hmagic]
      rfl
    · rw [if_neg hmagic, if_neg hmagic, run_getNat_at (by omega), run_getNat_at (by omega),
        run_getNat_at (by omega), run_getNat_at (by omega), run_getNat_at (by omega)]
      show Attempt.andThen (some (.ok _)) _ = _
      rw [Attempt.andThen_ok]
      dsimp only
      split
      · rfl
      · rename_i hpay
        have hin := not_lt.mp hpay
        rw [slice_of_le (by simp only [headerSize]; omega) hin,
          slice_of_le (Nat.le_add_right _ _) hin, Nat.add_sub_cancel_left]
        dsimp only [Option.bind]
        split
        · rfl
        · rfl

theorem framing_canonical : (∀ r : WalRecord, r.payload.length < 2 ^ 32 →
      (∀ t, decodeReads (r.encode ++ t) = some (.ok (some (r, r.encode.length)))) ∧
      ∀ s, s <+: r.encode → s ≠ r.encode → decodeReads s = some (.ok none)) ∧
    ∀ s, decodeReads s ≠ none ∧
      ∀ r n, decodeReads s = some (.ok (some (r, n))) → s.take n = r.encode := by
  simp only [decodeReads_eq, Option.some.injEq]
  refine ⟨fun r hr => ⟨fun t => decode_encode_append t hr, fun s => decode_strict_prefix hr⟩,
    fun s => ⟨Option.some_ne_none _, fun r n h => ?_⟩⟩
  obtain ⟨hn, -, hs⟩ := decode_eq_some h
  rw [hs, hn, List.take_left]

theorem framing_canonical_two_octets :
    decodeReads (encode ⟨1, 2, 3, [7, 8]⟩ ++ [9]) = some (.ok (some (⟨1, 2, 3, [7, 8]⟩, 38))) ∧
      decodeReads ((encode ⟨1, 2, 3, [7, 8]⟩).take 37) = some (.ok none) := by
  have hcanonical := framing_canonical.1 ⟨1, 2, 3, [7, 8]⟩ (by decide)
  refine ⟨hcanonical.1 [9], hcanonical.2 _ ( List.take_prefix _ _) fun heq => ?_⟩
  have hlen := congrArg List.length heq
  simp at hlen

end WalRecord

end OxideMq.Wal
