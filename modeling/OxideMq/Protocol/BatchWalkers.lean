import OxideMq.Lib.Loop
import OxideMq.Protocol.Recompression

/-! The loops over the batches of a buffer, turn by turn and read by read. -/

namespace OxideMq.Protocol

open Lib OxideMq.Core List

structure Buffer where
  bytes : Bytes
  inMemory : bytes.length ≤ isizeMax

/-- `a + b` in the release build. -/
def usizeAdd (a b : ℕ) : ℕ := (a + b) % 2 ^ 64

def reading {α σ ρ : Type} (x : Option α) (f : α → Turn σ (Option ρ)) : Turn σ (Option ρ) :=
  match x with
  | some a => f a
  | none => .exit none

def batchEnd (minimum : ℕ) (src : Bytes) (cursor : ℕ) : Option (Option ℕ) :=
  if usizeAdd cursor minimum ≤ src.length then
    src[usizeAdd cursor 16]?.bind fun magic =>
      if magic = 2 then
        (slice src (usizeAdd cursor 8) (usizeAdd cursor 12)).bind fun lengthBytes =>
          let batchLen := asUsize (toSigned 32 (beDecode lengthBytes))
          let totalBatchSize := usizeAdd 12 batchLen
          if usizeAdd cursor totalBatchSize > src.length then some none
          else some (some (usizeAdd cursor totalBatchSize))
      else some none
  else some none

def writeBatch (baseOffset leaderEpoch : Bytes) (attributes : ℕ) (others payload : Bytes) : Bytes :=
  let tail := beEncode 2 attributes ++ (others ++ payload)
  baseOffset ++ (beEncode 4 (49 + payload.length) ++ (leaderEpoch ++ ([2] ++
    (beEncode 4 (computeCrc32c tail).toNat ++ tail))))

structure Inflating where
  cursor : ℕ
  out : Bytes
  anyDecompressed : Bool

/-- One turn of the loop of `decompress_record_batch`. -/
def decompressTurn (libs : Compressors) (src : Bytes) (s : Inflating) :
    Turn Inflating (Attempt OxideMqError Inflating) :=
  reading (batchEnd 61 src s.cursor) fun
    | none => .exit (some (.ok s))
    | some stop =>
        reading (slice src (usizeAdd s.cursor 21) (usizeAdd s.cursor 23)) fun attributeBytes =>
          let attributes := beDecode attributeBytes
          let codec := CompressionCodec.fromAttributes attributes
          if codec ≠ .none then
            reading (slice src (usizeAdd s.cursor 61) stop) fun compressedPayload =>
              match codec.decompress libs compressedPayload with
              | .error e => .exit (some (.error e))
              | .ok decompressed =>
                  reading (slice src s.cursor (usizeAdd s.cursor 8)) fun baseOffset =>
                  reading (slice src (usizeAdd s.cursor 12) (usizeAdd s.cursor 16)) fun epoch =>
                  reading (slice src (usizeAdd s.cursor 23) (usizeAdd s.cursor 61)) fun others =>
                    .next ⟨stop, s.out ++ writeBatch baseOffset epoch (attributes - attributes % 8)
                      others decompressed, true⟩
          else
            reading (slice src s.cursor stop) fun batch =>
              .next ⟨stop, s.out ++ batch, s.anyDecompressed⟩

structure Walking (α : Type) where
  cursor : ℕ
  out : List α

/-- One turn of the loop of `compress_record_batch`, over decompressed batches. -/
def compressTurn (libs : Compressors) (targetCodec : CompressionCodec) (src : Bytes)
    (s : Walking UInt8) : Turn (Walking UInt8) (Attempt OxideMqError (Walking UInt8)) :=
  reading (batchEnd 61 src s.cursor) fun
    | none => .exit (some (.ok s))
    | some stop =>
        reading (slice src (usizeAdd s.cursor 21) (usizeAdd s.cursor 23)) fun attributeBytes =>
        reading (slice src (usizeAdd s.cursor 61) stop) fun payload =>
          let attributes := beDecode attributeBytes
          match targetCodec.compress libs payload with
          | .error e => .exit (some (.error e))
          | .ok compressed =>
              reading (slice src s.cursor (usizeAdd s.cursor 8)) fun baseOffset =>
              reading (slice src (usizeAdd s.cursor 12) (usizeAdd s.cursor 16)) fun epoch =>
              reading (slice src (usizeAdd s.cursor 23) (usizeAdd s.cursor 61)) fun others =>
                .next ⟨stop, s.out ++ writeBatch baseOffset epoch
                  ((attributes - attributes % 8) ||| targetCodec.toAttributes) others compressed⟩

/-- One turn of the loop of `parse_record_batch_records`, over decompressed batches. -/
def parseTurn (src : Bytes) (s : Walking Record) :
    Turn (Walking Record) (Attempt OxideMqError (Walking Record)) :=
  reading (batchEnd 61 src s.cursor) fun
    | none => .exit (some (.ok s))
    | some stop =>
        reading (slice src s.cursor (usizeAdd s.cursor 8)) fun baseOffset =>
        reading (slice src (usizeAdd s.cursor 27) (usizeAdd s.cursor 35)) fun baseTimestamp =>
        reading (slice src (usizeAdd s.cursor 57) (usizeAdd s.cursor 61)) fun numRecords =>
        reading (slice src (usizeAdd s.cursor 61) stop) fun payload =>
          match (decodeBatch (toSigned 64 (beDecode baseOffset))
              (toSigned 64 (beDecode baseTimestamp)) (toSigned 32 (beDecode numRecords))
              payload).attempt with
          | none => .exit none
          | some (.error e) => .exit (some (.error e))
          | some (.ok records) => .next ⟨stop, s.out ++ records⟩

theorem usizeAdd_of_le {a b n : ℕ} (hn : n ≤ isizeMax) (h : a + b ≤ n + 61) :
    usizeAdd a b = a + b := by
  rw [isizeMax] at hn
  exact Nat.mod_eq_of_lt (by omega)

def CompleteFrom (minimum cursor : ℕ) (rest : Bytes) : Prop :=
  minimum ≤ rest.length ∧ magicOf rest = 2 ∧
    ¬ (cursor + (12 + batchLengthOf rest) < 0 ∨ 12 + batchLengthOf rest > rest.length)

instance (minimum cursor : ℕ) (rest : Bytes) : Decidable (CompleteFrom minimum cursor rest) :=
  inferInstanceAs (Decidable (_ ∧ _))

section

variable {src : Bytes} {cursor : ℕ}
variable {minimum : ℕ}

theorem slice_add {i j n : ℕ} (hn : j = i + n) (hj : cursor + j ≤ src.length) :
    slice src (cursor + i) (cursor + j) = some (field (src.drop cursor) i n) := by
  rw [slice_of_le (by omega) hj, field, field, drop_drop,
    show cursor + j - (cursor + i) = n by omega]

theorem usizeAdd_batchLen (cursor : ℕ) (batchLen : ℤ) :
    (usizeAdd cursor (usizeAdd 12 (asUsize batchLen)) : ℤ) =
      (cursor + (12 + batchLen)) % 2 ^ 64 := by
  norm_num [usizeAdd, asUsize, ofSigned]
  omega

theorem batchEnd_eq (hsrc : src.length ≤ isizeMax) (hc : cursor ≤ src.length) (hlo : 17 ≤ minimum)
    (hhi : minimum ≤ 61) :
    batchEnd minimum src cursor = some (if CompleteFrom minimum cursor (src.drop cursor) then
        some (cursor + (12 + batchLengthOf (src.drop cursor))).toNat else none) := by
  have hlength : (src.drop cursor).length = src.length - cursor := length_drop
  have hmem : src.length ≤ 9223372036854775807 := hsrc
  rw [batchEnd, usizeAdd_of_le hsrc (by omega)]
  by_cases hhead : cursor + minimum ≤ src.length
  · have hmagic : src[cursor + 16]? = some (magicOf (src.drop cursor)) := by
      rw [magicOf, getD_eq_getElem?_getD, getElem?_drop,
        getElem?_eq_getElem (by omega), Option.getD_some]
    obtain ⟨hmin, hmax⟩ : FitsSigned 32 (batchLengthOf (src.drop cursor)) :=
      toSigned_fits (by decide) _
    have hfield : toSigned 32 (beDecode (field (src.drop cursor) 8 4)) =
      batchLengthOf (src.drop cursor) := rfl
    rw [if_pos hhead, usizeAdd_of_le hsrc (by omega), usizeAdd_of_le hsrc (by omega),
      usizeAdd_of_le hsrc (by omega), hmagic, slice_add (n := 4) rfl (by omega), Option.bind_some,
      Option.bind_some, hfield]
    by_cases hver : magicOf (src.drop cursor) = 2
    · rw [if_pos hver]
      have hstop := usizeAdd_batchLen cursor (batchLengthOf (src.drop cursor))
      dsimp only
      generalize usizeAdd cursor _ = stop at hstop ⊢
      by_cases hends : cursor + (12 + batchLengthOf (src.drop cursor)) < 0 ∨
          12 + batchLengthOf (src.drop cursor) > (src.drop cursor).length
      · rw [if_pos (by omega), if_neg fun h => h.2.2 hends]
      · rw [Int.emod_eq_of_lt (by omega) (by omega)] at hstop
        rw [if_neg (by omega), if_pos ⟨by omega, hver, hends⟩, ← hstop, Int.toNat_natCast]
    · rw [if_neg hver, if_neg fun h => hver h.2.1]
  · rw [if_neg hhead, if_neg fun h => hhead (by have := h.1; omega)]

def totalAt (src : Bytes) (cursor : ℕ) : ℤ := 12 + batchLengthOf (src.drop cursor)

theorem CompleteFrom.totalAt_le (hc : cursor ≤ src.length)
    (h : CompleteFrom minimum cursor (src.drop cursor)) :
    0 ≤ cursor + totalAt src cursor ∧ totalAt src cursor ≤ src.length - cursor := by
  have hends := h.2.2
  rw [length_drop] at hends
  rw [totalAt]
  omega

theorem completeFrom_of_le (hhead : minimum ≤ (src.drop cursor).length)
    (hmagic : magicOf (src.drop cursor) = 2) (hpos : 0 < totalAt src cursor)
    (hlen : totalAt src cursor ≤ (src.drop cursor).length) :
    CompleteFrom minimum cursor (src.drop cursor) := by
  refine ⟨hhead, hmagic, ?_⟩
  rw [← totalAt]
  omega

theorem toNat_cursor_add {total : ℤ} (cur : ℕ) (h : 0 ≤ total) :
    (cur + total).toNat = cur + total.toNat := by
  omega

theorem slice_end (hc : cursor ≤ src.length) (h : CompleteFrom minimum cursor (src.drop cursor))
    (i : ℕ) :
    slice src (cursor + i) (cursor + totalAt src cursor).toNat = if totalAt src cursor < i then none
      else some (field (src.drop cursor) i ((totalAt src cursor).toNat - i)) := by
  obtain ⟨hstart, hend⟩ := h.totalAt_le hc
  split
  · rw [slice, if_neg (by omega)]
  · rw [toNat_cursor_add _ (by omega),
      slice_add (n := (totalAt src cursor).toNat - i) (by omega) (by omega)]

theorem slice_batch (hc : cursor ≤ src.length) (h : CompleteFrom minimum cursor (src.drop cursor)) :
    slice src cursor (cursor + totalAt src cursor).toNat = if totalAt src cursor < 0 then none
      else some ((src.drop cursor).take (totalAt src cursor).toNat) := by
  have hslice := slice_end hc h 0
  rwa [Nat.add_zero, field, drop_zero, Nat.sub_zero, Nat.cast_zero] at hslice

end

@[simp] theorem reading_some {α σ ρ : Type} (a : α) (f : α → Turn σ (Option ρ)) :
    reading (some a) f = f a := rfl

@[simp] theorem reading_none {α σ ρ : Type} (f : α → Turn σ (Option ρ)) :
    reading none f = .exit none := rfl

def payloadAt (rest : Bytes) : Bytes := field rest 61 ((12 + batchLengthOf rest).toNat - 61)

/-! A complete batch has its whole header in the buffer. -/

section Complete

variable {src : Bytes} {cursor : ℕ} (hsrc : src.length ≤ isizeMax)
  (h : CompleteFrom 61 cursor (src.drop cursor))

include hsrc h

theorem slice_header {i j n : ℕ} (hn : j = i + n) (hj : j ≤ 61) :
    slice src (usizeAdd cursor i) (usizeAdd cursor j) = some (field (src.drop cursor) i n) := by
  have hhead : 61 ≤ src.length - cursor := length_drop ▸ h.1
  rw [usizeAdd_of_le hsrc (by omega), usizeAdd_of_le hsrc (by omega), slice_add hn (by omega)]

theorem slice_baseOffset :
    slice src cursor (usizeAdd cursor 8) = some (field (src.drop cursor) 0 8) := by
  have hhead : 61 ≤ src.length - cursor := length_drop ▸ h.1
  rw [usizeAdd_of_le hsrc (by omega)]
  exact slice_add (i := 0) (Nat.zero_add 8).symm (by omega)

theorem slice_payload (hc : cursor ≤ src.length) :
    slice src (usizeAdd cursor 61) (cursor + totalAt src cursor).toNat =
      if totalAt src cursor < 61 then none else some (payloadAt (src.drop cursor)) := by
  rw [usizeAdd_of_le hsrc (by omega), slice_end hc h 61]
  rfl

end Complete

section

variable (libs : Compressors) {src : Bytes} {s : Inflating} (hsrc : src.length ≤ isizeMax)
  (hc : s.cursor ≤ src.length)

include hsrc hc

theorem decompressTurn_stop (h : ¬ CompleteFrom 61 s.cursor (src.drop s.cursor)) :
    decompressTurn libs src s = .exit (some (.ok s)) := by
  rw [decompressTurn, batchEnd_eq hsrc hc (by omega) (by omega), if_neg h, reading_some]

variable (h : CompleteFrom 61 s.cursor (src.drop s.cursor))

include h

theorem decompressTurn_plain (hcodec : codecOf (src.drop s.cursor) = .none) :
    decompressTurn libs src s = if totalAt src s.cursor < 0 then .exit none
      else .next ⟨s.cursor + (totalAt src s.cursor).toNat,
        s.out ++ (src.drop s.cursor).take (totalAt src s.cursor).toNat, s.anyDecompressed⟩ := by
  have hattr : CompressionCodec.fromAttributes (beDecode (field (src.drop s.cursor) 21 2)) =
      .none := hcodec
  rw [decompressTurn, batchEnd_eq hsrc hc (by omega) (by omega), if_pos h, reading_some]
  dsimp only
  rw [slice_header hsrc h (n := 2) rfl (by omega), reading_some, hattr,
    if_neg fun hne => hne rfl, ← totalAt, slice_batch hc h]
  split
  · rw [reading_none]
  · rw [reading_some, toNat_cursor_add _ (by omega)]

theorem decompressTurn_compressed (hcodec : codecOf (src.drop s.cursor) ≠ .none) :
    decompressTurn libs src s = if totalAt src s.cursor < 61 then .exit none
      else
        match (codecOf (src.drop s.cursor)).decompress libs (payloadAt (src.drop s.cursor)) with
        | .error e => .exit (some (.error e))
        | .ok plain => .next ⟨s.cursor + (totalAt src s.cursor).toNat,
            s.out ++ inflateBatch (src.drop s.cursor) plain, true⟩ := by
  have hattr : CompressionCodec.fromAttributes (beDecode (field (src.drop s.cursor) 21 2)) =
      codecOf (src.drop s.cursor) := rfl
  rw [decompressTurn, batchEnd_eq hsrc hc (by omega) (by omega), if_pos h, reading_some]
  dsimp only
  rw [slice_header hsrc h (n := 2) rfl (by omega), reading_some, hattr, if_pos hcodec,
    ← totalAt, slice_payload hsrc h hc]
  split
  · rw [reading_none]
  · rw [reading_some]
    cases (codecOf (src.drop s.cursor)).decompress libs (payloadAt (src.drop s.cursor)) with
    | error e => rfl
    | ok plain =>
      dsimp only
      rw [slice_baseOffset hsrc h, slice_header hsrc h (n := 4) rfl (by omega),
        slice_header hsrc h (n := 38) rfl (by omega), reading_some, reading_some, reading_some,
        toNat_cursor_add _ (by omega)]
      rfl

end

def walkTurn {α : Type} (step : Bytes → Attempt OxideMqError (List α)) (src : Bytes)
    (s : Walking α) : Turn (Walking α) (Attempt OxideMqError (Walking α)) :=
  if CompleteFrom 61 s.cursor (src.drop s.cursor) then
    if totalAt src s.cursor < 61 then .exit none
    else
      match step (src.drop s.cursor) with
      | none => .exit none
      | some (.error e) => .exit (some (.error e))
      | some (.ok xs) => .next ⟨s.cursor + (totalAt src s.cursor).toNat, s.out ++ xs⟩
  else .exit (some (.ok s))

def compressStep (libs : Compressors) (codec : CompressionCodec) (rest : Bytes) :
    Attempt OxideMqError Bytes :=
  some ((codec.compress libs (payloadAt rest)).map (deflateBatch codec rest))

def parseStep (rest : Bytes) : Attempt OxideMqError (List Record) :=
  (decodeBatch (baseOffsetOf rest) (baseTimestampOf rest) (numRecordsOf rest)
    (payloadAt rest)).attempt

section

variable {src : Bytes}

theorem compressTurn_eq (libs : Compressors) (codec : CompressionCodec)
    (hsrc : src.length ≤ isizeMax) {s : Walking UInt8} (hc : s.cursor ≤ src.length) :
    compressTurn libs codec src s = walkTurn (compressStep libs codec) src s := by
  rw [compressTurn, batchEnd_eq hsrc hc (by omega) (by omega), walkTurn]
  by_cases h : CompleteFrom 61 s.cursor (src.drop s.cursor)
  · rw [if_pos h, if_pos h, reading_some]
    dsimp only
    rw [slice_header hsrc h (n := 2) rfl (by omega), reading_some, ← totalAt,
      slice_payload hsrc h hc, compressStep]
    split
    · rw [reading_none]
    · rw [reading_some]
      cases codec.compress libs (payloadAt (src.drop s.cursor)) with
      | error e => rfl
      | ok compressed =>
        dsimp only [Except.map]
        rw [slice_baseOffset hsrc h, slice_header hsrc h (n := 4) rfl (by omega),
          slice_header hsrc h (n := 38) rfl (by omega), reading_some, reading_some,
          reading_some, toNat_cursor_add _ (by omega)]
        rfl
  · rw [if_neg h, if_neg h, reading_some]

theorem parseTurn_eq (hsrc : src.length ≤ isizeMax) {s : Walking Record}
    (hc : s.cursor ≤ src.length) : parseTurn src s = walkTurn parseStep src s := by
  rw [parseTurn, batchEnd_eq hsrc hc (by omega) (by omega), walkTurn]
  by_cases h : CompleteFrom 61 s.cursor (src.drop s.cursor)
  · rw [if_pos h, if_pos h, reading_some]
    dsimp only
    rw [slice_baseOffset hsrc h, slice_header hsrc h (n := 8) rfl (by omega),
      slice_header hsrc h (n := 4) rfl (by omega), reading_some, reading_some, reading_some,
      ← totalAt, slice_payload hsrc h hc]
    split
    · rw [reading_none]
    · rw [reading_some, toNat_cursor_add _ (by omega), parseStep,
        baseOffsetOf, baseTimestampOf, numRecordsOf]
      generalize Outcome.attempt _ = parsed
      rcases parsed with _ | e | recs
      · rfl
      · rfl
      · rfl
  · rw [if_neg h, if_neg h, reading_some]

end

/-- What `decompress_record_batch` returns when its loop is left. -/
def decompressResult (src : Bytes) (left : Attempt OxideMqError Inflating) :
    Attempt OxideMqError Bytes :=
  left.andThen fun s => some (.ok (if s.anyDecompressed then s.out ++ src.drop s.cursor else src))

def DecompressGives (libs : Compressors) (src : Bytes) (r : Attempt OxideMqError Bytes) : Prop :=
  ∃ left, Loop.Gives (decompressTurn libs src) ⟨0, [], false⟩ left ∧ r = decompressResult src left

def Decompressed {α : Type} (libs : Compressors) (src : Bytes)
    (second : Bytes → Attempt OxideMqError α → Prop) (r : Attempt OxideMqError α) : Prop :=
  ∃ first, DecompressGives libs src first ∧
    match first with
    | none => r = none
    | some (.error e) => r = some (.error e)
    | some (.ok uncompressed) =>
        if uncompressed.length ≤ isizeMax then second uncompressed r else r = none

def CompressGives (libs : Compressors) (src : Bytes) (targetCodec : CompressionCodec)
    (r : Attempt OxideMqError Bytes) : Prop :=
  if targetCodec = .none then DecompressGives libs src r
  else
    Decompressed libs src (fun uncompressed r =>
      if uncompressed.length < 61 then r = some (.ok src)
      else
        ∃ left, Loop.Gives (compressTurn libs targetCodec uncompressed) ⟨0, []⟩ left ∧
          r = left.andThen fun s => some (.ok (s.out ++ uncompressed.drop s.cursor))) r

def ParseGives (libs : Compressors) (src : Bytes) (r : Attempt OxideMqError (List Record)) : Prop :=
  Decompressed libs src (fun uncompressed r =>
    ∃ left, Loop.Gives (parseTurn uncompressed) ⟨0, []⟩ left ∧
      r = left.andThen fun s => some (.ok s.out)) r

section

variable {libs : Compressors} {src : Bytes}
variable {s : Inflating}

theorem DecompressGives.unique {r r' : Attempt OxideMqError Bytes} (h : DecompressGives libs src r)
    (h' : DecompressGives libs src r') : r = r' := by
  obtain ⟨left, hleft, rfl⟩ := h
  obtain ⟨left', hleft', rfl⟩ := h'
  rw [hleft.unique hleft']

def Inflating.Agrees (libs : Compressors) (src : Bytes) (s : Inflating) :
    Attempt OxideMqError (Bool × Bytes) → Prop
  | some (.ok (any, out)) =>
      ∃ s', Loop.Gives (decompressTurn libs src) s (some (.ok s')) ∧
        s'.anyDecompressed = (s.anyDecompressed || any) ∧
        s'.out ++ src.drop s'.cursor = s.out ++ out
  | some (.error e) => Loop.Gives (decompressTurn libs src) s (some (.error e))
  | none => Loop.Gives (decompressTurn libs src) s none ∨ ¬ Loop.Ends (decompressTurn libs src) s

theorem Inflating.Agrees.of_next {t : Inflating} {batch : Bytes} {any : Bool}
    {res : Attempt OxideMqError (Bool × Bytes)} (hturn : decompressTurn libs src s = .next t)
    (hout : t.out = s.out ++ batch) (hany : t.anyDecompressed = (s.anyDecompressed || any))
    (h : t.Agrees libs src res) :
    s.Agrees libs src (res.andThen fun r => some (.ok (any || r.1, batch ++ r.2))) := by
  match res, h with
  | some (.ok (any', out)), ⟨s', hgives, hany', hout'⟩ =>
    refine ⟨s', (Loop.gives_iff_of_next hturn).mpr hgives, ?_, ?_⟩
    · rw [hany', hany, Bool.or_assoc]
    · rw [hout', hout, append_assoc]
  | some (.error e), h => exact (Loop.gives_iff_of_next hturn).mpr h
  | none, h =>
    exact h.imp (Loop.gives_iff_of_next hturn).mpr (mt (Loop.ends_iff_of_next hturn).mp)

theorem Inflating.agrees_of_stop (hsrc : src.length ≤ isizeMax) (hc : s.cursor ≤ src.length)
    (h : ¬ CompleteFrom 61 s.cursor (src.drop s.cursor)) :
    s.Agrees libs src (some (.ok (false, src.drop s.cursor))) :=
  ⟨s, Loop.gives_of_exit (decompressTurn_stop libs hsrc hc h), (Bool.or_false _).symm, rfl⟩

theorem not_ends_of_empty (hsrc : src.length ≤ isizeMax) (hc : s.cursor ≤ src.length)
    (h : CompleteFrom 61 s.cursor (src.drop s.cursor))
    (hcodec : codecOf (src.drop s.cursor) = .none) (htot : totalAt src s.cursor = 0) :
    ¬ Loop.Ends (decompressTurn libs src) s := by
  refine Loop.not_ends_of_progress (I := fun t => t.cursor = s.cursor) (fun t ht => ?_) rfl
  have hturn := decompressTurn_plain libs hsrc (ht ▸ hc) (ht ▸ h) (ht ▸ hcodec)
  rw [ht, if_neg (by omega), htot, Int.toNat_zero, Nat.add_zero] at hturn
  exact ⟨_, hturn, rfl⟩

theorem decompressLoop_complete (libs : Compressors) {cur : ℕ} {rest : Bytes}
    (h : CompleteFrom 61 cur rest) (fuel : ℕ) :
    decompressLoop libs (fuel + 1) cur rest = if codecOf rest = .none then
        if 12 + batchLengthOf rest ≤ 0 then none
        else
          (decompressLoop libs fuel (cur + (12 + batchLengthOf rest).toNat)
            (rest.drop (12 + batchLengthOf rest).toNat)).andThen fun r =>
              some (.ok (false || r.1, rest.take (12 + batchLengthOf rest).toNat ++ r.2))
      else if 12 + batchLengthOf rest < 61 then none
      else
        match (codecOf rest).decompress libs (payloadAt rest) with
        | .error e => some (.error e)
        | .ok plain =>
          (decompressLoop libs fuel (cur + (12 + batchLengthOf rest).toNat)
            (rest.drop (12 + batchLengthOf rest).toNat)).andThen fun r =>
              some (.ok (true || r.1, inflateBatch rest plain ++ r.2)) := by
  rw [decompressLoop, if_pos ⟨h.1, h.2.1⟩]
  dsimp only
  rw [if_neg h.2.2, codecOf]
  split
  · rfl
  · split
    · rfl
    · rw [payloadAt]
      cases (CompressionCodec.fromAttributes (attributesOf rest)).decompress libs _ with
      | error e => rfl
      | ok plain => rfl

theorem agrees_decompressLoop (hsrc : src.length ≤ isizeMax) {fuel : ℕ} (hc : s.cursor ≤ src.length)
    (hfuel : (src.drop s.cursor).length ≤ fuel) :
    s.Agrees libs src (decompressLoop libs fuel s.cursor (src.drop s.cursor)) := by
  induction fuel generalizing s with
  | zero => exact Inflating.agrees_of_stop hsrc hc fun h => by have := h.1; omega
  | succ fuel ih =>
    by_cases h : CompleteFrom 61 s.cursor (src.drop s.cursor)
    · obtain ⟨hstart, hend⟩ := h.totalAt_le hc
      rw [length_drop] at hfuel
      -- the loop behind the batch, from the state that the turn goes on with
      have hrest : ∀ out any, 0 < totalAt src s.cursor →
          Inflating.Agrees libs src ⟨s.cursor + (totalAt src s.cursor).toNat, out, any⟩
            (decompressLoop libs fuel (s.cursor + (totalAt src s.cursor).toNat)
              ((src.drop s.cursor).drop (totalAt src s.cursor).toNat)) := by
        intro out any hpos
        rw [drop_drop]
        refine ih ?_ ?_
        · show s.cursor + (totalAt src s.cursor).toNat ≤ src.length
          omega
        · show (src.drop (s.cursor + (totalAt src s.cursor).toNat)).length ≤ fuel
          rw [length_drop]
          omega
      have hloop := decompressLoop_complete libs h fuel
      rw [← totalAt] at hloop
      by_cases hcodec : codecOf (src.drop s.cursor) = .none
      · have hturn := decompressTurn_plain libs hsrc hc h hcodec
        rw [if_pos hcodec] at hloop
        by_cases hpos : 0 < totalAt src s.cursor
        · rw [if_neg (by omega)] at hturn hloop
          rw [hloop]
          exact (hrest _ _ hpos).of_next hturn rfl (Bool.or_false _).symm
        · rw [hloop, if_pos (by omega)]
          by_cases hzero : totalAt src s.cursor = 0
          · exact Or.inr (not_ends_of_empty hsrc hc h hcodec hzero)
          · rw [if_pos (by omega)] at hturn
            exact Or.inl (Loop.gives_of_exit hturn)
      · have hturn := decompressTurn_compressed libs hsrc hc h hcodec
        rw [if_neg hcodec] at hloop
        by_cases hshort : totalAt src s.cursor < 61
        · rw [if_pos hshort] at hturn hloop
          rw [hloop]
          exact Or.inl (Loop.gives_of_exit hturn)
        · rw [if_neg hshort] at hturn hloop
          rw [hloop]
          cases hbody : (codecOf (src.drop s.cursor)).decompress libs
              (payloadAt (src.drop s.cursor)) with
          | error e =>
            rw [hbody] at hturn
            exact Loop.gives_of_exit hturn
          | ok plain =>
            rw [hbody] at hturn
            exact (hrest _ _ (by omega)).of_next hturn rfl (Bool.or_true _).symm
    · rw [decompressLoop_of_not_completeAt h]
      exact Inflating.agrees_of_stop hsrc hc h

theorem decompressGives_of_some (hsrc : src.length ≤ isizeMax) {r : Except OxideMqError Bytes}
    (h : decompressRecordBatch libs src = some r) : DecompressGives libs src (some r) := by
  have hagree : Inflating.Agrees libs src ⟨0, [], false⟩ (decompressLoop libs src.length 0 src) :=
    agrees_decompressLoop hsrc (Nat.zero_le _) le_rfl
  rw [decompressRecordBatch] at h
  split at h
  · rename_i hshort
    cases h
    have hstop : ¬ CompleteFrom 61 0 src := fun hcomplete => by have := hcomplete.1; omega
    rw [decompressLoop_of_not_completeAt hstop] at hagree
    obtain ⟨s', hgives, hany, -⟩ := hagree
    refine ⟨_, hgives, ?_⟩
    rw [decompressResult, Attempt.andThen_ok, hany]
    rfl
  · rcases hloop : decompressLoop libs src.length 0 src with _ | e | ⟨any, out⟩
    · rw [hloop] at h
      cases h
    · rw [hloop] at h hagree
      cases h
      exact ⟨_, hagree, rfl⟩
    · rw [hloop] at h hagree
      obtain ⟨s', hgives, hany, hout⟩ := hagree
      refine ⟨_, hgives, ?_⟩
      rw [decompressResult, Attempt.andThen_ok, hany, hout, ← h]
      rfl

theorem decompressGives_of_none (hsrc : src.length ≤ isizeMax)
    (h : decompressRecordBatch libs src = none) :
    Loop.Gives (decompressTurn libs src) ⟨0, [], false⟩ none ∨
      ¬ Loop.Ends (decompressTurn libs src) ⟨0, [], false⟩ := by
  have hagree : Inflating.Agrees libs src ⟨0, [], false⟩ (decompressLoop libs src.length 0 src) :=
    agrees_decompressLoop hsrc (Nat.zero_le _) le_rfl
  rw [decompressRecordBatch] at h
  split at h
  · cases h
  · rcases hloop : decompressLoop libs src.length 0 src with _ | e | ⟨any, out⟩
    · rw [hloop] at hagree
      exact hagree
    · rw [hloop] at h
      cases h
    · rw [hloop] at h
      cases h

end

structure WalksBy {α : Type} (loop : ℕ → ℕ → Bytes → Attempt OxideMqError (List α))
    (step : Bytes → Attempt OxideMqError (List α)) (last : Bytes → List α) : Prop where
  stop : ∀ {cursor rest}, ¬ CompleteFrom 61 cursor rest → ∀ fuel,
    loop fuel cursor rest = some (.ok (last rest))
  complete : ∀ {cursor rest}, CompleteFrom 61 cursor rest → ∀ fuel,
    loop (fuel + 1) cursor rest =
      if 12 + batchLengthOf rest < 61 then none
      else (step rest).andThen fun xs =>
        (loop fuel (cursor + (12 + batchLengthOf rest).toNat)
          (rest.drop (12 + batchLengthOf rest).toNat)).andThen fun ys => some (.ok (xs ++ ys))

theorem walksBy_compressLoop (libs : Compressors) (codec : CompressionCodec) :
    WalksBy (compressLoop libs codec) (compressStep libs codec) id where
  stop h fuel := compressLoop_of_not_completeAt h fuel
  complete {cursor rest} h fuel := by
    rw [compressLoop, if_pos ⟨h.1, h.2.1⟩]
    rw [if_neg h.2.2, compressStep, payloadAt]
    split
    · rfl
    · cases codec.compress libs (field rest 61 ((12 + batchLengthOf rest).toNat - 61)) with
      | error e => rfl
      | ok compressed => rfl

theorem walksBy_parseLoop : WalksBy parseLoop parseStep fun _ => [] where
  stop h fuel := parseLoop_of_not_completeAt h fuel
  complete h fuel := by
    rw [parseLoop, if_pos ⟨h.1, h.2.1⟩]
    rw [if_neg h.2.2, parseStep, payloadAt]

section

variable {α : Type} {loop : ℕ → ℕ → Bytes → Attempt OxideMqError (List α)}
  {step : Bytes → Attempt OxideMqError (List α)} {last : Bytes → List α} {src : Bytes}

theorem WalksBy.gives (hwalks : WalksBy loop step last) {fuel : ℕ} {s : Walking α}
    (hc : s.cursor ≤ src.length) (hfuel : (src.drop s.cursor).length ≤ fuel) :
    ∃ left, Loop.Gives (walkTurn step src) s left ∧
      (left.andThen fun t => some (.ok (t.out ++ last (src.drop t.cursor)))) =
        (loop fuel s.cursor (src.drop s.cursor)).andThen fun xs => some (.ok (s.out ++ xs)) := by
  have hstop : ∀ {s : Walking α}, ¬ CompleteFrom 61 s.cursor (src.drop s.cursor) →
      ∃ left, Loop.Gives (walkTurn step src) s left ∧
        (left.andThen fun t => some (.ok (t.out ++ last (src.drop t.cursor)))) =
          some (.ok (s.out ++ last (src.drop s.cursor))) := fun {s} h =>
    ⟨some (.ok s), Loop.gives_of_exit (if_neg h), rfl⟩
  induction fuel generalizing s with
  | zero =>
    have hshort : ¬ CompleteFrom 61 s.cursor (src.drop s.cursor) := fun h => by
      have := h.1
      omega
    rw [hwalks.stop hshort]
    exact hstop hshort
  | succ fuel ih =>
    by_cases h : CompleteFrom 61 s.cursor (src.drop s.cursor)
    · obtain ⟨hstart, hend⟩ := h.totalAt_le hc
      have hturn := walkTurn.eq_1 step src s
      rw [if_pos h] at hturn
      have hloop := hwalks.complete h fuel
      rw [← totalAt] at hloop
      rw [length_drop] at hfuel
      by_cases hshort : totalAt src s.cursor < 61
      · rw [if_pos hshort] at hturn hloop
        rw [hloop]
        exact ⟨none, Loop.gives_of_exit hturn, rfl⟩
      · rw [if_neg hshort] at hturn hloop
        rw [hloop]
        match hstep : step (src.drop s.cursor) with
        | none =>
          rw [hstep] at hturn
          exact ⟨none, Loop.gives_of_exit hturn, rfl⟩
        | some (.error e) =>
          rw [hstep] at hturn
          exact ⟨some (.error e), Loop.gives_of_exit hturn, rfl⟩
        | some (.ok xs) =>
          rw [hstep] at hturn
          have hin : s.cursor + (totalAt src s.cursor).toNat ≤ src.length := by omega
          have hless : (src.drop (s.cursor + (totalAt src s.cursor).toNat)).length ≤ fuel := by
            rw [length_drop]
            omega
          obtain ⟨left, hleft, heq⟩ :=
            ih (s := ⟨s.cursor + (totalAt src s.cursor).toNat, s.out ++ xs⟩) hin hless
          refine ⟨left, (Loop.gives_iff_of_next hturn).mpr hleft, ?_⟩
          rw [heq, Attempt.andThen_ok, drop_drop]
          match loop fuel (s.cursor + (totalAt src s.cursor).toNat)
              (src.drop (s.cursor + (totalAt src s.cursor).toNat)) with
          | none => rfl
          | some (.error e) => rfl
          | some (.ok ys) => simp only [Attempt.andThen_ok, append_assoc]
    · rw [hwalks.stop h]
      exact hstop h

end

end OxideMq.Protocol
