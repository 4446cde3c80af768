import OxideMq.Protocol.KafkaEncoder

/-! Frames on a connection: four bytes of length, then the frame. -/

namespace OxideMq.Protocol

open Lib OxideMq.Core List

def maxKafkaFrameSize : ℕ := 100 * 1024 * 1024

namespace KafkaFrameCodec

def decode (src : Bytes) : Except OxideMqError (Option Bytes) × Bytes :=
  if src.length < 4 then (.ok none, src)
  else
    let frameLen := toSigned 32 (beDecode (src.take 4))
    if frameLen < 0 then
      (.error (.protocol ("Negative frame length: " ++ toString frameLen)), src)
    else if frameLen.toNat > maxKafkaFrameSize then
      (.error (.protocol ("Frame length exceeds maximum (" ++ toString frameLen.toNat ++ " > " ++
        toString maxKafkaFrameSize ++ ")")), src)
    else if src.length < 4 + frameLen.toNat then (.ok none, src)
    else (.ok (some ((src.drop 4).take frameLen.toNat)), src.drop (4 + frameLen.toNat))

/-- The length is cast to an `i32`. -/
def encode (item dst : Bytes) : Bytes := dst ++ putI32 (wrapSigned 32 item.length) ++ item

theorem length_of_decode_some {src frame rest : Bytes} (h : decode src = (.ok (some frame), rest)) :
    rest.length < src.length := by
  unfold decode at h
  split at h
  · simp at h
  dsimp only at h
  split at h
  · simp at h
  split at h
  · simp at h
  split at h
  · simp at h
  obtain ⟨-, rfl⟩ := Prod.mk.inj h
  rw [length_drop]
  omega

def decodeAll (src : Bytes) : Except OxideMqError (List Bytes × Bytes) :=
  match _h : decode src with
  | (.error e, _) => .error e
  | (.ok none, rest) => .ok ([], rest)
  | (.ok (some frame), rest) =>
      match decodeAll rest with
      | .error e => .error e
      | .ok (frames, rest') => .ok (frame :: frames, rest')
termination_by src.length
decreasing_by exact length_of_decode_some _h

def receive (buffer : Bytes) : List Bytes → Except OxideMqError (List Bytes × Bytes)
  | [] => .ok ([], buffer)
  | chunk :: chunks =>
      match decodeAll (buffer ++ chunk) with
      | .error e => .error e
      | .ok (frames, rest) =>
          match receive rest chunks with
          | .error e => .error e
          | .ok (more, rest') => .ok (frames ++ more, rest')

def encodeAll (frames : List Bytes) : Bytes :=
  frames.foldl (fun dst item => encode item dst) []

theorem rest_of_decode_none {src rest : Bytes} (h : decode src = (.ok none, rest)) :
    rest = src := by
  unfold decode at h
  split at h
  · exact (Prod.mk.inj h).2.symm
  dsimp only at h
  split at h
  · simp at h
  split at h
  · simp at h
  split at h
  · exact (Prod.mk.inj h).2.symm
  · simp at h

theorem encode_append (frame dst : Bytes) : encode frame dst = dst ++ encode frame [] := by
  rw [encode, encode, nil_append, append_assoc]

theorem encodeAll_eq (frames : List Bytes) : encodeAll frames = frames.flatMap (encode · []) := by
  have hdst : ∀ dst, frames.foldl (fun dst item => encode item dst) dst =
      dst ++ frames.flatMap (encode · []) := by
    induction frames with
    | nil => simp
    | cons frame frames ih =>
      intro dst
      rw [foldl_cons, ih, encode_append, flatMap_cons, append_assoc]
  exact (hdst []).trans (nil_append _)

theorem fits_length {frame : Bytes} (h : frame.length ≤ maxKafkaFrameSize) :
    FitsSigned 32 (frame.length : ℤ) := by
  unfold maxKafkaFrameSize at h
  constructor
  · norm_num
  · norm_num
    omega

theorem encode_nil {frame : Bytes} (h : frame.length ≤ maxKafkaFrameSize) :
    encode frame [] = putI32 frame.length ++ frame := by
  rw [encode, wrapSigned_of_fits (by norm_num) (fits_length h), nil_append]

theorem length_putI32 (x : ℤ) : (putI32 x).length = 4 := beEncode_length 4 _

theorem decode_length {frame tail : Bytes} (h : frame.length ≤ maxKafkaFrameSize) :
    decode (putI32 frame.length ++ tail) =
      if tail.length < frame.length then (.ok none, putI32 frame.length ++ tail)
      else (.ok (some (tail.take frame.length)), tail.drop frame.length) := by
  have hfour := length_putI32 frame.length
  have hlen : toSigned 32 (beDecode ((putI32 (frame.length : ℤ) ++ tail).take 4)) =
      (frame.length : ℤ) := by
    rw [take_left' hfour]
    exact toSigned_beEncode (k := 4) (by norm_num) (fits_length h)
  have hlong : ¬(putI32 (frame.length : ℤ) ++ tail).length < 4 := by
    rw [length_append, hfour]
    omega
  unfold decode
  rw [if_neg hlong, hlen]
  dsimp only
  rw [if_neg (by omega), Int.toNat_natCast, if_neg (not_lt.mpr h), length_append, hfour,
    drop_left' hfour, ← drop_drop, drop_left' hfour]
  simp only [Nat.add_lt_add_iff_left]

theorem decode_incomplete {frame src rest more : Bytes} (h : frame.length ≤ maxKafkaFrameSize)
    (hsrc : src ++ rest = encode frame [] ++ more)
    (hshort : src.length < (encode frame []).length) : decode src = (.ok none, src) := by
  rw [encode_nil h] at hsrc hshort
  have hfour := length_putI32 frame.length
  rw [length_append, hfour] at hshort
  rw [append_assoc] at hsrc
  by_cases hlt : src.length < 4
  · rw [decode, if_pos hlt]
  obtain ⟨mid, rfl, -⟩ | ⟨mid, hmid, -⟩ := append_eq_append_iff.mp hsrc.symm
  · rw [length_append, hfour] at hshort
    rw [decode_length h, if_pos (by omega)]
  · -- the buffer ends inside the length, so with it
    have hlen := congrArg List.length hmid
    rw [length_append, hfour] at hlen
    obtain rfl : mid = [] := length_eq_zero_iff.mp (by omega)
    rw [append_nil] at hmid
    have hall := @decode_length frame [] h
    rw [append_nil, hmid] at hall
    rw [hall, if_pos (by rw [length_nil]; omega)]

theorem decodeAll_spec {frames : List Bytes} {src rest : Bytes}
    (hsmall : ∀ frame ∈ frames, frame.length ≤ maxKafkaFrameSize)
    (hsrc : src ++ rest = frames.flatMap (encode · [])) :
    ∃ done todo src', frames = done ++ todo ∧ decodeAll src = .ok (done, src') ∧
      src' ++ rest = todo.flatMap (encode · []) ∧ (rest = [] → todo = []) := by
  induction frames generalizing src with
  | nil =>
    obtain ⟨rfl, rfl⟩ := append_eq_nil_iff.mp hsrc
    refine ⟨[], [], [], rfl, ?_, rfl, fun _ => rfl⟩
    rw [decodeAll, show decode [] = (.ok none, []) from rfl]
  | cons frame frames ih =>
    obtain ⟨hframe, hframes⟩ := forall_mem_cons.mp hsmall
    rw [flatMap_cons] at hsrc
    by_cases hshort : src.length < (encode frame []).length
    · refine ⟨[], frame :: frames, src, rfl, ?_, hsrc, ?_⟩
      · rw [decodeAll, decode_incomplete hframe hsrc hshort]
      · rintro rfl
        have hlen := congrArg List.length hsrc
        rw [append_nil, length_append] at hlen
        omega
    · obtain ⟨src', rfl⟩ := prefix_of_prefix_length_le (prefix_append _ _) ⟨rest, hsrc⟩
        (not_lt.mp hshort)
      rw [append_assoc] at hsrc
      have hrest := append_cancel_left hsrc
      obtain ⟨done, todo, left, rfl, hdone, hleft, hend⟩ := ih hframes hrest
      have hdec : decode (encode frame [] ++ src') = (.ok (some frame), src') := by
        rw [encode_nil hframe, append_assoc, decode_length hframe, length_append,
          if_neg (by omega), take_left, drop_left]
      refine ⟨frame :: done, todo, left, rfl, ?_, hleft, hend⟩
      rw [decodeAll, hdec]
      dsimp only
      rw [hdone]

theorem receive_spec {chunks frames : List Bytes} {buf : Bytes}
    (hsmall : ∀ frame ∈ frames, frame.length ≤ maxKafkaFrameSize)
    (hbytes : buf ++ chunks.flatten = frames.flatMap (encode · []))
    (hend : chunks.flatten = [] → frames = []) : receive buf chunks = .ok (frames, []) := by
  induction chunks generalizing frames buf with
  | nil =>
    obtain rfl := hend rfl
    obtain ⟨rfl, -⟩ := append_eq_nil_iff.mp hbytes
    rfl
  | cons chunk chunks ih =>
    rw [flatten_cons, ← append_assoc] at hbytes
    obtain ⟨done, todo, left, rfl, hdone, hleft, hrest⟩ := decodeAll_spec hsmall hbytes
    have hmore := ih (fun frame h => hsmall frame (mem_append_right _ h)) hleft hrest
    rw [receive, hdone]
    dsimp only
    rw [hmore]

theorem receive_encodeAll (frames chunks : List Bytes)
    (hsmall : ∀ frame ∈ frames, frame.length ≤ 100 * 1024 * 1024)
    (hchunks : chunks.flatten = encodeAll frames) :
    receive [] chunks = .ok (frames, []) ∧
      ∀ src rest, decode src = (.ok none, rest) → rest = src := by
  refine ⟨?_, fun _ _ => rest_of_decode_none⟩
  rw [encodeAll_eq] at hchunks
  refine receive_spec hsmall hchunks fun hnil => ?_
  rw [hnil] at hchunks
  refine eq_nil_iff_forall_not_mem.mpr fun frame hmem => ?_
  have henc := flatMap_eq_nil_iff.mp hchunks.symm frame hmem
  rw [encode_nil (hsmall frame hmem)] at henc
  have hlen := congrArg List.length henc
  rw [length_append, length_putI32, length_nil] at hlen
  omega

theorem receive_encodeAll_of_two :
    receive [] [[0, 0], [0, 2, 7, 8, 0, 0, 0], [], [0]] = .ok ([[7, 8], []], []) :=
  (receive_encodeAll [[7, 8], []] [[0, 0], [0, 2, 7, 8, 0, 0, 0], [], [0]] (by decide)
    (by decide)).1

end KafkaFrameCodec

end OxideMq.Protocol
