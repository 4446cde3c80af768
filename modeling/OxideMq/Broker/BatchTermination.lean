import OxideMq.Broker.Patch
import OxideMq.Protocol.BatchWalkers

/-! Whether the loops over the batches of a buffer end. -/

namespace OxideMq.Broker

open Lib OxideMq.Core OxideMq.Protocol List

structure Patching where
  buf : Bytes
  cursor : ℕ
  currentOffset : ℤ

def overwrite (buf : Bytes) (i j : ℕ) (new : Bytes) : Option Bytes :=
  if i ≤ j ∧ j ≤ buf.length ∧ j - i = new.length then some (splice buf i new) else none

/-- One turn of the loop of `patch_record_batches`. -/
def patchTurn (s : Patching) : Turn Patching (Option Patching) :=
  reading (batchEnd 21 s.buf s.cursor) fun
    | none => .exit (some s)
    | some stop =>
        reading (overwrite s.buf s.cursor (usizeAdd s.cursor 8)
          (beEncode 8 (ofSigned 64 s.currentOffset))) fun buf =>
        reading (slice buf (usizeAdd s.cursor 21) stop) fun covered =>
        reading (overwrite buf (usizeAdd s.cursor 17) (usizeAdd s.cursor 21)
          (beEncode 4 (computeCrc32c covered).toNat)) fun buf =>
          if usizeAdd s.cursor 27 ≤ buf.length then
            reading (slice buf (usizeAdd s.cursor 23) (usizeAdd s.cursor 27)) fun delta =>
              .next ⟨buf, stop, wrapSigned 64
                (s.currentOffset + (max (toSigned 32 (beDecode delta)) 0 + 1))⟩
          else .next ⟨buf, stop, wrapSigned 64 (s.currentOffset + 1)⟩

section

variable {s : Patching}

theorem patchTurn_stop (hbuf : s.buf.length ≤ isizeMax) (hc : s.cursor ≤ s.buf.length)
    (h : ¬ CompleteFrom 21 s.cursor (s.buf.drop s.cursor)) : patchTurn s = .exit (some s) := by
  rw [patchTurn, batchEnd_eq hbuf hc (by omega) (by omega), if_neg h, reading_some]

theorem splice_drop (buf new : Bytes) (c i : ℕ) :
    splice buf (c + i) new = buf.take c ++ splice (buf.drop c) i new := by
  simp only [splice, drop_drop, take_add, append_assoc, Nat.add_assoc]

theorem overwrite_eq {buf new : Bytes} {c i j : ℕ} (hj : c + j ≤ buf.length)
    (hnew : j = i + new.length) :
    overwrite buf (c + i) (c + j) new = some (buf.take c ++ splice (buf.drop c) i new) := by
  rw [overwrite, if_pos ⟨by omega, hj, by omega⟩, splice_drop]

theorem patchTurn_complete (hbuf : s.buf.length ≤ isizeMax) (hc : s.cursor ≤ s.buf.length)
    (h : CompleteFrom 21 s.cursor (s.buf.drop s.cursor)) :
    patchTurn s = if totalAt s.buf s.cursor < 21 then .exit none
      else
        let rest := patchHeader (s.buf.drop s.cursor) (totalAt s.buf s.cursor).toNat s.currentOffset
        .next ⟨s.buf.take s.cursor ++ rest, s.cursor + (totalAt s.buf s.cursor).toNat,
          wrapSigned 64 (s.currentOffset + patchCount rest)⟩ := by
  obtain ⟨buf, c, off⟩ := s
  dsimp only at hbuf hc h ⊢
  have hhead : 21 ≤ buf.length - c := length_drop ▸ h.1
  obtain ⟨hstart, hend⟩ := h.totalAt_le hc
  -- the buffer after each of the two writes
  have hfront : overwrite buf c (c + 8) (beEncode 8 (ofSigned 64 off)) =
      some (buf.take c ++ splice (buf.drop c) 0 (beEncode 8 (ofSigned 64 off))) :=
    overwrite_eq (i := 0) (by omega) (by simp)
  have hlen : (splice (buf.drop c) 0 (beEncode 8 (ofSigned 64 off))).length =
      (buf.drop c).length := splice_length _ _ (by rw [length_drop]; simp; omega)
  have htake : (buf.take c).length = c := length_take_of_le hc
  rw [patchTurn, batchEnd_eq hbuf hc (by omega) (by omega)]
  rw [if_pos h, reading_some]
  dsimp only
  rw [usizeAdd_of_le hbuf (by omega), hfront, reading_some, usizeAdd_of_le hbuf (by omega),
    ← totalAt]
  by_cases hshort : totalAt buf c < 21
  · rw [if_pos hshort, slice, if_neg (by omega), reading_none]
  · rw [if_neg hshort, show (c + totalAt buf c).toNat = c + (totalAt buf c).toNat by omega,
      slice_add (n := (totalAt buf c).toNat - 21) (by omega)
        (by rw [length_append, htake, hlen, length_drop]; omega),
      drop_left' htake, reading_some, usizeAdd_of_le hbuf (by omega),
      overwrite_eq (by rw [length_append, htake, hlen, length_drop]; omega) (by simp),
      drop_left' htake, take_left' htake, reading_some, ← patchHeader]
    have hpat : (patchHeader (buf.drop c) (totalAt buf c).toNat off).length =
        (buf.drop c).length := patchHeader_length h.1 _ _
    generalize patchHeader (buf.drop c) (totalAt buf c).toNat off = rest at hpat ⊢
    rw [usizeAdd_of_le hbuf (by omega), usizeAdd_of_le hbuf (by omega), length_append, htake,
      patchCount]
    by_cases hdelta : 27 ≤ rest.length
    · rw [if_pos (by omega), if_pos hdelta, slice_add (n := 4) rfl
        (by rw [length_append, htake]; omega), drop_left' htake, reading_some,
        recordCountOf, lastOffsetDeltaOf]
    · rw [if_neg (by omega), if_neg hdelta]

theorem patchLoop_stop {cur : ℕ} {rest : Bytes} (h : ¬ CompleteFrom 21 cur rest) (fuel : ℕ)
    (off : ℤ) : patchLoop fuel cur rest off = some (rest, off) := by
  cases fuel with
  | zero => rfl
  | succ fuel =>
    rw [patchLoop]
    split
    · rename_i hfull
      exact if_pos (by_contra fun hends => h ⟨hfull.1, hfull.2, hends⟩)
    · rfl

theorem patchLoop_complete {cur : ℕ} {rest : Bytes} (h : CompleteFrom 21 cur rest) (fuel : ℕ)
    (off : ℤ) :
    patchLoop (fuel + 1) cur rest off = if 12 + batchLengthOf rest < 21 then none
      else
        let rest' := patchHeader rest (12 + batchLengthOf rest).toNat off
        (patchLoop fuel (cur + (12 + batchLengthOf rest).toNat)
          (rest'.drop (12 + batchLengthOf rest).toNat)
          (wrapSigned 64 (off + patchCount rest'))).map
          fun r => (rest'.take (12 + batchLengthOf rest).toNat ++ r.1, r.2) := by
  rw [patchLoop, if_pos ⟨h.1, h.2.1⟩]
  exact if_neg h.2.2

theorem gives_patchLoop {fuel : ℕ} {front rest : Bytes} {off : ℤ}
    (hbuf : (front ++ rest).length ≤ isizeMax) (hfuel : rest.length ≤ fuel) :
    ∃ left, Loop.Gives patchTurn ⟨front ++ rest, front.length, off⟩ left ∧
      left.map (fun t => (t.buf, t.currentOffset)) =
        (patchLoop fuel front.length rest off).map fun r => (front ++ r.1, r.2) := by
  have hstop : ∀ {front rest : Bytes} {off : ℤ} (fuel : ℕ), (front ++ rest).length ≤ isizeMax →
      ¬ CompleteFrom 21 front.length rest →
      ∃ left, Loop.Gives patchTurn ⟨front ++ rest, front.length, off⟩ left ∧
        left.map (fun t => (t.buf, t.currentOffset)) =
          (patchLoop fuel front.length rest off).map fun r => (front ++ r.1, r.2) := by
    intro front rest off fuel hbuf h
    rw [patchLoop_stop h]
    exact ⟨_, Loop.gives_of_exit (patchTurn_stop hbuf (by simp) (by rwa [drop_left])), rfl⟩
  induction fuel generalizing front rest off with
  | zero => exact hstop 0 hbuf fun h => by have := h.1; omega
  | succ fuel ih =>
    by_cases h : CompleteFrom 21 front.length rest
    · have hturn := patchTurn_complete (s := ⟨front ++ rest, front.length, off⟩) hbuf (by simp)
        (by rwa [drop_left])
      simp only [drop_left, take_left, totalAt] at hturn
      rw [patchLoop_complete h]
      by_cases hshort : 12 + batchLengthOf rest < 21
      · rw [if_pos hshort] at hturn ⊢
        exact ⟨none, Loop.gives_of_exit hturn, rfl⟩
      · rw [if_neg hshort] at hturn ⊢
        have hends := h.2.2
        have hlen := patchHeader_length h.1 (12 + batchLengthOf rest).toNat off
        generalize hrest : patchHeader rest _ off = rest' at hturn hlen ⊢
        generalize htot : (12 + batchLengthOf rest).toNat = total at hturn ⊢
        -- the passed batch belongs to the front of the next state
        have htake : (rest'.take total).length = total := length_take_of_le (by omega)
        have hnext : front ++ rest' = (front ++ rest'.take total) ++ rest'.drop total := by
          rw [append_assoc, take_append_drop]
        have hcur : front.length + total = (front ++ rest'.take total).length := by
          rw [length_append, htake]
        rw [length_append, ← hlen, ← length_append, hnext] at hbuf
        obtain ⟨left, hleft, heq⟩ := @ih _ _ (wrapSigned 64 (off + patchCount rest')) hbuf
          (by rw [length_drop]; omega)
        rw [hnext, hcur] at hturn
        refine ⟨left, (Loop.gives_iff_of_next hturn).mpr hleft, ?_⟩
        rw [heq, hcur, Option.map_map]
        simp only [Function.comp_def, append_assoc]
    · exact hstop _ hbuf h

end

def PatchGives (records : Bytes) (baseOffset : ℤ) (r : Option (Bytes × ℤ)) : Prop :=
  if records.length < 21 then r = some (records, 1)
  else
    ∃ left, Loop.Gives patchTurn ⟨records, 0, baseOffset⟩ left ∧
      r = left.map fun s => (s.buf, max (wrapSigned 64 (s.currentOffset - baseOffset)) 1)

theorem patchGives_iff {records : Bytes} (hrecs : records.length ≤ isizeMax) (baseOffset : ℤ)
    (r : Option (Bytes × ℤ)) :
    PatchGives records baseOffset r ↔ r = patchRecordBatches records baseOffset := by
  rw [PatchGives, patchRecordBatches]
  split
  · rfl
  · obtain ⟨left, hleft, heq⟩ := @gives_patchLoop _ [] _ baseOffset hrecs le_rfl
    have hres : (left.map fun s =>
        (s.buf, max (wrapSigned 64 (s.currentOffset - baseOffset)) 1)) =
          (patchLoop records.length 0 records baseOffset).map fun r =>
            (r.1, max (wrapSigned 64 (r.2 - baseOffset)) 1) := by
      have hmap := congrArg (Option.map fun r : Bytes × ℤ =>
        (r.1, max (wrapSigned 64 (r.2 - baseOffset)) 1)) heq
      rw [Option.map_map, Option.map_map] at hmap
      exact hmap
    constructor
    · rintro ⟨left', hleft', rfl⟩
      rw [hleft'.unique hleft]
      exact hres
    · intro hr
      exact ⟨left, hleft, hr.trans hres.symm⟩

theorem walkTurn_next {α : Type} {step : Bytes → Attempt OxideMqError (List α)} {src : Bytes}
    {s t : Walking α} (hc : s.cursor ≤ src.length) (hturn : walkTurn step src s = .next t) :
    t.cursor ≤ src.length ∧ s.cursor < t.cursor := by
  by_cases h : CompleteFrom 61 s.cursor (src.drop s.cursor)
  · obtain ⟨hstart, hend⟩ := h.totalAt_le hc
    rw [walkTurn, if_pos h] at hturn
    split at hturn
    · cases hturn
    · split at hturn
      · cases hturn
      · cases hturn
      · obtain rfl := Turn.next.inj hturn
        dsimp only
        omega
  · rw [walkTurn, if_neg h] at hturn
    cases hturn

theorem patchTurn_next {n : ℕ} (hn : n ≤ isizeMax) {s t : Patching}
    (hs : s.buf.length = n ∧ s.cursor ≤ n) (hturn : patchTurn s = .next t) :
    (t.buf.length = n ∧ t.cursor ≤ n) ∧ s.cursor < t.cursor := by
  obtain ⟨rfl, hc⟩ := hs
  by_cases h : CompleteFrom 21 s.cursor (s.buf.drop s.cursor)
  · obtain ⟨hstart, hend⟩ := h.totalAt_le hc
    rw [patchTurn_complete hn hc h] at hturn
    split at hturn
    · cases hturn
    · have hlen := patchHeader_length h.1 (totalAt s.buf s.cursor).toNat s.currentOffset
      cases hturn
      dsimp only
      rw [length_append, hlen, length_take_of_le hc, length_drop]
      omega
  · rw [patchTurn_stop hn hc h] at hturn
    cases hturn

inductive BatchStart (libs : Compressors) (src : Bytes) : ℕ → Prop
  | first : BatchStart libs src 0
  | next {c : ℕ} : BatchStart libs src c → 61 ≤ (src.drop c).length → magicOf (src.drop c) = 2 →
      0 < totalAt src c → totalAt src c ≤ (src.drop c).length →
      (codecOf (src.drop c) = .none ∨ 61 ≤ totalAt src c ∧
        ∃ body, (codecOf (src.drop c)).decompress libs (payloadAt (src.drop c)) = .ok body) →
      BatchStart libs src (c + (totalAt src c).toNat)

def EmptyBatch (rest : Bytes) : Prop :=
  61 ≤ rest.length ∧ magicOf rest = 2 ∧ batchLengthOf rest = -12 ∧ codecOf rest = .none

section

variable {libs : Compressors} {src : Bytes}

theorem decompressTurn_next (hsrc : src.length ≤ isizeMax) {s t : Inflating}
    (hc : s.cursor ≤ src.length) (hs : BatchStart libs src s.cursor)
    (hturn : decompressTurn libs src s = .next t) :
    (t.cursor ≤ src.length ∧ BatchStart libs src t.cursor) ∧
      (s.cursor < t.cursor ∨ EmptyBatch (src.drop s.cursor)) := by
  by_cases h : CompleteFrom 61 s.cursor (src.drop s.cursor)
  · obtain ⟨hstart, hend⟩ := h.totalAt_le hc
    have hlen : totalAt src s.cursor ≤ (src.drop s.cursor).length := by
      rw [length_drop]
      omega
    by_cases hcodec : codecOf (src.drop s.cursor) = .none
    · rw [decompressTurn_plain libs hsrc hc h hcodec] at hturn
      split at hturn
      · cases hturn
      · obtain rfl := Turn.next.inj hturn
        dsimp only
        by_cases hpos : 0 < totalAt src s.cursor
        · exact ⟨⟨by omega, hs.next h.1 h.2.1 hpos hlen (Or.inl hcodec)⟩, Or.inl (by omega)⟩
        · have hzero : totalAt src s.cursor = 0 := by omega
          have hemp : batchLengthOf (src.drop s.cursor) = -12 := by
            rw [totalAt] at hzero
            omega
          rw [hzero]
          exact ⟨⟨hc, hs⟩, Or.inr ⟨h.1, h.2.1, hemp, hcodec⟩⟩
    · rw [decompressTurn_compressed libs hsrc hc h hcodec] at hturn
      split at hturn
      · cases hturn
      · rename_i hshort
        split at hturn
        · cases hturn
        · rename_i body hbody
          obtain rfl := Turn.next.inj hturn
          dsimp only
          exact ⟨⟨by omega, hs.next h.1 h.2.1 (by omega) hlen
            (Or.inr ⟨by omega, body, hbody⟩)⟩, Or.inl (by omega)⟩
  · rw [decompressTurn_stop libs hsrc hc h] at hturn
    cases hturn

theorem BatchStart.reached (hsrc : src.length ≤ isizeMax) {c : ℕ} (h : BatchStart libs src c) :
    c ≤ src.length ∧ ∃ s : Inflating,
      Loop.Reaches (decompressTurn libs src) ⟨0, [], false⟩ s ∧ s.cursor = c := by
  induction h with
  | first => exact ⟨Nat.zero_le _, _, Loop.Reaches.refl _, rfl⟩
  | @next c hstart hhead hmagic hpos hlen hpass ih =>
    obtain ⟨hc, s, hreach, rfl⟩ := ih
    have hcomp := completeFrom_of_le hhead hmagic hpos hlen
    rw [length_drop] at hlen
    refine ⟨by omega, ?_⟩
    by_cases hcodec : codecOf (src.drop s.cursor) = .none
    · have hturn := decompressTurn_plain libs hsrc hc hcomp hcodec
      rw [if_neg (by omega)] at hturn
      exact ⟨_, hreach.trans (Loop.reaches_of_next hturn (Loop.Reaches.refl _)), rfl⟩
    · obtain ⟨hlong, body, hbody⟩ := hpass.resolve_left hcodec
      have hturn := decompressTurn_compressed libs hsrc hc hcomp hcodec
      rw [if_neg (by omega), hbody] at hturn
      exact ⟨_, hreach.trans (Loop.reaches_of_next hturn (Loop.Reaches.refl _)), rfl⟩

end

structure WalkersEnd (libs : Compressors) (src : Bytes) : Prop where
  decompress : ∃ r, DecompressGives libs src r
  compress : ∀ codec, ∃ r, CompressGives libs src codec r
  parse : ∃ r, ParseGives libs src r
  patch : ∀ baseOffset, ∃ r, PatchGives src baseOffset r

structure WalkersAdvance (libs : Compressors) (src : Bytes) : Prop where
  decompress : Loop.Advances (decompressTurn libs src) Inflating.cursor ⟨0, [], false⟩
  compress : ∀ codec uncompressed, DecompressGives libs src (some (.ok uncompressed)) →
    uncompressed.length ≤ isizeMax →
    Loop.Advances (compressTurn libs codec uncompressed) Walking.cursor ⟨0, []⟩
  parse : ∀ uncompressed, DecompressGives libs src (some (.ok uncompressed)) →
    uncompressed.length ≤ isizeMax → Loop.Advances (parseTurn uncompressed) Walking.cursor ⟨0, []⟩
  patch : ∀ baseOffset, Loop.Advances patchTurn Patching.cursor ⟨src, 0, baseOffset⟩

section

variable {libs : Compressors} {src : Bytes}

theorem compressTurn_next (codec : CompressionCodec) (hsrc : src.length ≤ isizeMax)
    (s t : Walking UInt8) (hc : s.cursor ≤ src.length)
    (hturn : compressTurn libs codec src s = .next t) :
    t.cursor ≤ src.length ∧ s.cursor < t.cursor := by
  rw [compressTurn_eq libs codec hsrc hc] at hturn
  exact walkTurn_next hc hturn

theorem parseTurn_next (hsrc : src.length ≤ isizeMax) (s t : Walking Record)
    (hc : s.cursor ≤ src.length) (hturn : parseTurn src s = .next t) :
    t.cursor ≤ src.length ∧ s.cursor < t.cursor := by
  rw [parseTurn_eq hsrc hc] at hturn
  exact walkTurn_next hc hturn

theorem exists_decompressed {α : Type} {second : Bytes → Attempt OxideMqError α → Prop}
    (hfirst : ∃ r, DecompressGives libs src r)
    (hsecond : ∀ plain, plain.length ≤ isizeMax → ∃ r, second plain r) :
    ∃ r, Decompressed libs src second r := by
  obtain ⟨first, hgives⟩ := hfirst
  match first, hgives with
  | none, hgives => exact ⟨none, none, hgives, rfl⟩
  | some (.error e), hgives => exact ⟨some (.error e), _, hgives, rfl⟩
  | some (.ok plain), hgives =>
    by_cases hfits : plain.length ≤ isizeMax
    · obtain ⟨r, hr⟩ := hsecond plain hfits
      exact ⟨r, _, hgives, by dsimp only; rwa [if_pos hfits]⟩
    · exact ⟨none, _, hgives, by dsimp only; rw [if_neg hfits]⟩

theorem exists_compressGives (h : ∃ r, DecompressGives libs src r) (codec : CompressionCodec) :
    ∃ r, CompressGives libs src codec r := by
  unfold CompressGives
  split
  · exact h
  · refine exists_decompressed h fun plain hfits => ?_
    split
    · exact ⟨_, rfl⟩
    · obtain ⟨left, hleft⟩ : Loop.Ends (compressTurn libs codec plain) ⟨0, []⟩ :=
        Loop.ends_of_bounded (compressTurn_next codec hfits) (fun _ hc => hc) (Nat.zero_le _)
      exact ⟨_, left, hleft, rfl⟩

theorem exists_parseGives (h : ∃ r, DecompressGives libs src r) : ∃ r, ParseGives libs src r := by
  refine exists_decompressed h fun plain hfits => ?_
  obtain ⟨left, hleft⟩ : Loop.Ends (parseTurn plain) ⟨0, []⟩ :=
    Loop.ends_of_bounded (parseTurn_next hfits) (fun _ hc => hc) (Nat.zero_le _)
  exact ⟨_, left, hleft, rfl⟩

end

theorem walkers_end_iff (libs : Compressors) (src : Buffer) :
    (WalkersEnd libs src.bytes ∧ WalkersAdvance libs src.bytes) ↔
      ∀ c, BatchStart libs src.bytes c → ¬ EmptyBatch (src.bytes.drop c) := by
  obtain ⟨src, hsrc⟩ := src
  constructor
  · rintro ⟨hends, -⟩ c hstart hemp
    obtain ⟨hc, s, hreach, rfl⟩ := hstart.reached hsrc
    obtain ⟨-, left, hleft, -⟩ := hends.decompress
    obtain ⟨hhead, hmagic, hlen, hcodec⟩ := hemp
    have htot : totalAt src s.cursor = 0 := by
      rw [totalAt, hlen]
      rfl
    have hcomp : CompleteFrom 61 s.cursor (src.drop s.cursor) :=
      ⟨hhead, hmagic, by rw [hlen]; omega⟩
    exact not_ends_of_empty hsrc hc hcomp hcodec htot ⟨left, hreach.gives_iff.mp hleft⟩
  · intro hnone
    have hstep : ∀ s t : Inflating, (s.cursor ≤ src.length ∧ BatchStart libs src s.cursor) →
        decompressTurn libs src s = .next t →
        (t.cursor ≤ src.length ∧ BatchStart libs src t.cursor) ∧ s.cursor < t.cursor := by
      rintro s t ⟨hc, hs⟩ hturn
      obtain ⟨ht, hfwd⟩ := decompressTurn_next hsrc hc hs hturn
      exact ⟨ht, hfwd.resolve_right (hnone _ hs)⟩
    have hfirst : (0 : ℕ) ≤ src.length ∧ BatchStart libs src 0 := ⟨Nat.zero_le _, .first⟩
    have hpat : ∀ s t : Patching, (s.buf.length = src.length ∧ s.cursor ≤ src.length) →
        patchTurn s = .next t →
        (t.buf.length = src.length ∧ t.cursor ≤ src.length) ∧ s.cursor < t.cursor :=
      fun s t hs hturn => patchTurn_next hsrc hs hturn
    have hdec : ∃ r, DecompressGives libs src r := by
      obtain ⟨left, hleft⟩ : Loop.Ends (decompressTurn libs src) ⟨0, [], false⟩ :=
        Loop.ends_of_bounded hstep (fun _ hs => hs.1) hfirst
      exact ⟨_, left, hleft, rfl⟩
    refine ⟨⟨hdec, exists_compressGives hdec, exists_parseGives hdec, ?_⟩,
      ⟨Loop.advances_of_step hstep hfirst, ?_, ?_, ?_⟩⟩
    · intro base
      exact ⟨_, (patchGives_iff hsrc base _).mpr rfl⟩
    · intro codec plain _ hfits
      exact Loop.advances_of_step (compressTurn_next codec hfits) (Nat.zero_le _)
    · intro plain _ hfits
      exact Loop.advances_of_step (parseTurn_next hfits) (Nat.zero_le _)
    · intro base
      exact Loop.advances_of_step hpat ⟨rfl, Nat.zero_le _⟩

def plainHeader (batchLength : ℤ) : Bytes :=
  beEncode 8 0 ++ (beEncode 4 (ofSigned 32 batchLength) ++ (beEncode 4 0 ++ ([2] ++
    List.replicate 44 0)))

theorem empty_batch_never_ends :
    (plainHeader (-12)).length = 61 ∧ ¬ ∃ r, DecompressGives runLibs (plainHeader (-12)) r := by
  have hsize : (plainHeader (-12)).length = 61 := by decide +kernel
  refine ⟨hsize, fun ⟨_, left, hleft, _⟩ => ?_⟩
  have hfits : (plainHeader (-12)).length ≤ isizeMax := by
    rw [hsize]
    decide
  exact not_ends_of_empty (s := ⟨0, [], false⟩) hfits (Nat.zero_le _)
    (by decide +kernel) (by decide +kernel) (by decide +kernel) ⟨left, hleft⟩

end OxideMq.Broker
