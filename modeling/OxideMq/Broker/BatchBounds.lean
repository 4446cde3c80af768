import OxideMq.Broker.BatchTermination
import OxideMq.Broker.Partition

/-! Whether the loops over the batches of a buffer stay inside it. -/

namespace OxideMq.Broker

open Lib OxideMq.Core OxideMq.Protocol OxideMq.Wal OxideMq.Stream List

inductive BatchAt (src : Bytes) : ℕ → Prop
  | first : BatchAt src 0
  | next {c : ℕ} : BatchAt src c → 21 ≤ (src.drop c).length → magicOf (src.drop c) = 2 →
      0 < totalAt src c → totalAt src c ≤ (src.drop c).length →
      BatchAt src (c + (totalAt src c).toNat)

def NonnegativeLengths (src : Bytes) : Prop :=
  ∀ c, BatchAt src c → 21 ≤ (src.drop c).length → magicOf (src.drop c) = 2 →
    0 ≤ batchLengthOf (src.drop c)

section

variable {libs : Compressors} {src : Bytes} {c : ℕ}

theorem BatchAt.le_length (h : BatchAt src c) : c ≤ src.length := by
  induction h with
  | first => exact Nat.zero_le _
  | next _ _ _ _ hlen ih =>
    rw [length_drop] at hlen
    omega

theorem BatchStart.batchAt (h : BatchStart libs src c) : BatchAt src c := by
  induction h with
  | first => exact .first
  | next _ hhead hmagic hpos hlen _ ih =>
    exact ih.next (le_trans (by omega) hhead) hmagic hpos hlen

theorem NonnegativeLengths.not_completeAt (hlens : NonnegativeLengths src) (h : BatchAt src c)
    (hstop : ¬ CompleteFrom 61 c (src.drop c)) (pos : ℕ) :
    ¬ CompleteAt pos (src.drop c) := by
  rintro ⟨hhead, hmagic, hends⟩
  have hlen := hlens c h (le_trans (by omega) hhead) hmagic
  exact hstop ⟨hhead, hmagic, by omega⟩

theorem NonnegativeLengths.totalAt_pos (hlens : NonnegativeLengths src) (h : BatchAt src c)
    {minimum : ℕ} (hminimum : 21 ≤ minimum)
    (hcomp : CompleteFrom minimum c (src.drop c)) :
    12 ≤ totalAt src c ∧ totalAt src c ≤ (src.drop c).length := by
  have hlen := hlens c h (hminimum.trans hcomp.1) hcomp.2.1
  have hends := hcomp.2.2
  rw [totalAt]
  omega

end

section

variable {src : Bytes} {s : Patching}

structure Untouched (src : Bytes) (s : Patching) : Prop where
  length : s.buf.length = src.length
  rest : s.buf.drop s.cursor = src.drop s.cursor
  start : BatchAt src s.cursor

theorem Untouched.totalAt_eq (h : Untouched src s) :
    totalAt s.buf s.cursor = totalAt src s.cursor := by
  rw [totalAt, h.rest, totalAt]

variable (hsrc : src.length ≤ isizeMax)

include hsrc

theorem Untouched.patchTurn_eq (h : Untouched src s)
    (hcomp : CompleteFrom 21 s.cursor (src.drop s.cursor)) :
    patchTurn s = if totalAt src s.cursor < 21 then .exit none
      else
        let rest := patchHeader (src.drop s.cursor) (totalAt src s.cursor).toNat s.currentOffset
        .next ⟨s.buf.take s.cursor ++ rest, s.cursor + (totalAt src s.cursor).toNat,
          wrapSigned 64 (s.currentOffset + patchCount rest)⟩ := by
  have hc : s.cursor ≤ s.buf.length := h.length.symm ▸ h.start.le_length
  have hturn := patchTurn_complete (h.length.trans_le hsrc) hc (h.rest.symm ▸ hcomp)
  rw [h.totalAt_eq, h.rest] at hturn
  exact hturn

theorem Untouched.turn_short (h : Untouched src s)
    (hcomp : CompleteFrom 21 s.cursor (src.drop s.cursor)) (hshort : totalAt src s.cursor < 21) :
    patchTurn s = .exit none := by
  rw [h.patchTurn_eq hsrc hcomp, if_pos hshort]

theorem Untouched.turn_long (h : Untouched src s)
    (hcomp : CompleteFrom 21 s.cursor (src.drop s.cursor)) (hlong : 21 ≤ totalAt src s.cursor) :
    ∃ t, patchTurn s = .next t ∧ t.cursor = s.cursor + (totalAt src s.cursor).toNat ∧
      Untouched src t := by
  have hturn := h.patchTurn_eq hsrc hcomp
  rw [if_neg (by omega)] at hturn
  obtain ⟨-, hend⟩ := hcomp.totalAt_le h.start.le_length
  have hlen : totalAt src s.cursor ≤ (src.drop s.cursor).length := by
    rw [length_drop]
    omega
  have htake : (s.buf.take s.cursor).length = s.cursor :=
    length_take_of_le (h.length.symm ▸ h.start.le_length)
  refine ⟨_, hturn, rfl, ?_, ?_, h.start.next hcomp.1 hcomp.2.1 (by omega) hlen⟩
  · dsimp only
    rw [length_append, htake, patchHeader_length hcomp.1, length_drop]
    omega
  · dsimp only
    rw [← drop_drop, drop_left' htake, drop_patchHeader hcomp.1 _ _ (by omega), drop_drop]

theorem Untouched.turn_stop (h : Untouched src s)
    (hstop : ¬ CompleteFrom 21 s.cursor (src.drop s.cursor)) : patchTurn s = .exit (some s) :=
  patchTurn_stop (h.length.trans_le hsrc) (h.length.symm ▸ h.start.le_length) (h.rest.symm ▸ hstop)

theorem BatchAt.reached (base : ℤ) {c : ℕ} (h : BatchAt src c) :
    Loop.Gives patchTurn ⟨src, 0, base⟩ none ∨
      ∃ s, Loop.Reaches patchTurn ⟨src, 0, base⟩ s ∧ s.cursor = c ∧ Untouched src s := by
  induction h with
  | first => exact Or.inr ⟨_, Loop.Reaches.refl _, rfl, rfl, rfl, .first⟩
  | @next c _ hhead hmagic hpos hlen ih =>
    rcases ih with haborts | ⟨s, hreach, rfl, hs⟩
    · exact Or.inl haborts
    · have hcomp := completeFrom_of_le hhead hmagic hpos hlen
      rcases lt_or_ge (totalAt src s.cursor) 21 with hshort | hlong
      · have hturn := hs.turn_short hsrc hcomp hshort
        exact Or.inl (hreach.gives_iff.mpr (Loop.gives_of_exit hturn))
      · obtain ⟨t, hnext, hcur, ht⟩ := hs.turn_long hsrc hcomp hlong
        exact Or.inr ⟨t, hreach.trans (Loop.reaches_of_next hnext (Loop.Reaches.refl _)), hcur, ht⟩

theorem patch_inBounds_iff (base : ℤ) :
    ¬ Loop.Gives patchTurn ⟨src, 0, base⟩ none ↔
      ∀ c, BatchAt src c → CompleteFrom 21 c (src.drop c) → 21 ≤ totalAt src c := by
  constructor
  · intro hbds c hc hcomp
    by_contra hshort
    obtain ⟨s, hreach, rfl, hs⟩ := (hc.reached hsrc base).resolve_left hbds
    have hturn := hs.turn_short hsrc hcomp (by omega)
    exact hbds (hreach.gives_iff.mpr (Loop.gives_of_exit hturn))
  · intro hsized hgives
    -- no turn from an untouched state aborts
    refine Loop.Gives.of_invariant (I := Untouched src) (Q := fun r => r ≠ none) ?_ ?_ hgives
      ⟨rfl, rfl, .first⟩ rfl
    · intro s t hs hnext
      by_cases hcomp : CompleteFrom 21 s.cursor (src.drop s.cursor)
      · obtain ⟨t', hnext', -, ht'⟩ := hs.turn_long hsrc hcomp (hsized _ hs.start hcomp)
        exact Turn.next.inj (hnext'.symm.trans hnext) ▸ ht'
      · cases hnext.symm.trans (hs.turn_stop hsrc hcomp)
    · intro s r hs hexit
      by_cases hcomp : CompleteFrom 21 s.cursor (src.drop s.cursor)
      · obtain ⟨t', hnext', -, -⟩ := hs.turn_long hsrc hcomp (hsized _ hs.start hcomp)
        cases hnext'.symm.trans hexit
      · rw [Turn.exit.inj (hexit.symm.trans (hs.turn_stop hsrc hcomp))]
        exact Option.some_ne_none _

end

def Inflates (libs : Compressors) (rest : Bytes) : Prop :=
  ∃ body, (codecOf rest).decompress libs (payloadAt rest) = .ok body

/-- Where the loop of `decompress_record_batch` is left, and why. -/
def LeftAt (libs : Compressors) (src : Bytes) : Attempt OxideMqError Inflating → Prop
  | none => ∃ c, BatchStart libs src c ∧ CompleteFrom 61 c (src.drop c) ∧
      codecOf (src.drop c) ≠ .none ∧ totalAt src c < 61
  | some (.error _) => ∃ c, BatchStart libs src c ∧ CompleteFrom 61 c (src.drop c) ∧
      ¬ Inflates libs (src.drop c)
  | some (.ok s) => BatchStart libs src s.cursor ∧ ¬ CompleteFrom 61 s.cursor (src.drop s.cursor)

section

variable {libs : Compressors} {src : Bytes} {c : ℕ} (hsrc : src.length ≤ isizeMax)

include hsrc

theorem leftAt_of_exit (hlens : NonnegativeLengths src)
    {s : Inflating} (hs : BatchStart libs src s.cursor) {r : Attempt OxideMqError Inflating}
    (hturn : decompressTurn libs src s = .exit r) : LeftAt libs src r := by
  have hc := hs.batchAt.le_length
  by_cases h : CompleteFrom 61 s.cursor (src.drop s.cursor)
  · obtain ⟨hpos, -⟩ := hlens.totalAt_pos hs.batchAt (by omega) h
    by_cases hcodec : codecOf (src.drop s.cursor) = .none
    · rw [decompressTurn_plain libs hsrc hc h hcodec, if_neg (by omega)] at hturn
      cases hturn
    · rw [decompressTurn_compressed libs hsrc hc h hcodec] at hturn
      rcases lt_or_ge (totalAt src s.cursor) 61 with hshort | hlong
      · rw [if_pos hshort] at hturn
        cases hturn
        exact ⟨s.cursor, hs, h, hcodec, hshort⟩
      · rw [if_neg (by omega)] at hturn
        split at hturn
        · rename_i e hbody
          cases hturn
          refine ⟨s.cursor, hs, h, fun ⟨body, hok⟩ => ?_⟩
          cases hbody.symm.trans hok
        · cases hturn
  · rw [decompressTurn_stop libs hsrc hc h] at hturn
    cases hturn
    exact ⟨hs, h⟩

theorem leftAt_of_gives (hlens : NonnegativeLengths src)
    {left : Attempt OxideMqError Inflating}
    (h : Loop.Gives (decompressTurn libs src) ⟨0, [], false⟩ left) : LeftAt libs src left :=
  Loop.Gives.of_invariant (I := fun s => BatchStart libs src s.cursor)
    (fun _ _ hs hturn => (decompressTurn_next hsrc hs.batchAt.le_length hs hturn).1.2)
    (fun _ _ hs hturn => leftAt_of_exit hsrc hlens hs hturn) h .first

theorem decompress_ends (hlens : NonnegativeLengths src) :
    Loop.Ends (decompressTurn libs src) ⟨0, [], false⟩ := by
  have hstep : ∀ s t : Inflating, BatchStart libs src s.cursor →
      decompressTurn libs src s = .next t →
      BatchStart libs src t.cursor ∧ s.cursor < t.cursor := by
    intro s t hs hturn
    obtain ⟨⟨-, ht⟩, hfwd⟩ := decompressTurn_next hsrc hs.batchAt.le_length hs hturn
    refine ⟨ht, hfwd.resolve_right fun ⟨hhead, hmagic, hlength, _⟩ => ?_⟩
    have hnonneg := hlens _ hs.batchAt (le_trans (by omega) hhead) hmagic
    omega
  exact Loop.ends_of_bounded hstep (fun _ hs => hs.batchAt.le_length) .first

theorem gives_none_of_short (hc : BatchStart libs src c)
    (h : CompleteFrom 61 c (src.drop c)) (hcodec : codecOf (src.drop c) ≠ .none)
    (hshort : totalAt src c < 61) : DecompressGives libs src none := by
  obtain ⟨hin, s, hreach, rfl⟩ := hc.reached hsrc
  have hturn := decompressTurn_compressed libs hsrc hin h hcodec
  rw [if_pos hshort] at hturn
  exact ⟨none, hreach.gives_iff.mpr (Loop.gives_of_exit hturn), rfl⟩

theorem gives_error_of_not_inflates (hc : BatchStart libs src c)
    (h : CompleteFrom 61 c (src.drop c)) (hlong : 61 ≤ totalAt src c)
    (hcorrupt : ¬ Inflates libs (src.drop c)) :
    ∃ e, DecompressGives libs src (some (.error e)) := by
  obtain ⟨hin, s, hreach, rfl⟩ := hc.reached hsrc
  have hcodec : codecOf (src.drop s.cursor) ≠ .none := fun hnone =>
    hcorrupt ⟨payloadAt (src.drop s.cursor), by rw [hnone]; rfl⟩
  have hturn := decompressTurn_compressed libs hsrc hin h hcodec
  rw [if_neg (by omega)] at hturn
  cases hbody : (codecOf (src.drop s.cursor)).decompress libs (payloadAt (src.drop s.cursor)) with
  | error e =>
    rw [hbody] at hturn
    exact ⟨e, _, hreach.gives_iff.mpr (Loop.gives_of_exit hturn), rfl⟩
  | ok body => exact absurd ⟨body, hbody⟩ hcorrupt

end

structure DecompressedFits (libs : Compressors) (src : Bytes) : Prop where
  bodies : ∀ c, BatchStart libs src c → CompleteFrom 61 c (src.drop c) → ∀ body,
    (codecOf (src.drop c)).decompress libs (payloadAt (src.drop c)) = .ok body →
    49 + body.length < 2 ^ 31
  memory : ∀ uncompressed, DecompressGives libs src (some (.ok uncompressed)) →
    uncompressed.length ≤ isizeMax

def ShortAt (libs : Compressors) (src : Bytes) (c : ℕ) : Prop :=
  BatchStart libs src c ∧ CompleteFrom 61 c (src.drop c) ∧ totalAt src c < 61

def Passed (libs : Compressors) (src : Bytes) (c : ℕ) : Prop :=
  ∃ batches : List Bytes, src.take c = batches.flatten ∧
    ∀ b ∈ batches, Readable libs b ∧ BodyFits libs b

section

variable {libs : Compressors} {src : Bytes} {c : ℕ}

theorem bodyOf_take {rest : Bytes} (h : CompleteFrom 61 c rest)
    (hlong : 61 ≤ 12 + batchLengthOf rest) :
    bodyOf libs (rest.take (12 + batchLengthOf rest).toNat) =
      (codecOf rest).decompress libs (payloadAt rest) := by
  have hends := h.2.2
  rw [payloadAt]
  generalize htot : (12 + batchLengthOf rest).toNat = total at *
  have htake : (rest.take total).length = total := length_take_of_le (by omega)
  have hcodec : codecOf (rest.take total) = codecOf rest := by
    rw [← codecOf_append (by omega) (rest.drop total), take_append_drop]
  rw [bodyOf, hcodec, field, drop_take]

theorem Passed.next (hpass : Passed libs src c) (h : CompleteFrom 61 c (src.drop c))
    (hlong : 61 ≤ totalAt src c) (hinflates : Inflates libs (src.drop c))
    (hbody : ∀ body, (codecOf (src.drop c)).decompress libs (payloadAt (src.drop c)) = .ok body →
      49 + body.length < 2 ^ 31) :
    Passed libs src (c + (totalAt src c).toNat) := by
  obtain ⟨bs, htake, hbs⟩ := hpass
  have hbodyOf : bodyOf libs _ = _ := bodyOf_take h hlong
  have hends := h.2.2
  have hfr : Framed ((src.drop c).take (12 + batchLengthOf (src.drop c)).toNat) := by
    refine CompleteAt.framed_take h ?_
    rw [totalAt] at hlong
    rw [length_take]
    omega
  have hread : Readable libs ((src.drop c).take (12 + batchLengthOf (src.drop c)).toNat) :=
    ⟨hfr, by rw [hbodyOf]; exact hinflates⟩
  have hfits : BodyFits libs ((src.drop c).take (12 + batchLengthOf (src.drop c)).toNat) :=
    fun body hok => hbody body (hbodyOf.symm.trans hok)
  refine ⟨bs ++ [(src.drop c).take (12 + batchLengthOf (src.drop c)).toNat], ?_, ?_⟩
  · rw [totalAt, take_add, htake, flatten_append, flatten_singleton]
  · intro b hb
    rcases mem_append.mp hb with hb | hb
    · exact hbs b hb
    · rw [mem_singleton.mp hb]
      exact ⟨hread, hfits⟩

theorem BatchStart.passed (hfits : DecompressedFits libs src) (h : BatchStart libs src c) :
    (∃ c', ShortAt libs src c' ∧ Passed libs src c') ∨ Passed libs src c := by
  induction h with
  | first => exact Or.inr ⟨[], rfl, forall_mem_nil _⟩
  | @next c hc hhead hmagic hpos hlen hgoes ih =>
    rcases ih with hshort | hpass
    · exact Or.inl hshort
    · have hcomp := completeFrom_of_le hhead hmagic hpos hlen
      rcases lt_or_ge (totalAt src c) 61 with hshort | hlong
      · exact Or.inl ⟨c, ⟨hc, hcomp, hshort⟩, hpass⟩
      · have hinflates : Inflates libs (src.drop c) := by
          rcases hgoes with hnone | ⟨-, hbody⟩
          · exact ⟨payloadAt (src.drop c), by rw [hnone]; rfl⟩
          · exact hbody
        exact Or.inr (hpass.next hcomp hlong hinflates (hfits.bodies c hc hcomp))

end

theorem take_append_congr {xs ys zs : Bytes} {m n : ℕ} (h : ys.take n = zs.take n)
    (hm : m ≤ xs.length + n) : (xs ++ ys).take m = (xs ++ zs).take m := by
  have hmin : min (m - xs.length) n = m - xs.length := by omega
  have hys : ys.take (m - xs.length) = (ys.take n).take (m - xs.length) := by
    rw [take_take, hmin]
  have hzs : zs.take (m - xs.length) = (zs.take n).take (m - xs.length) := by
    rw [take_take, hmin]
  rw [take_append, take_append, hys, hzs, h]

section

variable {libs : Compressors} {cursor : ℕ} {rest : Bytes}

theorem take_decompressLoop {fuel : ℕ} {any : Bool} {out : Bytes}
    (h : decompressLoop libs fuel cursor rest = some (.ok (any, out))) :
    out.take 8 = rest.take 8 ∧ min rest.length 61 ≤ out.length := by
  induction fuel generalizing cursor rest any out with
  | zero =>
    cases h
    exact ⟨rfl, by omega⟩
  | succ fuel ih =>
    by_cases hcomp : CompleteFrom 61 cursor rest
    · have hends := hcomp.2.2
      rw [decompressLoop_complete libs hcomp] at h
      split at h
      · split at h
        · cases h
        · obtain ⟨⟨any', out'⟩, hloop, heq⟩ := Attempt.andThen_eq_ok.mp h
          cases heq
          obtain ⟨htake, hlen⟩ := ih hloop
          refine ⟨?_, ?_⟩
          · rw [take_append_congr htake (by omega), take_append_drop]
          · dsimp only
            rw [length_drop] at hlen
            rw [length_append, length_take]
            omega
      · split at h
        · cases h
        · split at h
          · cases h
          · rename_i body _
            obtain ⟨⟨any', out'⟩, -, heq⟩ := Attempt.andThen_eq_ok.mp h
            cases heq
            have hlen := (inflated_inflateBatch hcomp.1 body).length
            have hfield := (deflatedFields_deflateBatch hcomp.1 .none body).baseOffset
            rw [← inflateBatch_eq_deflateBatch] at hfield
            refine ⟨?_, ?_⟩
            · rw [take_append_of_le_length (by omega)]
              exact hfield
            · rw [length_append]
              omega
    · rw [decompressLoop_of_not_completeAt hcomp] at h
      cases h
      exact ⟨rfl, by omega⟩

theorem magicOf_take (batch : Bytes) : magicOf (batch.take 17) = magicOf batch := by
  rw [magicOf, getD_eq_getElem?_getD, getElem?_take_of_lt (by omega), magicOf,
    getD_eq_getElem?_getD]

theorem batchLengthOf_take (batch : Bytes) :
    batchLengthOf (batch.take 17) = batchLengthOf batch := by
  rw [batchLengthOf, field, drop_take, take_take, Nat.min_eq_left (by omega), batchLengthOf, field]

theorem short_decompressOut (h : CompleteFrom 61 cursor rest) (hlen : 0 ≤ batchLengthOf rest)
    (hshort : 12 + batchLengthOf rest < 61) {fuel : ℕ} {out : Bytes}
    (hout : decompressOut libs (fuel + 1) cursor rest = some (.ok out)) (pos : ℕ) :
    CompleteFrom 61 pos out ∧ 12 + batchLengthOf out < 61 := by
  have hhead := h.1
  have hends := h.2.2
  rw [decompressOut, decompressLoop_complete libs h, if_pos hshort] at hout
  split at hout
  · rw [if_neg (by omega)] at hout
    obtain ⟨⟨any, copied⟩, hcopied, heq⟩ := Attempt.andThen_eq_ok.mp hout
    cases heq
    obtain ⟨⟨any', out'⟩, hloop, hpair⟩ := Attempt.andThen_eq_ok.mp hcopied
    cases hpair
    obtain ⟨htake, hlong⟩ := take_decompressLoop hloop
    dsimp only
    rw [length_drop] at hlong
    generalize hcopy : rest.take (12 + batchLengthOf rest).toNat = copy at *
    have hcopied : copy.length = (12 + batchLengthOf rest).toNat := by
      rw [← hcopy, length_take]
      omega
    have hfront : (copy ++ out').take 17 = rest.take 17 := by
      rw [take_append_congr htake (by omega), ← hcopy, take_append_drop]
    have hsame : batchLengthOf (copy ++ out') = batchLengthOf rest := by
      rw [← batchLengthOf_take, hfront, batchLengthOf_take]
    refine ⟨⟨?_, ?_, ?_⟩, ?_⟩
    · rw [length_append]
      omega
    · rw [← magicOf_take, hfront, magicOf_take]
      exact h.2.1
    · rw [hsame, length_append]
      omega
    · rw [hsame]
      exact hshort
  · cases hout

end

section

variable {α : Type} {loop : ℕ → ℕ → Bytes → Attempt OxideMqError (List α)}
  {step : Bytes → Attempt OxideMqError (List α)} {last : Bytes → List α} {src : Bytes}
  {turn : Walking α → Turn (Walking α) (Attempt OxideMqError (Walking α))}

theorem walk_gives_none_iff (hwalks : WalksBy loop step last)
    (hturn : ∀ s : Walking α, s.cursor ≤ src.length → turn s = walkTurn step src s) :
    Loop.Gives turn ⟨0, []⟩ none ↔ loop src.length 0 src = none := by
  rw [Loop.gives_congr hturn (fun _ _ hs h => (walkTurn_next hs h).1) (Nat.zero_le _)]
  obtain ⟨left, hleft, heq⟩ := hwalks.gives (s := ⟨0, []⟩) (Nat.zero_le src.length) le_rfl
  constructor
  · intro hnone
    rw [hleft.unique hnone] at heq
    by_contra hloop
    exact Attempt.andThen_ne_none hloop (fun _ => Option.some_ne_none _) heq.symm
  · intro hloop
    have hnone : left = none := by
      by_contra hsome
      rw [drop_zero, hloop] at heq
      exact Attempt.andThen_ne_none hsome (fun _ => Option.some_ne_none _) heq
    exact hnone ▸ hleft

end

section

variable {libs : Compressors} {src : Bytes}

theorem decompressed_framed (hsrc : src.length ≤ isizeMax) (hlens : NonnegativeLengths src)
    (hfits : DecompressedFits libs src) (hlong : ∀ c, ¬ ShortAt libs src c) {plain : Bytes}
    (h : DecompressGives libs src (some (.ok plain))) :
    ∃ (bs : List Bytes) (tail : Bytes), plain = bs.flatten ++ tail ∧
      (∀ b ∈ bs, Framed b) ∧ ¬ CompleteAt bs.flatten.length tail := by
  obtain ⟨left, hleft, heq⟩ := id h
  match left, hleft, heq with
  | none, _, heq => exact absurd heq nofun
  | some (.error e), _, heq => exact absurd heq nofun
  | some (.ok s), hleft, _ =>
    obtain ⟨hstart, hstop⟩ := leftAt_of_gives hsrc hlens hleft
    have hinc := hlens.not_completeAt hstart.batchAt hstop
    obtain ⟨bs, htake, hbs⟩ :=
      (hstart.passed hfits).resolve_left fun ⟨c, hshort, _⟩ => hlong c hshort
    have hread := fun b hb => (hbs b hb).1
    have hdec := decompress_readable hread (hinc bs.flatten.length)
    rw [← htake, take_append_drop] at hdec
    have huncompressed := (decompressGives_of_some hsrc hdec).unique h
    obtain ⟨hfr, -⟩ := parse_inflated (fun b hb => (hread b hb).1)
      (fun b hb => (hbs b hb).2) (inflate_allRewritten hread)
    exact ⟨allRewritten libs .none bs, src.drop s.cursor,
      (Except.ok.inj (Option.some.inj huncompressed)).symm, hfr, hinc _⟩

theorem compressLoop_ne_none {bs : List Bytes} {tail : Bytes} (codec : CompressionCodec)
    (hfr : ∀ b ∈ bs, Framed b) (hstop : ¬ CompleteAt bs.flatten.length tail) :
    compressLoop libs codec (bs.flatten ++ tail).length 0 (bs.flatten ++ tail) ≠ none := by
  have hlen := length_le_flatten_length hfr
  rw [loop_flatten_append (fun _ => compressLoop_batch) hfr
    (by rw [length_append]; omega), Nat.zero_add, compressLoop_of_not_completeAt hstop]
  refine Attempt.concat_ne_none ?_ (Option.some_ne_none _)
  rw [forall_mem_map]
  exact fun _ _ => Option.some_ne_none _

theorem parseLoop_ne_none {bs : List Bytes} {tail : Bytes}
    (hfr : ∀ b ∈ bs, Framed b) (hstop : ¬ CompleteAt bs.flatten.length tail) :
    parseLoop (bs.flatten ++ tail).length 0 (bs.flatten ++ tail) ≠ none := by
  rw [parseLoop_append hfr hstop]
  refine Attempt.concat_ne_none ?_ (Option.some_ne_none _)
  rw [forall_mem_map]
  exact fun _ _ => decodeBatch_ne_panic _ _ _ _

theorem compressGives_none (hlibs : Lossless libs) (hsrc : src.length ≤ isizeMax)
    (hlens : NonnegativeLengths src) (hfits : DecompressedFits libs src) {c : ℕ}
    (hshort : ShortAt libs src c) (hpass : Passed libs src c) {plain : Bytes}
    (hgives : DecompressGives libs src (some (.ok plain))) :
    CompressGives libs src .gzip none := by
  obtain ⟨hc, hcomp, hsize⟩ := hshort
  obtain ⟨bs, htake, hbs⟩ := hpass
  have hfr : ∀ b ∈ bs, Framed b := fun b hb => (hbs b hb).1.1
  have hsplit : bs.flatten ++ src.drop c = src := by rw [← htake, take_append_drop]
  have hposition : bs.flatten.length = c := by
    rw [← htake, length_take_of_le hc.batchAt.le_length]
  have hmem := hfits.memory plain hgives
  have hdec : decompressRecordBatch libs src = some (.ok plain) := by
    cases hres : decompressRecordBatch libs src with
    | none =>
      rcases decompressGives_of_none hsrc hres with haborts | hforever
      · have hnone : DecompressGives libs src none := ⟨none, haborts, rfl⟩
        cases hnone.unique hgives
      · exact absurd (decompress_ends hsrc hlens) hforever
    | some r => exact (decompressGives_of_some hsrc hres).unique hgives
  -- the short batch stands behind the inflated ones
  rw [← hsplit, decompressRecordBatch_append hfr, Attempt.concat_eq_ok_iff] at hdec
  obtain ⟨inflated, out, hinf, hout, rfl⟩ := hdec
  rw [forall₂_map_left_iff] at hinf
  obtain ⟨hfr', -⟩ := parse_inflated hfr (fun b hb => (hbs b hb).2)
    (hinf.imp fun _ _ h => Option.some.inj h)
  have hcnt := length_le_flatten_length hfr
  have hcnt' := length_le_flatten_length hfr'
  have hhead := hcomp.1
  obtain ⟨fuel, hfuel⟩ := Nat.exists_eq_add_one.mpr
    (show 0 < (bs.flatten ++ src.drop c).length - bs.length by rw [length_append]; omega)
  rw [hfuel, hposition] at hout
  have hlen := hlens c hc.batchAt (le_trans (by omega) hhead) hcomp.2.1
  obtain ⟨hcomp', hsize'⟩ :=
    short_decompressOut hcomp hlen hsize hout (0 + inflated.flatten.length)
  have hhead' := hcomp'.1
  obtain ⟨fuel', hfuel'⟩ := Nat.exists_eq_add_one.mpr
    (show 0 < (inflated.flatten ++ out).length - inflated.length by rw [length_append]; omega)
  have hdeflate : ∀ b, ∃ deflated, deflate libs .gzip b = .ok deflated := by
    intro b
    obtain ⟨payload, hpay⟩ := hlibs.compresses .gzip (b.drop 61)
    exact ⟨deflateBatch .gzip b payload, by rw [deflate, hpay]; rfl⟩
  choose deflated hdeflated using hdeflate
  have hloop : compressLoop libs .gzip (inflated.flatten ++ out).length 0
      (inflated.flatten ++ out) = none := by
    rw [loop_flatten_append (fun _ => compressLoop_batch) hfr'
      (by rw [length_append]; omega), hfuel',
      (walksBy_compressLoop libs .gzip).complete hcomp', if_pos hsize']
    exact Attempt.concat_eq_none (forall₂_map_left_iff.mpr
      (forall₂_map_right fun b _ => congrArg some (hdeflated b)))
  rw [CompressGives, if_neg (by decide)]
  refine ⟨_, hgives, ?_⟩
  dsimp only
  rw [if_pos hmem, if_neg (by rw [length_append]; omega)]
  exact ⟨none, (walk_gives_none_iff (walksBy_compressLoop libs .gzip) fun s hs =>
    compressTurn_eq libs .gzip hmem hs).mpr hloop, rfl⟩

end

structure WalkersInBounds (libs : Compressors) (src : Bytes) : Prop where
  patch : ∀ baseOffset, ¬ PatchGives src baseOffset none
  decompress : ¬ DecompressGives libs src none
  compress : ∀ codec, ¬ CompressGives libs src codec none
  parse : ¬ ParseGives libs src none

structure BatchesSized (libs : Compressors) (src : Bytes) : Prop where
  patched : ∀ c, BatchAt src c → CompleteFrom 21 c (src.drop c) → 21 ≤ totalAt src c
  compressed : ∀ c, BatchStart libs src c → CompleteFrom 61 c (src.drop c) →
    codecOf (src.drop c) ≠ .none → 61 ≤ totalAt src c
  decompressed : (∀ c, BatchStart libs src c → CompleteFrom 61 c (src.drop c) →
      Inflates libs (src.drop c)) →
    ∀ c, BatchStart libs src c → CompleteFrom 61 c (src.drop c) → 61 ≤ totalAt src c

section

variable {libs : Compressors} {src : Bytes}

theorem patchGives_none_iff (base : ℤ) : PatchGives src base none ↔
      21 ≤ src.length ∧ Loop.Gives patchTurn ⟨src, 0, base⟩ none := by
  rw [PatchGives]
  split
  · rename_i hshort
    exact ⟨by rintro ⟨⟩, fun h => absurd h.1 (by omega)⟩
  · rename_i hlong
    constructor
    · rintro ⟨left, hleft, heq⟩
      have hnone : left = none := Option.map_eq_none_iff.mp heq.symm
      exact ⟨by omega, hnone ▸ hleft⟩
    · rintro ⟨-, hgives⟩
      exact ⟨none, hgives, rfl⟩

theorem eq_none_of_andThen {α β : Type} {x : Attempt OxideMqError α} {f : α → β}
    (h : none = x.andThen fun a => some (.ok (f a))) : x = none := by
  by_contra hsome
  exact Attempt.andThen_ne_none hsome (fun _ => Option.some_ne_none _) h.symm

theorem not_decompressed_none {α : Type} {second : Bytes → Attempt OxideMqError α → Prop}
    (hfits : DecompressedFits libs src) (hdec : ¬ DecompressGives libs src none)
    (hsecond : ∀ plain, DecompressGives libs src (some (.ok plain)) → ¬ second plain none) :
    ¬ Decompressed libs src second none := by
  rintro ⟨first, hgives, hres⟩
  match first, hgives, hres with
  | none, hgives, _ => exact hdec hgives
  | some (.error e), _, hres => exact absurd hres nofun
  | some (.ok plain), hgives, hres =>
    dsimp only at hres
    rw [if_pos (hfits.memory plain hgives)] at hres
    exact hsecond plain hgives hres

variable (hsrc : src.length ≤ isizeMax)
  (hcompressed : ∀ c, BatchStart libs src c → CompleteFrom 61 c (src.drop c) →
    codecOf (src.drop c) ≠ .none → 61 ≤ totalAt src c)

include hsrc hcompressed

theorem inflates_of_ok {plain : Bytes}
    (hgives : DecompressGives libs src (some (.ok plain))) {c : ℕ}
    (hc : BatchStart libs src c) (hcomp : CompleteFrom 61 c (src.drop c)) :
    Inflates libs (src.drop c) := by
  by_cases hcodec : codecOf (src.drop c) = .none
  · exact ⟨payloadAt (src.drop c), by rw [hcodec]; rfl⟩
  · by_contra hcorrupt
    obtain ⟨e, herr⟩ := gives_error_of_not_inflates hsrc hc hcomp
      (hcompressed c hc hcomp hcodec) hcorrupt
    cases herr.unique hgives

theorem not_decompressGives_none (hlens : NonnegativeLengths src) :
    ¬ DecompressGives libs src none := by
  rintro ⟨left, hleft, heq⟩
  have hnone : left = none := eq_none_of_andThen heq
  obtain ⟨c, hc, hcomp, hcodec, hshort⟩ := leftAt_of_gives hsrc hlens (hnone ▸ hleft)
  exact absurd (hcompressed c hc hcomp hcodec) (by omega)

end

theorem walkers_in_bounds_iff {libs : Compressors} (hlibs : Lossless libs) (src : Buffer)
    (hlengths : NonnegativeLengths src.bytes) (hfits : DecompressedFits libs src.bytes) :
    WalkersInBounds libs src.bytes ↔ BatchesSized libs src.bytes := by
  obtain ⟨src, hsrc⟩ := src
  dsimp only at hlengths hfits ⊢
  constructor
  · intro hbds
    have hcompressed : ∀ c, BatchStart libs src c → CompleteFrom 61 c (src.drop c) →
        codecOf (src.drop c) ≠ .none → 61 ≤ totalAt src c := by
      intro c hc hcomp hcodec
      by_contra hshort
      exact hbds.decompress (gives_none_of_short hsrc hc hcomp hcodec (by omega))
    refine ⟨?_, hcompressed, ?_⟩
    · intro c hc hcomp
      have hhead := hcomp.1
      rw [List.length_drop] at hhead
      have hpat : ¬ Loop.Gives patchTurn ⟨src, 0, 0⟩ none := fun hgives =>
        hbds.patch 0 ((patchGives_none_iff 0).mpr ⟨by omega, hgives⟩)
      exact (patch_inBounds_iff hsrc 0).mp hpat c hc hcomp
    · intro hinflates c hc hcomp
      by_contra hlong
      have hshort : ShortAt libs src c := ⟨hc, hcomp, by omega⟩
      obtain ⟨c', hshort', hpass⟩ : ∃ c', ShortAt libs src c' ∧ Passed libs src c' := by
        rcases hc.passed hfits with hbef | hpass
        · exact hbef
        · exact ⟨c, hshort, hpass⟩
      obtain ⟨left, hleft⟩ : Loop.Ends (decompressTurn libs src) ⟨0, [], false⟩ :=
        decompress_ends hsrc hlengths
      match left, hleft with
      | none, hleft => exact hbds.decompress ⟨none, hleft, rfl⟩
      | some (.error e), hleft =>
        obtain ⟨c, hc, hcomp, hcorrupt⟩ := leftAt_of_gives hsrc hlengths hleft
        exact hcorrupt (hinflates c hc hcomp)
      | some (.ok s), hleft =>
        exact hbds.compress .gzip (compressGives_none hlibs hsrc hlengths hfits hshort'
          hpass ⟨some (.ok s), hleft, rfl⟩)
  · rintro ⟨hpatched, hcompressed, hdecompressed⟩
    have hdec := not_decompressGives_none hsrc hcompressed hlengths
    have hfr : ∀ plain, DecompressGives libs src (some (.ok plain)) →
        ∃ (bs : List Bytes) (tail : Bytes), plain = bs.flatten ++ tail ∧
          (∀ b ∈ bs, Framed b) ∧ ¬ CompleteAt bs.flatten.length tail := by
      intro plain hgives
      refine decompressed_framed hsrc hlengths hfits (fun c hshort => ?_) hgives
      obtain ⟨hc, hcomp, hsize⟩ := hshort
      have hlong := hdecompressed (fun c hc hcomp =>
        inflates_of_ok hsrc hcompressed hgives hc hcomp) c hc hcomp
      omega
    refine ⟨?_, hdec, ?_, ?_⟩
    · intro base haborts
      exact (patch_inBounds_iff hsrc base).mpr hpatched
        ((patchGives_none_iff base).mp haborts).2
    · intro codec haborts
      rw [CompressGives] at haborts
      split at haborts
      · exact hdec haborts
      · refine not_decompressed_none hfits hdec (fun plain hgives hsecond => ?_)
          haborts
        split at hsecond
        · cases hsecond
        · obtain ⟨left, hleft, heq⟩ := hsecond
          have hnone : left = none := eq_none_of_andThen heq
          obtain ⟨bs, tail, rfl, hbs, hstop⟩ := hfr plain hgives
          exact compressLoop_ne_none codec hbs hstop
            ((walk_gives_none_iff (walksBy_compressLoop libs codec) fun s hs =>
              compressTurn_eq libs codec (hfits.memory _ hgives) hs).mp (hnone ▸ hleft))
    · intro haborts
      refine not_decompressed_none hfits hdec (fun plain hgives hsecond => ?_) haborts
      obtain ⟨left, hleft, heq⟩ := hsecond
      have hnone : left = none := eq_none_of_andThen heq
      obtain ⟨bs, tail, rfl, hbs, hstop⟩ := hfr plain hgives
      exact parseLoop_ne_none hbs hstop ((walk_gives_none_iff walksBy_parseLoop fun s hs =>
        parseTurn_eq (hfits.memory _ hgives) hs).mp (hnone ▸ hleft))

theorem batchAt_single {src : Bytes} (htot : totalAt src 0 = src.length) {c : ℕ}
    (h : BatchAt src c) : c = 0 ∨ c = src.length := by
  induction h with
  | first => exact Or.inl rfl
  | next _ hhead _ _ _ ih =>
    rcases ih with rfl | rfl
    · rw [htot]
      exact Or.inr (by omega)
    · rw [length_drop] at hhead
      omega

theorem walkers_in_bounds_header : WalkersInBounds runLibs (plainHeader 49) := by
  have hsize : (plainHeader 49).length = 61 := by decide +kernel
  have htot : totalAt (plainHeader 49) 0 = 61 := by decide +kernel
  have hmem : (plainHeader 49).length ≤ isizeMax := by
    rw [hsize]
    decide
  -- there is a full header at the front only
  have hfront : ∀ c, BatchAt (plainHeader 49) c → 21 ≤ ((plainHeader 49).drop c).length →
      c = 0 := by
    intro c hc hhead
    rw [List.length_drop] at hhead
    rcases batchAt_single (by rw [htot, hsize]; rfl) hc with hfirst | hlast
    · exact hfirst
    · omega
  have hstart : ∀ c, BatchStart runLibs (plainHeader 49) c →
      CompleteFrom 61 c ((plainHeader 49).drop c) → c = 0 := fun c hc hcomp =>
    hfront c hc.batchAt (le_trans (by omega) hcomp.1)
  have hdec : DecompressGives runLibs (plainHeader 49) (some (.ok (plainHeader 49))) :=
    decompressGives_of_some hmem (by decide +kernel)
  refine (walkers_in_bounds_iff lossless_runLibs ⟨plainHeader 49, hmem⟩ ?_ ⟨?_, ?_⟩).mpr
    ⟨?_, ?_, ?_⟩
  · intro c hc hhead _
    rw [hfront c hc hhead]
    show 0 ≤ batchLengthOf ((plainHeader 49).drop 0)
    decide +kernel
  · intro c hc hcomp body hbody
    rw [hstart c hc hcomp] at hbody
    have hemp : (codecOf ((plainHeader 49).drop 0)).decompress runLibs
        (payloadAt ((plainHeader 49).drop 0)) = .ok [] := by decide +kernel
    cases hemp.symm.trans hbody
    decide
  · intro plain hgives
    cases hdec.unique hgives
    exact hmem
  · intro c hc hcomp
    rw [hfront c hc hcomp.1, htot]
    omega
  · intro c hc hcomp _
    rw [hstart c hc hcomp, htot]
  · intro _ c hc hcomp
    rw [hstart c hc hcomp, htot]

def shortHeader : Bytes := (plainHeader 0).take 21

theorem nonnegativeLengths_shortHeader : NonnegativeLengths shortHeader := by
  have hsize : shortHeader.length = 21 := by decide +kernel
  intro c hc hhead _
  rw [length_drop, hsize] at hhead
  obtain rfl : c = 0 := by omega
  decide +kernel

theorem short_batch_aborts :
    NonnegativeLengths shortHeader ∧ ¬ WalkersInBounds runLibs shortHeader ∧
      ∀ (W : Type) [WalEngine W] (partition : Partition) (tiers : Tiers W),
        partition.appendRecords tiers shortHeader = none := by
  have hsize : shortHeader.length = 21 := by decide +kernel
  have hmem : shortHeader.length ≤ isizeMax := by
    rw [hsize]
    decide
  have hpat : ∀ base, patchRecordBatches shortHeader base = none := by
    intro base
    rw [patchRecordBatches, if_neg (by omega), hsize,
      patchLoop_complete (by decide +kernel) 20 base, if_pos (by decide +kernel)]
    rfl
  refine ⟨nonnegativeLengths_shortHeader, fun hbds => ?_, ?_⟩
  · exact hbds.patch 0 ((patchGives_iff hmem 0 none).mpr (hpat 0).symm)
  · intro W _ partition tiers
    rw [Partition.appendRecords, hpat]
    rfl

end OxideMq.Broker
