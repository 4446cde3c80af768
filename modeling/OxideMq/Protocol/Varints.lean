import OxideMq.Protocol.KafkaEncoder

/-! Varints on the machine words of the source. -/

namespace OxideMq.Protocol

open Lib OxideMq.Core List

namespace KafkaEncoder

/-- The loop of `write_unsigned_varint`. -/
def writeUnsignedVarintU64 (value : UInt64) : Bytes :=
  if 0x80 ≤ value then
    ((value &&& 0x7F).toUInt8 ||| 0x80) :: writeUnsignedVarintU64 (value >>> 7)
  else [value.toUInt8]
termination_by value.toNat
decreasing_by
  rename_i h
  have hle : 128 ≤ value.toNat := h
  simp only [UInt64.toNat_shiftRight, UInt64.reduceToNat, Nat.reduceMod,
    Nat.shiftRight_eq_div_pow]
  omega

def zigzag (value : Int64) : UInt64 := ((value <<< 1) ^^^ (value >>> 63)).toUInt64

def writeVarintI64 (value : Int64) : Bytes := writeUnsignedVarintU64 (zigzag value)

end KafkaEncoder

namespace KafkaDecoder

open KafkaEncoder

def unzigzag (uval : UInt64) : Int64 := (uval >>> 1).toInt64 ^^^ -(uval &&& 1).toInt64

def readVarintI64 : Parser Int64 := do
  let uval ← readUnsignedVarint
  return unzigzag (UInt64.ofNat uval)

theorem toNat_shiftRight_seven (v : UInt64) : (v >>> 7).toNat = v.toNat / 128 := by
  simp [UInt64.toNat_shiftRight, Nat.shiftRight_eq_div_pow]

theorem septet_eq (v : UInt64) :
    (v &&& 0x7F).toUInt8 ||| 0x80 = UInt8.ofNat (v.toNat % 128 + 128) := by
  have hlow : ((v &&& 0x7F).toUInt8).toNat = v.toNat % 128 := by
    rw [UInt64.toNat_toUInt8, UInt64.toNat_and, show (0x7F : UInt64).toNat = 2 ^ 7 - 1 from rfl,
      Nat.and_two_pow_sub_one_eq_mod]
    omega
  apply UInt8.toNat_inj.mp
  rw [UInt8.toNat_or, hlow, show (0x80 : UInt8).toNat = 2 ^ 7 * 1 from rfl, Nat.or_comm,
    ← Nat.two_pow_add_eq_or_of_lt (by omega), UInt8.toNat_ofNat']
  omega

theorem writeUnsignedVarintU64_eq (fuel : ℕ) {v : UInt64} (hv : v.toNat < 128 ^ (fuel + 1)) :
    writeUnsignedVarintU64 v = writeUnsignedVarint (fuel + 1) v.toNat := by
  have hbound : 0x80 ≤ v ↔ v.toNat ≥ 0x80 := Iff.rfl
  rw [writeUnsignedVarintU64, writeUnsignedVarint]
  simp only [hbound]
  split
  · rename_i hbig
    rw [septet_eq]
    cases fuel with
    | zero => omega
    | succ fuel =>
      have hquot : (v >>> 7).toNat < 128 ^ (fuel + 1) := by
        rw [toNat_shiftRight_seven, Nat.div_lt_iff_lt_mul (by decide), ← Nat.pow_succ]
        exact hv
      rw [writeUnsignedVarintU64_eq fuel hquot, toNat_shiftRight_seven]
  · rfl

theorem sshiftRight_sign (x : BitVec 64) :
    x.sshiftRight 63 = if x.toInt < 0 then BitVec.allOnes 64 else 0#64 := by
  apply BitVec.eq_of_toInt_eq
  have hlo := x.le_toInt
  have hhi := x.toInt_lt
  rw [BitVec.toInt_sshiftRight, Int.shiftRight_eq_div_pow]
  split
  · simp
    omega
  · simp
    omega

theorem neg_and_one (x : BitVec 64) :
    -(x &&& 1#64) = if x.toNat % 2 = 0 then 0#64 else BitVec.allOnes 64 := by
  have hlow : x &&& 1#64 = BitVec.ofNat 64 (x.toNat % 2) := by
    apply BitVec.eq_of_toNat_eq
    simp only [BitVec.toNat_and, BitVec.toNat_ofNat, Nat.reducePow, Nat.one_mod, Nat.and_one_is_mod]
    omega
  rw [hlow]
  rcases Nat.mod_two_eq_zero_or_one x.toNat with h | h
  · rw [h, if_pos rfl]
    rfl
  · rw [h, if_neg (by decide)]
    rfl

theorem toNat_zigzag (v : Int64) : (zigzag v).toNat =
    if v.toInt < 0 then (-2 * v.toInt - 1).toNat else (2 * v.toInt).toNat := by
  have hz : (zigzag v).toNat = (v.toBitVec <<< 1 ^^^ v.toBitVec.sshiftRight 63).toNat := by
    rw [← UInt64.toNat_toBitVec]
    simp [zigzag]
  have hlo := v.toBitVec.le_toInt
  have hint : v.toInt = v.toBitVec.toInt := rfl
  have hnat := BitVec.toInt_eq_toNat_cond v.toBitVec
  have hlt := v.toBitVec.isLt
  rw [hz, sshiftRight_sign, hint]
  split
  · rw [BitVec.xor_allOnes, BitVec.toNat_not, BitVec.toNat_shiftLeft, Nat.shiftLeft_eq]
    split at hnat <;> omega
  · rw [BitVec.xor_zero, BitVec.toNat_shiftLeft, Nat.shiftLeft_eq]
    split at hnat <;> omega

theorem toInt_unzigzag (u : UInt64) : (unzigzag u).toInt =
    if u.toNat % 2 = 0 then ((u.toNat / 2 : ℕ) : ℤ) else -((u.toNat / 2 : ℕ) : ℤ) - 1 := by
  have hz : (unzigzag u).toInt = (u.toBitVec >>> 1 ^^^ -(u.toBitVec &&& 1#64)).toInt := by
    rw [← Int64.toInt_toBitVec]
    simp [unzigzag]
  have hhalf : (u.toBitVec >>> 1).toNat = u.toNat / 2 := by
    rw [BitVec.toNat_ushiftRight, Nat.shiftRight_eq_div_pow]
    rfl
  have hlt := u.toNat_lt
  rw [hz, neg_and_one, UInt64.toNat_toBitVec, BitVec.toInt_eq_toNat_cond]
  split
  · rw [BitVec.xor_zero, hhalf, if_pos (by omega)]
  · rw [BitVec.xor_allOnes, BitVec.toNat_not, hhalf, if_neg (by omega)]
    omega

theorem unzigzag_zigzag (v : Int64) : unzigzag (zigzag v) = v := by
  apply Int64.toInt_inj.mp
  rw [toInt_unzigzag, toNat_zigzag]
  split <;> split <;> omega

theorem zigzag_unzigzag (u : UInt64) : zigzag (unzigzag u) = u := by
  apply UInt64.toNat_inj.mp
  rw [toNat_zigzag, toInt_unzigzag]
  split <;> split <;> omega

theorem zigzag_bijective : Function.Bijective zigzag :=
  ⟨Function.LeftInverse.injective unzigzag_zigzag, Function.RightInverse.surjective zigzag_unzigzag⟩

theorem reads_unsignedVarintU64 (v : UInt64) :
    Reads readUnsignedVarint (writeUnsignedVarintU64 v) v.toNat := by
  have hlt := v.toNat_lt
  rw [writeUnsignedVarintU64_eq 9 (by omega)]
  exact reads_unsignedVarint hlt

theorem writeVarintI64_eq (v : Int64) : writeVarintI64 v = writeVarint v.toInt := by
  have hlt := (zigzag v).toNat_lt
  rw [writeVarintI64, writeUnsignedVarintU64_eq 9 (by omega), toNat_zigzag, writeVarint]

def varintOctets : Bytes → Bytes
  | [] => []
  | b :: rest => if b.toNat < 128 then [b] else b :: varintOctets rest

def varintSum (octets : Bytes) : ℕ := Nat.ofDigits 128 (octets.map fun b => b.toNat % 128)

def TenthOverflows (src : Bytes) : Prop :=
  (∀ b ∈ src.take 9, 128 ≤ b.toNat) ∧ ∃ b, src[9]? = some b ∧ 2 ≤ b.toNat ∧ b.toNat < 128

section Loop

variable {src front rest : Bytes} {b : UInt8} {value shift v : ℕ}

theorem varintOctets_append (hfront : ∀ c ∈ front, 128 ≤ c.toNat) (hb : b.toNat < 128)
    (rest : Bytes) : varintOctets (front ++ b :: rest) = front ++ [b] := by
  induction front with
  | nil => exact if_pos hb
  | cons c front ih =>
    obtain ⟨hc, hfront⟩ := forall_mem_cons.mp hfront
    rw [cons_append, varintOctets, if_neg (by omega), ih hfront, cons_append]

theorem varintSum_cons (b : UInt8) (octets : Bytes) :
    varintSum (b :: octets) = b.toNat % 128 + 128 * varintSum octets := by
  simp [varintSum, Nat.ofDigits_cons]

theorem varintSum_concat (hb : b.toNat < 128) :
    varintSum (front ++ [b]) = varintSum front + 128 ^ front.length * b.toNat := by
  rw [varintSum, map_append, Nat.ofDigits_append, length_map, varintSum]
  simp [Nat.mod_eq_of_lt hb]

theorem varintSum_lt (octets : Bytes) : varintSum octets < 128 ^ octets.length := by
  have hlt := Nat.ofDigits_lt_base_pow_length (b := 128)
    (l := octets.map fun b => b.toNat % 128) (by decide) (by simp; intros; omega)
  rwa [length_map] at hlt

theorem or_shiftLeft_mod (hval : value < 2 ^ shift) (hshift : shift ≤ 63) (digit : ℕ) :
    value ||| (digit <<< shift) % 2 ^ 64 = (value + digit * 2 ^ shift) % 2 ^ 64 := by
  have hword : 2 ^ 64 = 2 ^ (64 - shift) * 2 ^ shift := by
    rw [← Nat.pow_add, Nat.sub_add_cancel (by omega)]
  have hkept : digit % 2 ^ (64 - shift) + 1 ≤ 2 ^ (64 - shift) :=
    Nat.mod_lt _ (Nat.two_pow_pos _)
  have hfits : value + digit % 2 ^ (64 - shift) * 2 ^ shift < 2 ^ 64 := by
    have hmul := Nat.mul_le_mul_right (2 ^ shift) hkept
    rw [Nat.add_mul, ← hword] at hmul
    omega
  have hmod : digit * 2 ^ shift % 2 ^ 64 = digit % 2 ^ (64 - shift) * 2 ^ shift := by
    rw [hword, Nat.mul_mod_mul_right]
  rw [Nat.shiftLeft_eq, Nat.add_mod, hmod, Nat.mod_eq_of_lt (by omega : value < 2 ^ 64),
    Nat.mod_eq_of_lt hfits, Nat.or_comm, Nat.mul_comm, ← Nat.two_pow_add_eq_or_of_lt hval,
    Nat.add_comm]

theorem varintLoop_ok_iff (hval : value < 2 ^ shift) (hshift : shift ≤ 63) :
    varintLoop src value shift = .ok v rest ↔ ∃ front b, src = front ++ b :: rest ∧
      (∀ c ∈ front, 128 ≤ c.toNat) ∧ b.toNat < 128 ∧ shift + 7 * front.length ≤ 63 ∧
        v = (value + varintSum (front ++ [b]) * 2 ^ shift) % 2 ^ 64 := by
  induction src generalizing value shift with
  | nil => simp [varintLoop]
  | cons c src ih =>
    rw [varintLoop]
    by_cases hc : c.toNat < 128
    · have hsum : varintSum [c] = c.toNat % 128 := by simp [varintSum]
      rw [if_pos hc, or_shiftLeft_mod hval hshift, Outcome.ok.injEq]
      constructor
      · rintro ⟨rfl, rfl⟩
        exact ⟨[], c, rfl, by simp, hc, by simpa using hshift, by rw [nil_append, hsum]⟩
      · rintro ⟨front, b, heq, hfront, hb, -, rfl⟩
        cases front with
        | nil =>
          obtain ⟨rfl, rfl⟩ := cons.inj heq
          exact ⟨by rw [nil_append, hsum], rfl⟩
        | cons d front =>
          obtain ⟨rfl, -⟩ := cons.inj heq
          exact absurd (hfront c mem_cons_self) (by omega)
    -- an octet that continues is the first of those in front of the last
    have hhead {front : Bytes} {b : UInt8} (hb : b.toNat < 128) :
        c :: src = front ++ b :: rest ↔
          ∃ front', front = c :: front' ∧ src = front' ++ b :: rest := by
      cases front with
      | nil => simp [show c ≠ b by rintro rfl; exact hc hb]
      | cons d front => simp [eq_comm, and_comm]
    rw [if_neg hc]
    by_cases hover : shift + 7 > 63
    · rw [if_pos hover]
      constructor
      · intro h
        cases h
      · rintro ⟨front, b, heq, -, hb, hlen, -⟩
        obtain ⟨front', rfl, -⟩ := (hhead hb).mp heq
        rw [length_cons] at hlen
        omega
    · have hpow : 2 ^ (shift + 7) = 128 * 2 ^ shift := by ring
      have hdigit : c.toNat % 128 * 2 ^ shift ≤ 127 * 2 ^ shift :=
        Nat.mul_le_mul_right _ (by omega)
      have hword : 2 ^ (shift + 7) ≤ 2 ^ 63 := Nat.pow_le_pow_right (by decide) (by omega)
      have hsum (octets : Bytes) : value + c.toNat % 128 * 2 ^ shift +
          varintSum octets * 2 ^ (shift + 7) = value + varintSum (c :: octets) * 2 ^ shift := by
        rw [varintSum_cons, hpow]
        ring
      rw [if_neg hover, or_shiftLeft hval (by omega), ih (by omega) (by omega)]
      constructor
      · rintro ⟨front, b, rfl, hfront, hb, hlen, rfl⟩
        refine ⟨c :: front, b, rfl, forall_mem_cons.mpr ⟨by omega, hfront⟩, hb, ?_, ?_⟩
        · rw [length_cons]
          omega
        · rw [hsum, cons_append]
      · rintro ⟨front, b, heq, hfront, hb, hlen, rfl⟩
        obtain ⟨front, rfl, rfl⟩ := (hhead hb).mp heq
        rw [length_cons] at hlen
        exact ⟨front, b, rfl, (forall_mem_cons.mp hfront).2, hb, by omega, by rw [hsum, cons_append]⟩

theorem readUnsignedVarint_ok_iff : readUnsignedVarint.run src = .ok v rest ↔
    ∃ front b, src = front ++ b :: rest ∧ (∀ c ∈ front, 128 ≤ c.toNat) ∧ b.toNat < 128 ∧
      front.length ≤ 9 ∧ v = varintSum (front ++ [b]) % 2 ^ 64 := by
  have hlen (n : ℕ) : 7 * n ≤ 63 ↔ n ≤ 9 := by omega
  refine (varintLoop_ok_iff (by decide) (by decide)).trans ?_
  simp only [Nat.zero_add, hlen, Nat.pow_zero, Nat.mul_one]

theorem varintSum_concat_lt_iff (hlen : front.length ≤ 9) (hb : b.toNat < 128) :
    varintSum (front ++ [b]) < 2 ^ 64 ↔ ¬(front.length = 9 ∧ 2 ≤ b.toNat) := by
  have hsum := varintSum_lt front
  rw [varintSum_concat hb]
  rcases hlen.lt_or_eq with hlt | heq
  · have hpow : 128 ^ front.length ≤ 128 ^ 8 := Nat.pow_le_pow_right (by decide) (by omega)
    have hmul : 128 ^ front.length * b.toNat ≤ 128 ^ 8 * 127 := Nat.mul_le_mul hpow (by omega)
    omega
  · rw [heq] at hsum ⊢
    omega

theorem tenthOverflows_iff (hfront : ∀ c ∈ front, 128 ≤ c.toNat) (hb : b.toNat < 128)
    (rest : Bytes) :
    TenthOverflows (front ++ b :: rest) ↔ front.length = 9 ∧ 2 ≤ b.toNat := by
  constructor
  · rintro ⟨htake, c, hc, hlo, hhi⟩
    rcases lt_trichotomy front.length 9 with hlt | heq | hgt
    · have hmem : b ∈ (front ++ b :: rest).take 9 := by
        rw [take_append, show 9 - front.length = 8 - front.length + 1 by omega, take_succ_cons]
        simp
      exact absurd (htake b hmem) (by omega)
    · rw [getElem?_append_right (by omega), heq, Nat.sub_self] at hc
      obtain rfl := Option.some.inj hc
      exact ⟨heq, hlo⟩
    · rw [getElem?_append_left hgt] at hc
      exact absurd (hfront c (mem_of_getElem? hc)) (by omega)
  · rintro ⟨hlen, hlo⟩
    refine ⟨?_, b, ?_, hlo, hb⟩
    · rw [take_left' hlen]
      exact hfront
    · rw [getElem?_append_right (by omega), hlen]
      rfl

theorem TenthOverflows.eq_append (h : TenthOverflows src) : ∃ front b rest,
    src = front ++ b :: rest ∧ (∀ c ∈ front, 128 ≤ c.toNat) ∧ b.toNat < 128 ∧
      front.length = 9 := by
  obtain ⟨htake, b, hb, -, hhi⟩ := h
  obtain ⟨hlt, rfl⟩ := List.getElem?_eq_some_iff.mp hb
  refine ⟨src.take 9, src[9], src.drop 10, ?_, htake, hhi, ?_⟩
  · rw [← drop_eq_getElem_cons, take_append_drop]
  · rw [length_take]
    omega

end Loop

theorem readUnsignedVarint_exact_iff (src : Bytes) :
    ((∀ v rest, readUnsignedVarint.run src = .ok v rest →
        src = varintOctets src ++ rest ∧ v = varintSum (varintOctets src)) ∧
      (2 ^ 64 ≤ varintSum (varintOctets src) → ∃ e, readUnsignedVarint.run src = .err e)) ↔
    ¬TenthOverflows src := by
  cases hrun : readUnsignedVarint.run src with
  | ok v rest =>
    obtain ⟨front, b, rfl, hfront, hb, hlen, rfl⟩ := readUnsignedVarint_ok_iff.mp hrun
    rw [varintOctets_append hfront hb, tenthOverflows_iff hfront hb,
      ← varintSum_concat_lt_iff hlen hb]
    constructor
    · rintro ⟨hexact, -⟩
      obtain ⟨-, heq⟩ := hexact _ _ rfl
      rw [← heq]
      exact Nat.mod_lt _ (by decide)
    · intro hlt
      refine ⟨?_, fun hle => absurd hle (by omega)⟩
      rintro v' rest' heq
      obtain ⟨rfl, rfl⟩ := Outcome.ok.inj heq
      exact ⟨by simp, Nat.mod_eq_of_lt hlt⟩
  | err e =>
    refine iff_of_true ⟨fun _ _ h => (by cases h), fun _ => ⟨e, rfl⟩⟩ ?_
    intro hten
    obtain ⟨front, b, rest, heq, hfront, hb, hlen⟩ := hten.eq_append
    rw [readUnsignedVarint_ok_iff.mpr ⟨front, b, heq, hfront, hb, hlen.le, rfl⟩] at hrun
    cases hrun
  | panic => exact absurd hrun (varintLoop_ne_panic src 0 0)

theorem readUnsignedVarint_tenth_two :
    readUnsignedVarint.run (replicate 9 0x80 ++ [0x02]) = .ok 0 [] ∧
      varintOctets (replicate 9 0x80 ++ [0x02]) = replicate 9 0x80 ++ [0x02] ∧
      varintSum (replicate 9 0x80 ++ [0x02]) = 2 ^ 64 := by
  decide

theorem image_readVarint : Image Int64.toInt readVarintI64 readVarint := by
  intro src
  rw [readVarintI64, readVarint, Decoder.run_bind, Decoder.run_bind]
  cases hrun : readUnsignedVarint.run src with
  | ok v rest =>
    obtain ⟨-, -, -, -, -, -, rfl⟩ := readUnsignedVarint_ok_iff.mp hrun
    generalize varintSum _ = n
    simp [pure, Outcome.map, toInt_unzigzag]
  | err e => rfl
  | panic => rfl

theorem writeUnsignedVarintU64_length_le (v : UInt64) :
    (writeUnsignedVarintU64 v).length ≤ 10 := by
  have hlt := v.toNat_lt
  rw [writeUnsignedVarintU64_eq 9 (by omega)]
  exact writeUnsignedVarint_length_le 10 _

theorem reads_varintI64 (v : Int64) : Reads readVarintI64 (writeVarintI64 v) v := by
  have hread : Reads readVarintI64 (writeVarintI64 v) _ :=
    .bind_pure _ (reads_unsignedVarintU64 (zigzag v))
  rwa [UInt64.ofNat_toNat, unzigzag_zigzag] at hread

theorem varints_round_trip :
    (∀ (value : UInt64) (t : Bytes),
        readUnsignedVarint.run (writeUnsignedVarintU64 value ++ t) = .ok value.toNat t ∧
          (writeUnsignedVarintU64 value).length ≤ 10) ∧
      (∀ (value : Int64) (t : Bytes),
        readVarintI64.run (writeVarintI64 value ++ t) = .ok value t ∧
          (writeVarintI64 value).length ≤ 10) ∧
      Function.Bijective zigzag :=
  ⟨fun value t => ⟨reads_unsignedVarintU64 value t, writeUnsignedVarintU64_length_le value⟩,
    fun value t => ⟨reads_varintI64 value t, writeUnsignedVarintU64_length_le _⟩,
    zigzag_bijective⟩

end KafkaDecoder

end OxideMq.Protocol
