import OxideMq.Lib.Decoder

/-! Decoders that read back what was written. -/

namespace OxideMq.Lib

open List Decoder

def Reads {E α : Type} (d : Decoder E α) (bytes : Bytes) (a : α) : Prop :=
  ∀ rest, d.run (bytes ++ rest) = .ok a rest

namespace Reads

variable {E α β : Type} {d : Decoder E α} {f : α → Decoder E β} {xs ys : Bytes} {a : α} {b : β}
  {n : ℕ}

theorem pure (a : α) : Reads (Pure.pure a : Decoder E α) [] a := fun _ => rfl

theorem bind (hd : Reads d xs a) (hf : Reads (f a) ys b) : Reads (d >>= f) (xs ++ ys) b := by
  intro rest
  rw [append_assoc, run_bind_of_ok (hd _)]
  exact hf rest

theorem bind_pure (g : α → β) (hd : Reads d xs a) :
    Reads (d >>= fun a => Pure.pure (g a)) xs (g a) := by
  intro rest
  rw [run_bind_of_ok (hd rest)]
  rfl

theorem bind_tail (hd : Reads d xs a) (hf : Reads (f a) [] b) : Reads (d >>= f) xs b := by
  have h := bind hd hf
  rwa [append_nil] at h

theorem get (hn : xs.length = n) : Reads (get n : Decoder E Bytes) xs xs := by
  intro rest
  rw [run_get, if_neg (by rw [length_append]; omega), take_left' hn, drop_left' hn]

theorem getNat {k v : ℕ} (h : v < 256 ^ k) : Reads (getNat k : Decoder E ℕ) (beEncode k v) v := by
  have hread : Reads (Decoder.getNat k : Decoder E ℕ) (beEncode k v) (beDecode (beEncode k v)) :=
    bind_pure beDecode (get (beEncode_length k v))
  rwa [beDecode_beEncode, Nat.mod_eq_of_lt h] at hread

theorem atLeast {f : Unit → Decoder E β} (e : E) (hn : n ≤ xs.length) (hf : Reads (f ()) xs b) :
    Reads (atLeast n e >>= f) xs b := by
  intro rest
  have hlong : ¬(xs ++ rest).length < n := by
    rw [length_append]
    omega
  rw [run_bind, run_atLeast, if_neg hlong]
  exact hf rest

theorem whenLeft (default : α) (hn : n ≤ xs.length) (hd : Reads d xs a) :
    Reads (whenLeft n default d) xs a := by
  intro rest
  have hlong : ¬(xs ++ rest).length < n := by
    rw [length_append]
    omega
  rw [run_whenLeft, if_neg hlong]
  exact hd rest

theorem field {x : Bytes} {fields : List Bytes} (hd : Reads d x a)
    (hf : Reads (f a) fields.flatten b) : Reads (d >>= f) (x :: fields).flatten b := by
  rw [flatten_cons]
  exact bind hd hf

theorem since {c : Bool} (default : α) (hd : c = true → Reads d xs a) :
    Reads (if c then d else Pure.pure default) (if c then xs else []) (if c then a else default) := by
  cases c with
  | true => exact hd rfl
  | false => exact pure default

theorem length_le_flatten {x : Bytes} {fields : List Bytes} (hn : n ≤ x.length) :
    n ≤ (x :: fields).flatten.length := by
  rw [flatten_cons, length_append]
  omega

theorem times {γ : Type} {encode : γ → Bytes} {value : γ → α} {elements : List γ}
    (h : ∀ x ∈ elements, Reads d (encode x) (value x)) :
    Reads (d.times elements.length) (elements.flatMap encode) (elements.map value) := by
  induction elements with
  | nil => exact pure []
  | cons x elements ih =>
    rw [flatMap_cons]
    refine bind (h x mem_cons_self) (bind_pure (value x :: ·) (ih fun y hy => ?_))
    exact h y (mem_cons_of_mem x hy)

end Reads

end OxideMq.Lib
