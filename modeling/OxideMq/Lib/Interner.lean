import OxideMq.Lib.HashMap

/-! Numbers for values. -/

namespace OxideMq.Lib

open AList

variable {K : Type} [DecidableEq K]

def intern (w : ℕ) (next : ℤ) (table : HashMap K ℤ) (key : K) : ℤ × ℤ × HashMap K ℤ :=
  match table.lookup key with
  | some number => (number, next, table)
  | none => (next, wrapSigned w (next + 1), table.insert key next)

theorem lookup_intern (w : ℕ) (next : ℤ) (table : HashMap K ℤ) (key key' : K) :
    (intern w next table key).2.2.lookup key' =
      if key' = key then some (intern w next table key).1 else table.lookup key' := by
  rw [intern]
  cases hl : table.lookup key with
  | some number =>
    by_cases hkey : key' = key
    · rw [if_pos hkey, hkey, hl]
    · rw [if_neg hkey]
  | none => exact HashMap.lookup_insert_ite table key key' next

theorem lookup_intern_of_some (w : ℕ) {next number : ℤ} {table : HashMap K ℤ} {key' : K}
    (h : table.lookup key' = some number) (key : K) :
    (intern w next table key).2.2.lookup key' = some number := by
  rw [lookup_intern]
  split
  · next hkey =>
    subst hkey
    rw [intern, h]
  · exact h

theorem length_keys_le_intern (w : ℕ) (next : ℤ) (table : HashMap K ℤ) (key : K) :
    table.keys.length ≤ (intern w next table key).2.2.keys.length := by
  rw [intern]
  cases hl : table.lookup key with
  | some number => exact le_rfl
  | none =>
    show table.keys.length ≤ (table.insert key next).keys.length
    rw [keys_insert, List.erase_of_not_mem, List.length_cons]
    · exact Nat.le_succ _
    · rw [← mem_keys]
      exact lookup_eq_none.mp hl

structure Numbered (next : ℤ) (table : HashMap K ℤ) : Prop where
  next_eq : next = table.keys.length + 1
  bounds : ∀ key number, table.lookup key = some number → 1 ≤ number ∧ number < next
  injective : ∀ key key' number, table.lookup key = some number →
    table.lookup key' = some number → key = key'

theorem numbered_empty : Numbered 1 (∅ : HashMap K ℤ) :=
  ⟨rfl, nofun, nofun⟩

theorem Numbered.intern {w : ℕ} (hw : 0 < w) {next : ℤ} {table : HashMap K ℤ}
    (h : Numbered next table) (key : K)
    (hroom : ((Lib.intern w next table key).2.2.keys.length : ℤ) < 2 ^ (w - 1) - 1) :
    Numbered (Lib.intern w next table key).2.1 (Lib.intern w next table key).2.2 := by
  rw [Lib.intern] at hroom ⊢
  cases hl : table.lookup key with
  | some number => exact h
  | none =>
    rw [hl] at hroom
    dsimp only at hroom ⊢
    have hkeys : (table.insert key next).keys.length = table.keys.length + 1 := by
      rw [keys_insert, List.erase_of_not_mem, List.length_cons]
      rw [← mem_keys]
      exact lookup_eq_none.mp hl
    have hnext := h.next_eq
    rw [hkeys, Nat.cast_add, Nat.cast_one] at hroom
    have hfits : FitsSigned w (next + 1) := ⟨by omega, by omega⟩
    rw [wrapSigned_of_fits hw hfits]
    refine ⟨by rw [hkeys]; omega, fun key' number hnumber => ?_, ?_⟩
    · rw [HashMap.lookup_insert_ite] at hnumber
      split at hnumber
      · cases hnumber
        omega
      · have hbds := h.bounds key' number hnumber
        omega
    · intro key₁ key₂ number h₁ h₂
      rw [HashMap.lookup_insert_ite] at h₁ h₂
      split at h₁
      · next hkey₁ =>
        split at h₂
        · next hkey₂ => rw [hkey₁, hkey₂]
        · have hbds := h.bounds key₂ number h₂
          have hsame := Option.some.inj h₁
          omega
      · split at h₂
        · have hbds := h.bounds key₁ number h₁
          have hsame := Option.some.inj h₂
          omega
        · exact h.injective key₁ key₂ number h₁ h₂

end OxideMq.Lib
