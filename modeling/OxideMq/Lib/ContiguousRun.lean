import Mathlib.Data.List.Sort
import Mathlib.Order.Bounds.Basic

/-! Contiguous runs of keys in a list. -/

namespace OxideMq.Lib

open List

variable {α : Type} (key : α → ℤ)

def earliestRun (l : List α) (start : ℤ) (k : ℕ) : List α :=
  (List.range k).filterMap fun i : ℕ => l.find? fun a => key a = start + i

def RunLength (l : List α) (start : ℤ) (k : ℕ) : Prop :=
  IsGreatest {k : ℕ | ∀ i < k, ∃ a ∈ l, key a = start + i} k

variable {key} {l l' : List α} {a : α} {start : ℤ} {k : ℕ}

theorem runLength_iff : RunLength key l start k ↔
      (∀ i < k, ∃ a ∈ l, key a = start + i) ∧ ∀ a ∈ l, key a ≠ start + k := by
  constructor
  · rintro ⟨hall, hgreatest⟩
    refine ⟨hall, fun a ha hkey => ?_⟩
    -- one more key would make a longer run
    have hlonger : k + 1 ∈ {k : ℕ | ∀ i < k, ∃ a ∈ l, key a = start + i} := by
      intro i hi
      rcases Nat.lt_succ_iff_lt_or_eq.mp hi with hlt | rfl
      · exact hall i hlt
      · exact ⟨a, ha, hkey⟩
    have hle := hgreatest hlonger
    omega
  · rintro ⟨hall, hmissing⟩
    refine ⟨hall, fun n hn => not_lt.mp fun hlt => ?_⟩
    obtain ⟨a, ha, hkey⟩ := hn k hlt
    exact hmissing a ha hkey

theorem RunLength.unique {k' : ℕ} (h : RunLength key l start k) (h' : RunLength key l start k') :
    k = k' :=
  IsGreatest.unique h h'

theorem map_some_filterMap {β : Type} {f : β → Option α} {keys : List β}
    (h : ∀ b ∈ keys, (f b).isSome = true) : (keys.filterMap f).map some = keys.map f := by
  induction keys with
  | nil => rfl
  | cons b keys ih =>
    obtain ⟨hb, hkeys⟩ := forall_mem_cons.mp h
    obtain ⟨a, ha⟩ := Option.isSome_iff_exists.mp hb
    rw [filterMap_cons_some ha, map_cons, map_cons, ih hkeys, ha]

theorem map_some_earliestRun (h : RunLength key l start k) : (earliestRun key l start k).map some =
      (range k).map fun i : ℕ => l.find? fun a => key a = start + i := by
  refine map_some_filterMap fun i hi => ?_
  obtain ⟨a, ha, hkey⟩ := h.1 i (mem_range.mp hi)
  exact find?_isSome.mpr ⟨a, ha, by simpa using hkey⟩

theorem earliestRun_eq_nil_iff (h : RunLength key l start k) :
    earliestRun key l start k = [] ↔ k = 0 := by
  have hlen := congrArg length (map_some_earliestRun h)
  rw [length_map, length_map, length_range] at hlen
  rw [← length_eq_zero_iff, hlen]

theorem runLength_zero (h : ∀ a ∈ l, key a ≠ start) : RunLength key l start 0 := by
  refine runLength_iff.mpr ⟨by simp, fun a ha => ?_⟩
  simpa using h a ha

theorem RunLength.skip (hlt : key a < start) (h : RunLength key l start k) :
    RunLength key (a :: l) start k := by
  obtain ⟨hall, hmiss⟩ := runLength_iff.mp h
  refine runLength_iff.mpr ⟨fun i hi => ?_, ?_⟩
  · obtain ⟨b, hb, hkey⟩ := hall i hi
    exact ⟨b, mem_cons_of_mem _ hb, hkey⟩
  · exact forall_mem_cons.mpr ⟨by omega, hmiss⟩

theorem earliestRun_skip (hlt : key a < start) :
    earliestRun key (a :: l) start k = earliestRun key l start k := by
  refine filterMap_congr fun i _ => ?_
  rw [find?_cons_of_neg]
  simp only [decide_eq_true_eq]
  omega

theorem RunLength.cons (hkey : key a = start) (h : RunLength key l (start + 1) k) :
    RunLength key (a :: l) start (k + 1) := by
  obtain ⟨hall, hmiss⟩ := runLength_iff.mp h
  refine runLength_iff.mpr ⟨fun i hi => ?_, ?_⟩
  · cases i with
    | zero => exact ⟨a, mem_cons_self, by simpa using hkey⟩
    | succ i =>
      obtain ⟨b, hb, hnext⟩ := hall i (by omega)
      refine ⟨b, mem_cons_of_mem _ hb, ?_⟩
      push_cast
      omega
  · push_cast
    refine forall_mem_cons.mpr ⟨by omega, fun b hb => ?_⟩
    have hne := hmiss b hb
    omega

theorem earliestRun_cons (hkey : key a = start) :
    earliestRun key (a :: l) start (k + 1) = a :: earliestRun key l (start + 1) k := by
  have hfirst : (a :: l).find? (fun b => key b = start + (0 : ℕ)) = some a := by
    rw [find?_cons_of_pos]
    simpa using hkey
  rw [earliestRun, range_succ_eq_map, filterMap_cons, hfirst, filterMap_map]
  refine congrArg (a :: ·) (filterMap_congr fun i _ => ?_)
  rw [Function.comp_apply, find?_cons_of_neg]
  · congr 1
    funext b
    rw [decide_eq_decide]
    push_cast
    constructor <;> intro h <;> omega
  · simp only [decide_eq_true_eq]
    push_cast
    omega

theorem RunLength.perm (hperm : l.Perm l') (h : RunLength key l start k) :
    RunLength key l' start k := by
  obtain ⟨hall, hmiss⟩ := runLength_iff.mp h
  refine runLength_iff.mpr ⟨fun i hi => ?_, fun a ha => hmiss a (hperm.mem_iff.mpr ha)⟩
  obtain ⟨a, ha, hkey⟩ := hall i hi
  exact ⟨a, hperm.mem_iff.mp ha, hkey⟩

theorem find?_insertionSort {r : α → α → Prop} [DecidableRel r] {p : α → Bool}
    (hequal : ∀ a b, p a = true → p b = true → r a b) (l : List α) :
    (l.insertionSort r).find? p = l.find? p := by
  have hsort : (l.filter p).Pairwise r := by
    refine pairwise_iff_forall_sublist.mpr fun {a b} hsub => ?_
    have ha := mem_filter.mp (hsub.subset (mem_cons_self))
    have hb := mem_filter.mp (hsub.subset (mem_cons_of_mem _ (mem_singleton_self b)))
    exact hequal a b ha.2 hb.2
  have hsub : (l.filter p).Sublist ((l.insertionSort r).filter p) := by
    have h := (sublist_insertionSort hsort filter_sublist).filter p
    rwa [filter_filter, filter_congr (q := p) (by simp)] at h
  have hlen : (l.filter p).length = ((l.insertionSort r).filter p).length :=
    ((perm_insertionSort r l).filter p).length_eq.symm
  rw [← head?_filter, ← head?_filter, hsub.eq_of_length hlen]

theorem earliestRun_insertionSort {r : α → α → Prop} [DecidableRel r]
    (hequal : ∀ a b, key a = key b → r a b) (l : List α) :
    earliestRun key (l.insertionSort r) start k = earliestRun key l start k := by
  refine filterMap_congr fun i _ => find?_insertionSort (fun a b ha hb => ?_) l
  rw [decide_eq_true_eq] at ha hb
  exact hequal a b (ha.trans hb.symm)

theorem earliestRun_perm (hperm : l.Perm l') (hnd : (l.map key).Nodup) :
    earliestRun key l start k = earliestRun key l' start k := by
  refine filterMap_congr fun i _ => ?_
  have hatMost : ∀ a ∈ l, ∀ b ∈ l, key a = start + i → key b = start + i → a = b :=
    fun a ha b hb hkeyA hkeyB => inj_on_of_nodup_map hnd ha hb (hkeyA.trans hkeyB.symm)
  cases hfound : l.find? fun a => key a = start + i with
  | none =>
    symm
    rw [find?_eq_none] at hfound ⊢
    exact fun a ha => hfound a (hperm.mem_iff.mpr ha)
  | some a =>
    have hkey : key a = start + i := by simpa using find?_some hfound
    have ha := mem_of_find?_eq_some hfound
    cases hoth : l'.find? fun a => key a = start + i with
    | none =>
      have hnone := find?_eq_none.mp hoth a (hperm.mem_iff.mp ha)
      exact absurd hkey (by simpa using hnone)
    | some b =>
      have hkey' : key b = start + i := by simpa using find?_some hoth
      have hb := hperm.mem_iff.mpr (mem_of_find?_eq_some hoth)
      rw [hatMost a ha b hb hkey hkey']

end OxideMq.Lib
