import OxideMq.Lib.Bytes

/-! Hash maps. -/

namespace OxideMq.Lib

open List

abbrev HashMap (K V : Type) := AList (fun _ : K => V)

namespace HashMap

variable {K V : Type} [DecidableEq K]
variable {m : HashMap K V}

def Rehash (m m' : HashMap K V) : Prop := m.entries.Perm m'.entries

theorem Rehash.lookup {m' : HashMap K V} (h : Rehash m m') (k : K) : m'.lookup k = m.lookup k :=
  (AList.perm_lookup h).symm

theorem lookup_insert_ite (m : HashMap K V) (k k' : K) (v : V) :
    (m.insert k v).lookup k' = if k' = k then some v else m.lookup k' := by
  by_cases h : k' = k
  · subst h; rw [if_pos rfl]; exact AList.lookup_insert m
  · rw [if_neg h]; exact AList.lookup_insert_ne h

theorem lookup_erase_ite (m : HashMap K V) (k k' : K) :
    (m.erase k).lookup k' = if k' = k then none else m.lookup k' := by
  by_cases h : k' = k
  · subst h; rw [if_pos rfl]; exact AList.lookup_erase k' m
  · rw [if_neg h]; exact AList.lookup_erase_ne h

theorem lookup_eq_some {k : K} {v : V} : m.lookup k = some v ↔ (⟨k, v⟩ : Σ _ : K, V) ∈ m.entries :=
  AList.mem_lookup_iff

theorem mem_iff {k : K} : k ∈ m ↔ ∃ v, m.lookup k = some v := by
  rw [← AList.lookup_isSome, Option.isSome_iff_exists]

/-- `entry(k).or_insert(v)`: an existing value stays. -/
def entryOrInsert (m : HashMap K V) (k : K) (v : V) : HashMap K V :=
  if (m.lookup k).isSome then m else m.insert k v

theorem lookup_entryOrInsert (m : HashMap K V) (k k' : K) (v : V) :
    (m.entryOrInsert k v).lookup k' =
      if k' = k then some ((m.lookup k).getD v) else m.lookup k' := by
  unfold entryOrInsert
  cases h : m.lookup k with
  | none => simp [lookup_insert_ite]
  | some w =>
    by_cases hk : k' = k
    · subst hk; simp [h]
    · simp [hk]

/-- Update through `get_mut`: the value of `k` changes in place. -/
def modify (m : HashMap K V) (k : K) (f : V → V) : HashMap K V :=
  ⟨m.entries.map (fun e => if e.1 = k then ⟨e.1, f e.2⟩ else e), by
    have hkeys : (m.entries.map (fun e => if e.1 = k then ⟨e.1, f e.2⟩ else e)).map Sigma.fst =
        m.entries.map Sigma.fst := by
      rw [List.map_map]
      exact List.map_congr_left fun e _ => by dsimp only [Function.comp]; split <;> rfl
    have hnodup : (m.entries.map Sigma.fst).Nodup := m.nodupKeys
    exact (congrArg List.Nodup hkeys).mpr hnodup⟩

@[simp] theorem keys_modify (m : HashMap K V) (k : K) (f : V → V) :
    (m.modify k f).keys = m.keys := by
  simp only [AList.keys, keys, modify, map_map]
  exact map_congr_left fun e _ => by dsimp only [Function.comp]; split <;> rfl

theorem lookup_modify (m : HashMap K V) (k k' : K) (f : V → V) :
    (m.modify k f).lookup k' = if k' = k then (m.lookup k).map f else m.lookup k' := by
  apply Option.ext
  intro v
  rw [lookup_eq_some, modify, mem_map]
  constructor
  · rintro ⟨⟨k₀, w⟩, hmem, heq⟩
    have hl := lookup_eq_some.mpr hmem
    by_cases hk : k₀ = k
    · subst hk
      simp only [if_true, Sigma.mk.injEq, heq_eq_eq] at heq
      obtain ⟨rfl, rfl⟩ := heq
      simp [hl]
    · simp only [hk, if_false, Sigma.mk.injEq, heq_eq_eq] at heq
      obtain ⟨rfl, rfl⟩ := heq
      simp [hk, hl]
  · intro h
    by_cases hk : k' = k
    · subst hk
      simp only [if_true, Option.map_eq_some_iff] at h
      obtain ⟨w, hw, rfl⟩ := h
      exact ⟨⟨k', w⟩, lookup_eq_some.mp hw, by simp⟩
    · simp only [hk, if_false] at h
      exact ⟨⟨k', v⟩, lookup_eq_some.mp h, by simp [hk]⟩

def values (m : HashMap K V) : List V := m.entries.map Sigma.snd

theorem mem_values {v : V} : v ∈ m.values ↔ ∃ k, m.lookup k = some v := by
  simp only [values, mem_map, lookup_eq_some]
  constructor
  · rintro ⟨⟨k, w⟩, hmem, rfl⟩; exact ⟨k, hmem⟩
  · rintro ⟨k, hmem⟩; exact ⟨⟨k, v⟩, hmem, rfl⟩

def retainKeys (m : HashMap K V) (keep : K → Bool) : HashMap K V :=
  ⟨m.entries.filter (fun e => keep e.1),
    m.nodupKeys.sublist List.filter_sublist⟩

theorem lookup_retainKeys (m : HashMap K V) (keep : K → Bool) (k : K) :
    (m.retainKeys keep).lookup k = if keep k then m.lookup k else none := by
  apply Option.ext
  intro v
  rw [lookup_eq_some, retainKeys, mem_filter]
  by_cases hk : keep k <;> simp [hk, lookup_eq_some]

theorem perm_cons_erase {m' : HashMap K V} {k : K} {v : V}
    (h : ∀ k', m'.lookup k' = if k' = k then some v else m.lookup k') :
    m'.entries.Perm (⟨k, v⟩ :: (m.erase k).entries) := by
  have hfresh : (⟨k, v⟩ : Σ _ : K, V) ∉ (m.erase k).entries := by
    rw [← lookup_eq_some, AList.lookup_erase]
    simp
  refine (perm_ext_iff_of_nodup m'.nodupKeys.nodup
    (nodup_cons.mpr ⟨hfresh, (m.erase k).nodupKeys.nodup⟩)).mpr ?_
  rintro ⟨k', w⟩
  rw [mem_cons, ← lookup_eq_some, ← lookup_eq_some, h, lookup_erase_ite]
  by_cases hk : k' = k
  · subst hk
    simp [eq_comm]
  · simp [hk]

def total (w : V → ℕ) (m : HashMap K V) : ℕ := (m.entries.map fun e => w e.2).sum

theorem total_erase (w : V → ℕ) (m : HashMap K V) (k : K) :
    total w (m.erase k) + ((m.lookup k).map w).getD 0 = total w m := by
  cases h : m.lookup k with
  | none =>
    have hsame : (m.erase k).entries = m.entries :=
      kerase_of_notMem_keys (AList.lookup_eq_none.mp h)
    rw [total, hsame]
    rfl
  | some v =>
    have hperm : m.entries.Perm (⟨k, v⟩ :: (m.erase k).entries) := perm_cons_erase fun k' => by
      split
      · subst k'
        exact h
      · rfl
    rw [total, total, (hperm.map fun e => w e.2).sum_eq, map_cons, sum_cons]
    exact Nat.add_comm _ _

theorem total_update (w : V → ℕ) {m' : HashMap K V} {k : K} {v : V}
    (h : ∀ k', m'.lookup k' = if k' = k then some v else m.lookup k') :
    total w m' + ((m.lookup k).map w).getD 0 = total w m + w v := by
  rw [← total_erase w m k, total, ((perm_cons_erase h).map fun e => w e.2).sum_eq, map_cons,
    sum_cons, total]
  dsimp only
  omega

section Grouping

variable {B W X : Type}

end Grouping

section ModifyAll

variable {W : Type}

theorem keys_foldl_modify (g : W → V → V) (updates : List (Σ _ : K, W)) (m : HashMap K V) :
    (updates.foldl (fun m e => m.modify e.1 (g e.2)) m).keys = m.keys := by
  induction updates generalizing m with
  | nil => rfl
  | cons e updates ih => rw [foldl_cons, ih, keys_modify]

theorem lookup_foldl_modify (g : W → V → V) {updates : List (Σ _ : K, W)}
    (hnd : updates.NodupKeys) (m : HashMap K V) (k : K) :
    (updates.foldl (fun m e => m.modify e.1 (g e.2)) m).lookup k = match updates.dlookup k with
      | some w => (m.lookup k).map (g w)
      | none => m.lookup k := by
  induction updates generalizing m with
  | nil => rfl
  | cons e updates ih =>
    obtain ⟨k₀, w⟩ := e
    obtain ⟨hfresh, hrest⟩ := nodupKeys_cons.mp hnd
    rw [foldl_cons, ih hrest, lookup_modify]
    by_cases hk : k = k₀
    · subst hk
      rw [dlookup_eq_none.mpr hfresh, dlookup_cons_eq, if_pos rfl]
    · rw [dlookup_cons_ne _ _ hk, if_neg hk]

theorem lookup_modifyAll (g : W → V → V) (updates : HashMap K W) (m : HashMap K V) (k : K) :
    (updates.entries.foldl (fun m e => m.modify e.1 (g e.2)) m).lookup k =
      match updates.lookup k with
      | some w => (m.lookup k).map (g w)
      | none => m.lookup k :=
  lookup_foldl_modify g updates.nodupKeys m k

end ModifyAll

section RenameKeys

variable {K' : Type} [DecidableEq K']

def renameKeys (f : K → K') (m : HashMap K V) : HashMap K' V :=
  m.entries.foldl (fun renamed e => renamed.insert (f e.1) e.2) ∅

omit [DecidableEq K] in
theorem lookup_foldl_insert {f : K → K'} (hf : Function.Injective f) {es : List (Σ _ : K, V)}
    (hnd : es.NodupKeys) (m : HashMap K' V) (k' : K') (v : V) :
    (es.foldl (fun renamed e => renamed.insert (f e.1) e.2) m).lookup k' = some v ↔
      (∃ e ∈ es, f e.1 = k' ∧ e.2 = v) ∨ (∀ e ∈ es, f e.1 ≠ k') ∧ m.lookup k' = some v := by
  induction es generalizing m with
  | nil => simp
  | cons e es ih =>
    obtain ⟨hfresh, hrest⟩ := nodupKeys_cons.mp hnd
    rw [foldl_cons, ih hrest, lookup_insert_ite]
    by_cases hkey : k' = f e.1
    · subst hkey
      -- no later entry has this key
      have hoth : ∀ e' ∈ es, f e'.1 ≠ f e.1 := by
        intro e' he' hsame
        apply hfresh
        rw [← hf hsame]
        exact mem_map_of_mem he'
      rw [if_pos rfl, Option.some.injEq]
      constructor
      · rintro (⟨e', he', hsame, -⟩ | ⟨-, rfl⟩)
        · exact absurd hsame (hoth e' he')
        · exact Or.inl ⟨e, mem_cons_self, rfl, rfl⟩
      · rintro (⟨e', he', hsame, rfl⟩ | ⟨hnone, -⟩)
        · rcases mem_cons.mp he' with rfl | he'
          · exact Or.inr ⟨hoth, rfl⟩
          · exact absurd hsame (hoth e' he')
        · exact absurd rfl (hnone e mem_cons_self)
    · simp [hkey, Ne.symm hkey]

theorem lookup_renameKeys {f : K → K'} (hf : Function.Injective f) (m : HashMap K V) (k' : K')
    (v : V) : (m.renameKeys f).lookup k' = some v ↔ ∃ k, f k = k' ∧ m.lookup k = some v := by
  rw [renameKeys, lookup_foldl_insert hf m.nodupKeys]
  simp only [AList.lookup_empty, reduceCtorEq, and_false, or_false, lookup_eq_some]
  constructor
  · rintro ⟨⟨k, w⟩, hmem, rfl, rfl⟩
    exact ⟨k, rfl, hmem⟩
  · rintro ⟨k, rfl, hmem⟩
    exact ⟨⟨k, v⟩, hmem, rfl, rfl⟩

end RenameKeys

end HashMap

end OxideMq.Lib
