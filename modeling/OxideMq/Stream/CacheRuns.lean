import OxideMq.Stream.LogCache

/-! The log cache over a run of puts and trims. -/

namespace OxideMq.Stream

open Lib HashMap List Option

inductive LogCacheCall where
  | put (streamId : ℕ) (offset : ℤ) (data : Bytes)
  | trim (streamId : ℕ) (upToOffset : ℤ)
  | reorder (streamId : ℕ)

def LogCacheCall.PutsBelow (bound : ℤ) : LogCacheCall → Prop
  | .put _ offset _ => offset < bound
  | _ => True

namespace LogCache

variable {cache : LogCache} {map : OffsetMap} {sid : ℕ} {off bound : ℤ} {data v : Bytes}

def exec (cache : LogCache) : LogCacheCall → LogCache
  | .put streamId offset data => cache.put streamId offset data
  | .trim streamId upToOffset => cache.trim streamId upToOffset
  | .reorder streamId => cache.reorder streamId

def after (maxBytes : ℕ) (calls : List LogCacheCall) : LogCache := calls.foldl exec (new maxBytes)

theorem after_concat (limit : ℕ) (calls : List LogCacheCall) (call : LogCacheCall) :
    after limit (calls ++ [call]) = (after limit calls).exec call := by
  rw [after, foldl_concat, after]

theorem after_invariant {P : LogCache → Prop} {C : LogCacheCall → Prop} {limit : ℕ}
    (hnew : P (new limit)) (hexec : ∀ cache call, P cache → C call → P (cache.exec call))
    {calls : List LogCacheCall} (hcond : ∀ c ∈ calls, C c) : P (after limit calls) :=
  foldlRecOn calls exec hnew fun cache h call hcall => hexec cache call h (hcond call hcall)

theorem maxBytes_after (limit : ℕ) (calls : List LogCacheCall) :
    (after limit calls).maxBytes = limit := by
  refine after_invariant (P := fun c => c.maxBytes = limit) (C := fun _ => True) rfl
    (fun cache call h _ => ?_) fun _ _ => trivial
  cases call with
  | put sid off data => rw [exec, maxBytes_put, h]
  | trim sid upTo =>
    rw [exec, trim]
    split <;> exact h
  | reorder sid =>
    rw [exec, reorder]
    split <;> exact h

def bytesOf (map : OffsetMap) : ℕ := totalLength map.toList

def cachedBytes (cache : LogCache) : ℕ := total bytesOf cache.streams

theorem nodup_toList (map : OffsetMap) : map.toList.Nodup :=
  Std.TreeMap.ordered_keys_toList.imp fun hlt heq => by simp [heq] at hlt

theorem perm_cons_toList {map' : OffsetMap}
    (h : ∀ o, map'[o]? = if o = off then some v else map[o]?) :
    map'.toList.Perm ((off, v) :: (map.erase off).toList) := by
  have hmem (m : OffsetMap) (x : ℤ × Bytes) : x ∈ m.toList ↔ m[x.1]? = some x.2 :=
    Std.TreeMap.mem_toList_iff_getElem?_eq_some
  refine (perm_ext_iff_of_nodup (nodup_toList _) (nodup_cons.mpr ⟨?_, nodup_toList _⟩)).mpr ?_
  · rw [hmem, getElem?_erase_ite, if_pos rfl]
    simp
  · rintro ⟨o, w⟩
    rw [mem_cons, hmem, hmem, h, getElem?_erase_ite]
    by_cases ho : o = off
    · subst ho
      simp [eq_comm]
    · simp [ho]

theorem bytesOf_erase (map : OffsetMap) (off : ℤ) :
    bytesOf (map.erase off) + ((map[off]?).getD []).length = bytesOf map := by
  cases h : map[off]? with
  | none =>
    have hperm : (map.erase off).toList.Perm map.toList := by
      refine (perm_ext_iff_of_nodup (nodup_toList _) (nodup_toList _)).mpr ?_
      rintro ⟨o, w⟩
      rw [Std.TreeMap.mem_toList_iff_getElem?_eq_some,
        Std.TreeMap.mem_toList_iff_getElem?_eq_some, getElem?_erase_ite]
      split
      · subst o
        rw [h]
      · rfl
    exact (hperm.map fun e => e.2.length).sum_eq
  | some v =>
    have hperm : map.toList.Perm ((off, v) :: (map.erase off).toList) :=
      perm_cons_toList fun o => by
        split
        · subst o
          exact h
        · rfl
    have hsum := (hperm.map fun e => e.2.length).sum_eq
    rw [map_cons, sum_cons] at hsum
    rw [bytesOf, bytesOf, totalLength, totalLength, hsum]
    exact Nat.add_comm _ _

theorem bytesOf_insert (map : OffsetMap) (off : ℤ) (data : Bytes) :
    bytesOf (map.insert off data) + ((map[off]?).getD []).length = bytesOf map + data.length := by
  have hperm := perm_cons_toList fun o => getElem?_insert_ite map off o data
  have hsum := (hperm.map fun e => e.2.length).sum_eq
  rw [map_cons, sum_cons] at hsum
  rw [← bytesOf_erase map off, bytesOf, totalLength, hsum, bytesOf, totalLength]
  dsimp only
  omega

theorem findOldest_cases (es : List (Σ _ : ℕ, OffsetMap)) (oldest : Option ℕ) (bound : ℤ) :
    findOldest es oldest bound = oldest ∧
        (∀ e ∈ es, ∀ x, firstEntry e.2 = some x → bound ≤ x.1) ∨
      ∃ e ∈ es, ∃ x, findOldest es oldest bound = some e.1 ∧ firstEntry e.2 = some x ∧
        x.1 < bound ∧ ∀ e' ∈ es, ∀ y, firstEntry e'.2 = some y → x.1 ≤ y.1 := by
  induction es generalizing oldest bound with
  | nil => exact Or.inl ⟨rfl, forall_mem_nil _⟩
  | cons e es ih =>
    cases hfirst : firstEntry e.2 with
    | none =>
      simp only [findOldest, hfirst, mem_cons, exists_eq_or_imp, forall_eq_or_imp, reduceCtorEq,
        false_implies, implies_true, true_and, false_and, and_false, exists_false, false_or]
      exact ih oldest bound
    | some x =>
      simp only [findOldest, hfirst, forall_mem_cons, some.injEq, forall_eq']
      split
      · rename_i hlt
        obtain ⟨hsame, hlater⟩ | ⟨e', he', y, hfound, hy, hylt, hleast⟩ := ih (some e.1) x.1
        · exact Or.inr ⟨e, mem_cons_self, x, hsame, hfirst, hlt, le_rfl, hlater⟩
        · exact Or.inr ⟨e', mem_cons_of_mem _ he', y, hfound, hy, hylt.trans hlt, hylt.le, hleast⟩
      · rename_i hge
        obtain ⟨hsame, hlater⟩ | ⟨e', he', y, hfound, hy, hylt, hleast⟩ := ih oldest bound
        · exact Or.inl ⟨hsame, not_lt.mp hge, hlater⟩
        · exact Or.inr ⟨e', mem_cons_of_mem _ he', y, hfound, hy, hylt,
            hylt.le.trans (not_lt.mp hge), hleast⟩

theorem exists_firstEntry {s : ℕ} {o : ℤ} (h : cache.get s o = some v) :
    ∃ map x, ⟨s, map⟩ ∈ cache.streams.entries ∧ firstEntry map = some x ∧ x.1 ≤ o := by
  obtain ⟨map, hmap, hget⟩ := bind_eq_some_iff.mp h
  cases hfirst : firstEntry map with
  | none => simp [firstEntry_eq_none hfirst] at hget
  | some x => exact ⟨map, x, lookup_eq_some.mp hmap, hfirst, (firstEntry_eq_some hfirst).2 o v hget⟩

theorem le_of_oldestStream_none (h : oldestStream cache.streams = none) {s : ℕ} {o : ℤ}
    (hget : cache.get s o = some v) : i64Max ≤ o := by
  obtain ⟨map, x, hmem, hfirst, hle⟩ := exists_firstEntry hget
  obtain ⟨-, hlater⟩ | ⟨e, -, y, hfound, -⟩ := findOldest_cases cache.streams.entries none i64Max
  · exact (hlater _ hmem x hfirst).trans hle
  · rw [oldestStream, hfound] at h
    cases h

theorem total_popFirst {w : OffsetMap → ℕ} (hw : ∀ m : OffsetMap, m.isEmpty → w m = 0)
    (hmap : cache.streams.lookup sid = some map) (hfirst : firstEntry map = some (off, v)) :
    total w (cache.popFirst sid).streams + w map =
      total w cache.streams + w (map.erase off) := by
  simp only [popFirst, hmap, hfirst]
  split
  · rename_i hemp
    have herase := total_erase w cache.streams sid
    rw [hmap, map_some, getD_some] at herase
    rw [hw _ hemp, herase]
    rfl
  · have hupd : total w (cache.streams.modify sid fun _ => map.erase off) +
        ((cache.streams.lookup sid).map w).getD 0 = total w cache.streams + w (map.erase off) :=
      total_update w fun s => by rw [lookup_modify, hmap, map_some]
    rw [hmap, map_some, getD_some] at hupd
    exact hupd

theorem popFirst_oldest (h : oldestStream cache.streams = some sid) : ∃ off v,
    cache.get sid off = some v ∧ (∀ s o w, cache.get s o = some w → off ≤ o) ∧
    (∀ s o, (cache.popFirst sid).get s o = if s = sid ∧ o = off then none else cache.get s o) ∧
    (cache.popFirst sid).currentBytes = cache.currentBytes - v.length ∧
    (cache.popFirst sid).cachedBytes + v.length = cache.cachedBytes ∧
    entryCount (cache.popFirst sid).streams < entryCount cache.streams := by
  obtain ⟨hnone, -⟩ | ⟨⟨s, map⟩, hmem, ⟨off, v⟩, hfound, hfirst, -, hleast⟩ :=
    findOldest_cases cache.streams.entries none i64Max
  · rw [oldestStream, hnone] at h
    cases h
  obtain rfl : s = sid := by
    rw [oldestStream, hfound] at h
    exact some.inj h
  have hmap := lookup_eq_some.mpr hmem
  change firstEntry map = some (off, v) at hfirst
  obtain ⟨hget, -⟩ := firstEntry_eq_some hfirst
  refine ⟨off, v, by rw [get, hmap, bind_some, hget], fun s' o w hw => ?_, fun s' o => ?_, ?_, ?_, ?_⟩
  · obtain ⟨map', x, hmem', hx, hle⟩ := exists_firstEntry hw
    exact (hleast _ hmem' x hx).trans hle
  · rw [get_popFirst, hmap, bind_some, hfirst, map_some]
    simp only [some.injEq, eq_comm]
  · simp only [popFirst, hmap, hfirst]
  · have hsum := total_popFirst (w := bytesOf) (fun m hm => ?_) hmap hfirst
    · have herase := bytesOf_erase map off
      rw [hget, getD_some] at herase
      rw [cachedBytes, cachedBytes]
      omega
    · rw [bytesOf, isEmpty_iff.mp (Std.TreeMap.isEmpty_toList.trans hm)]
      rfl
  · have hsum := total_popFirst (w := Std.TreeMap.size) (fun m hm => ?_) hmap hfirst
    · have hsize := size_erase_first hfirst
      rw [total, total] at hsum
      rw [entryCount, entryCount]
      omega
    · rw [← Std.TreeMap.length_toList, isEmpty_iff.mp (Std.TreeMap.isEmpty_toList.trans hm)]
      rfl

structure Accounted (cache : LogCache) : Prop where
  exact : cache.currentBytes = cache.cachedBytes
  below : ∀ s o v, cache.get s o = some v → o < i64Max

theorem Accounted.popFirst (hc : cache.Accounted) (h : oldestStream cache.streams = some sid) :
    (cache.popFirst sid).Accounted := by
  obtain ⟨off, v, -, -, hget, hcur, hsum, -⟩ := popFirst_oldest h
  refine ⟨?_, fun s o w hw => hc.below s o w (get_of_get_popFirst hw)⟩
  have := hc.exact
  omega

theorem Accounted.evict (hc : cache.Accounted) (dataLen fuel : ℕ) :
    (evict dataLen fuel cache).Accounted := by
  induction fuel generalizing cache with
  | zero => exact hc
  | succ fuel ih =>
    rw [LogCache.evict]
    split
    · split
      · rename_i hold
        exact ih (hc.popFirst hold)
      · exact hc
    · exact hc

theorem evict_stops (hc : cache.Accounted) (dataLen : ℕ) {fuel : ℕ}
    (hfuel : entryCount cache.streams < fuel) (more : ℕ) :
    evict dataLen (fuel + more) cache = evict dataLen fuel cache ∧
      ((evict dataLen fuel cache).currentBytes + dataLen ≤ cache.maxBytes ∨
        ∀ s o, (evict dataLen fuel cache).get s o = none) := by
  induction fuel generalizing cache with
  | zero => omega
  | succ fuel ih =>
    rw [Nat.add_right_comm, evict, evict]
    split
    · split
      · rename_i hold
        obtain ⟨-, -, -, -, -, -, -, hcnt⟩ := popFirst_oldest hold
        rw [← maxBytes_popFirst cache]
        exact ih (hc.popFirst hold) (by omega)
      · rename_i hnone
        refine ⟨rfl, Or.inr fun s o => eq_none_iff_forall_ne_some.mpr fun v hv => ?_⟩
        have := le_of_oldestStream_none hnone hv
        have := hc.below s o v hv
        omega
    · rename_i hdone
      refine ⟨rfl, (not_and_or.mp hdone).imp not_lt.mp fun hemp s o => ?_⟩
      rw [get, AList.lookup, not_not.mp hemp]
      rfl

theorem length_le_cachedBytes {s : ℕ} {o : ℤ} (h : cache.get s o = some v) :
    v.length ≤ cache.cachedBytes := by
  obtain ⟨map, hmap, hget⟩ := bind_eq_some_iff.mp h
  have hmem := bytesOf_erase map o
  have hsum := total_erase bytesOf cache.streams s
  rw [hget, getD_some] at hmem
  rw [hmap, map_some, getD_some] at hsum
  rw [cachedBytes]
  omega

theorem Accounted.put (hc : cache.Accounted) (hoff : off < i64Max) :
    (cache.put sid off data).Accounted := by
  have he := hc.evict data.length (entryCount cache.streams + 1)
  refine ⟨?_, fun s o w hw => ?_⟩
  · simp only [LogCache.put, cachedBytes]
    generalize LogCache.evict data.length (entryCount cache.streams + 1) cache = c at he
    have hupd : total bytesOf ((c.streams.entryOrInsert sid ∅).modify sid (·.insert off data)) +
        ((c.streams.lookup sid).map bytesOf).getD 0 = total bytesOf c.streams +
          bytesOf (((c.streams.lookup sid).getD ∅).insert off data) :=
      total_update bytesOf fun s => by
        rw [lookup_modify, lookup_entryOrInsert, lookup_entryOrInsert]
        split
        · rw [if_pos rfl, map_some]
        · rfl
    have hins := bytesOf_insert ((c.streams.lookup sid).getD ∅) off data
    have hold := bytesOf_erase ((c.streams.lookup sid).getD ∅) off
    have hmap : bytesOf ((c.streams.lookup sid).getD ∅) =
        ((c.streams.lookup sid).map bytesOf).getD 0 := by
      cases c.streams.lookup sid with
      | none => rfl
      | some map => rfl
    have hle := total_erase bytesOf c.streams sid
    have hexact := he.exact
    rw [cachedBytes] at hexact
    omega
  · rw [get_put] at hw
    split at hw
    · rename_i hkey
      exact hkey.2 ▸ hoff
    · exact he.below s o w hw

theorem bytesOf_trimMap (upTo : ℤ) (fuel : ℕ) (map : OffsetMap) (cur : ℕ)
    (h : bytesOf map ≤ cur) :
    (trimMap upTo fuel (map, cur)).2 + bytesOf map =
      cur + bytesOf (trimMap upTo fuel (map, cur)).1 := by
  induction fuel generalizing map cur with
  | zero => rfl
  | succ fuel ih =>
    rw [trimMap]
    cases hfirst : firstEntry map with
    | none => rfl
    | some x =>
      have herase := bytesOf_erase map x.1
      rw [(firstEntry_eq_some hfirst).1, getD_some] at herase
      dsimp only
      split
      · have := ih (map.erase x.1) (cur - x.2.length) (by omega)
        omega
      · rfl

theorem trimMap_stops {upTo : ℤ} {fuel cur : ℕ} (hfuel : map.size < fuel) (more : ℕ) :
    trimMap upTo (fuel + more) (map, cur) = trimMap upTo fuel (map, cur) := by
  induction fuel generalizing map cur with
  | zero => omega
  | succ fuel ih =>
    rw [Nat.add_right_comm, trimMap, trimMap]
    cases hfirst : firstEntry map with
    | none => rfl
    | some x =>
      have hsize := size_erase_first hfirst
      dsimp only
      split
      · exact ih (by omega)
      · rfl

theorem Accounted.exec (hc : cache.Accounted) {call : LogCacheCall}
    (hcall : call.PutsBelow i64Max) : (cache.exec call).Accounted := by
  cases call with
  | put sid off data => exact hc.put hcall
  | reorder sid =>
    refine ⟨?_, fun s o w hw => hc.below s o w (get_reorder cache sid s o ▸ hw)⟩
    rw [LogCache.exec, cachedBytes, reorder]
    cases hmap : cache.streams.lookup sid with
    | none => exact hc.exact
    | some map =>
      have hsame := total_update bytesOf fun s => lookup_insert_ite cache.streams sid s map
      rw [hmap, map_some, getD_some] at hsame
      exact hc.exact.trans (Nat.add_right_cancel hsame).symm
  | trim sid upTo =>
    refine ⟨?_, fun s o w hw => ?_⟩
    · rw [LogCache.exec, cachedBytes, trim]
      cases hmap : cache.streams.lookup sid with
      | none => exact hc.exact
      | some map =>
        have hupd : total bytesOf (cache.streams.modify sid fun _ =>
            (trimMap upTo (map.size + 1) (map, cache.currentBytes)).1) +
            ((cache.streams.lookup sid).map bytesOf).getD 0 = total bytesOf cache.streams +
              bytesOf (trimMap upTo (map.size + 1) (map, cache.currentBytes)).1 :=
          total_update bytesOf fun s => by rw [lookup_modify, hmap, map_some]
        have hle := total_erase bytesOf cache.streams sid
        have hexact := hc.exact
        rw [hmap, map_some, getD_some] at hupd hle
        rw [cachedBytes] at hexact
        have htrim := bytesOf_trimMap upTo (map.size + 1) map cache.currentBytes (by omega)
        dsimp only
        omega
    · rw [LogCache.exec, get_trim] at hw
      split at hw
      · cases hw
      · exact hc.below s o w hw

theorem accounted_after {limit : ℕ} {calls : List LogCacheCall}
    (hcalls : ∀ c ∈ calls, c.PutsBelow i64Max) : (after limit calls).Accounted :=
  after_invariant ⟨rfl, fun s o v h => by simp at h⟩ (fun _ _ h hcall => h.exec hcall) hcalls

def Exact (cache : LogCache) : Prop :=
  cache.currentBytes = cache.cachedBytes ∧
    ∀ s o v, cache.get s o = some v → v.length ≤ cache.currentBytes

theorem Accounted.toExact (hc : cache.Accounted) : cache.Exact :=
  ⟨hc.exact, fun _ _ _ hv => hc.exact ▸ length_le_cachedBytes hv⟩

theorem accounting_exact (maxBytes : ℕ) (calls : List LogCacheCall)
    (hcalls : ∀ c ∈ calls, c.PutsBelow i64Max) :
    (after maxBytes calls).Exact ∧
    (∀ streamId map upToOffset more, (after maxBytes calls).streams.lookup streamId = some map →
      trimMap upToOffset (map.size + 1 + more) (map, (after maxBytes calls).currentBytes) =
        trimMap upToOffset (map.size + 1) (map, (after maxBytes calls).currentBytes)) ∧
    ∀ streamId offset (data : Bytes), offset < i64Max →
      (∀ turns, (evict data.length turns (after maxBytes calls)).Exact) ∧
      (∀ more, evict data.length (entryCount (after maxBytes calls).streams + 1 + more)
          (after maxBytes calls) =
        evict data.length (entryCount (after maxBytes calls).streams + 1)
          (after maxBytes calls)) ∧
      (((after maxBytes calls).put streamId offset data).currentBytes ≤ maxBytes ∨
        ∀ s o v, ((after maxBytes calls).put streamId offset data).get s o = some v →
          s = streamId ∧ o = offset) := by
  have hc : (after maxBytes calls).Accounted := accounted_after hcalls
  have hmax : (after maxBytes calls).maxBytes = maxBytes := maxBytes_after maxBytes calls
  refine ⟨hc.toExact, fun _ map upTo more _ => trimMap_stops (Nat.lt_succ_self _) more, ?_⟩
  intro sid off data _
  have hstop := evict_stops hc data.length (Nat.lt_add_one _)
  refine ⟨fun turns => (hc.evict data.length turns).toExact, fun more => (hstop more).1, ?_⟩
  refine (hstop 0).2.imp (fun hfits => ?_) fun hnone s o v hv => ?_
  · rw [hmax] at hfits
    simp only [put]
    omega
  · rw [get_put, hnone] at hv
    split at hv
    · assumption
    · cases hv

theorem accounting_exact_of_overwrite :
    (after 4 [.put 1 0 [1, 2], .put 2 0 [3], .put 1 0 [4]]).Exact ∧
      (((after 4 [.put 1 0 [1, 2], .put 2 0 [3], .put 1 0 [4]]).put 1 1 [5, 6, 7]).currentBytes ≤ 4 ∨
        ∀ s o v, ((after 4 [.put 1 0 [1, 2], .put 2 0 [3], .put 1 0 [4]]).put 1 1 [5, 6, 7]).get s o =
          some v → s = 1 ∧ o = 1) := by
  have h := accounting_exact 4 [.put 1 0 [1, 2], .put 2 0 [3], .put 1 0 [4]]
    (by simp [LogCacheCall.PutsBelow, i64Max])
  exact ⟨h.1, (h.2.2 1 1 [5, 6, 7] (by decide)).2.2⟩

theorem takeContiguous_spec {limit total : ℕ} {expected : ℤ} {es : List (ℤ × Bytes)}
    (hord : es.Pairwise (fun a b => a.1 < b.1)) (hfrom : ∀ e ∈ es, expected ≤ e.1) :
    ConsecutiveFrom expected (takeContiguous limit expected total es) ∧
    (1 < (takeContiguous limit expected total es).length →
      total + totalLength (takeContiguous limit expected total es).dropLast < limit) ∧
    ((∀ e ∈ es, e.1 ≠ expected + (takeContiguous limit expected total es).length) ∨
      limit ≤ total + totalLength (takeContiguous limit expected total es)) := by
  induction es generalizing expected total with
  | nil => exact ⟨trivial, by simp [takeContiguous], Or.inl (forall_mem_nil _)⟩
  | cons x es ih =>
    obtain ⟨hlater, hord'⟩ := pairwise_cons.mp hord
    have hx := hfrom x mem_cons_self
    rw [takeContiguous]
    split
    · rename_i hgap
      refine ⟨trivial, by simp, Or.inl (forall_mem_cons.mpr ⟨by simpa using hgap, fun e he => ?_⟩)⟩
      have := hlater e he
      simp only [length_nil, Nat.cast_zero]
      omega
    · rename_i hexp
      have hkey : x.1 = expected := not_not.mp hexp
      split
      · rename_i hfull
        exact ⟨⟨hkey, trivial⟩, by simp, Or.inr (by simpa [totalLength] using hfull)⟩
      · rename_i hmore
        obtain ⟨hcons, hsum, hstop⟩ := @ih (total + x.2.length) (expected + 1) hord' fun e he => by
          have := hlater e he
          omega
        generalize takeContiguous limit (expected + 1) (total + x.2.length) es = res at *
        refine ⟨⟨hkey, hcons⟩, fun _ => ?_, ?_⟩
        · cases res with
          | nil => simp at *
          | cons y res =>
            simp only [dropLast_cons_cons, totalLength, map_cons, sum_cons]
            cases res with
            | nil => simpa using hmore
            | cons z res =>
              have := hsum (by simp)
              simp only [totalLength] at this
              omega
        · simp only [forall_mem_cons, length_cons, Nat.cast_succ, totalLength, map_cons, sum_cons]
          refine hstop.imp (fun hnone => ⟨by omega, fun e he => ?_⟩) fun hfull => ?_
          · have := hnone e he
            omega
          · rw [totalLength] at hfull
            omega

theorem exists_last_of_consecutiveFrom {es : List (ℤ × Bytes)} (h : ConsecutiveFrom off es)
    (hne : es ≠ []) : ∃ e ∈ es, e.1 + 1 = off + es.length := by
  induction es generalizing off with
  | nil => exact absurd rfl hne
  | cons x es ih =>
    obtain ⟨hx, hes⟩ := h
    by_cases hnil : es = []
    · subst hnil
      exact ⟨x, mem_cons_self, by simp [hx]⟩
    · obtain ⟨e, he, hlast⟩ := ih hes hnil
      exact ⟨e, mem_cons_of_mem _ he, by rw [hlast, length_cons, Nat.cast_succ]; omega⟩

end LogCache

namespace LogCacheCall

def key : LogCacheCall → Option (ℕ × ℤ)
  | .put streamId offset _ => some (streamId, offset)
  | _ => none

def putAt (streamId : ℕ) (offset : ℤ) : LogCacheCall → Option Bytes
  | .put s o data => if s = streamId ∧ o = offset then some data else none
  | _ => none

end LogCacheCall

namespace LogCache

variable {cache : LogCache} {limit s sid : ℕ} {o off : ℤ} {v data : Bytes}
  {calls : List LogCacheCall}

def lastPut (calls : List LogCacheCall) (streamId : ℕ) (offset : ℤ) : Option Bytes :=
  calls.reverse.findSome? (·.putAt streamId offset)

theorem get_of_get_exec {call : LogCacheCall} (h : (cache.exec call).get s o = some v) :
    call.putAt s o = some v ∨ call.putAt s o = none ∧ cache.get s o = some v := by
  cases call with
  | put sid off data =>
    rw [exec, get_put] at h
    simp only [LogCacheCall.putAt, @eq_comm _ sid, @eq_comm _ off]
    split at h
    · rename_i hkey
      exact Or.inl ((if_pos hkey).trans h)
    · rename_i hkey
      exact Or.inr ⟨if_neg hkey, get_of_get_evict h⟩
  | trim sid upTo =>
    rw [exec, get_trim] at h
    split at h
    · cases h
    · exact Or.inr ⟨rfl, h⟩
  | reorder sid => exact Or.inr ⟨rfl, get_reorder cache sid s o ▸ h⟩

theorem lastPut_of_get (h : (after limit calls).get s o = some v) :
    lastPut calls s o = some v := by
  induction calls using reverseRecOn with
  | nil => simp [after] at h
  | append_singleton calls call ih =>
    rw [after_concat] at h
    rw [lastPut, reverse_concat, findSome?_cons]
    rcases get_of_get_exec h with hput | ⟨hnone, hbef⟩
    · rw [hput]
    · rw [hnone]
      exact ih hbef

theorem exists_put_of_get (h : (after limit calls).get s o = some v) :
    ∃ call ∈ calls, call.putAt s o = some v := by
  obtain ⟨call, hcall, hput⟩ := exists_of_findSome?_eq_some (lastPut_of_get h)
  exact ⟨call, mem_reverse.mp hcall, hput⟩

theorem readRange_exact (maxBytes : ℕ) (calls : List LogCacheCall)
    (hcalls : ∀ c ∈ calls, c.PutsBelow (i64Max - 1)) (streamId : ℕ) (startOffset : ℤ)
    (limit : ℕ) :
    (((after maxBytes calls).readRange streamId startOffset limit).isSome ↔
      ((after maxBytes calls).get streamId startOffset).isSome) ∧
    ∀ result, (after maxBytes calls).readRange streamId startOffset limit = some result →
      ConsecutiveFrom startOffset result ∧ startOffset + result.length + 1 ≤ i64Max ∧
      (∀ e ∈ result, lastPut calls streamId e.1 = some e.2) ∧
      (1 < result.length → totalLength result.dropLast < limit) ∧
      ((after maxBytes calls).get streamId (startOffset + result.length) = none ∨
        limit ≤ totalLength result) := by
  constructor
  · rw [← not_iff_not, Option.not_isSome_iff_eq_none, Option.not_isSome_iff_eq_none]
    exact readRange_eq_none
  intro res hres
  obtain ⟨⟨payload, rest, -, hne⟩, hread⟩ := readRange_eq_some hres
  obtain ⟨es, hord, hmem, rfl⟩ := readRange_loop hres
  obtain ⟨hcons, hsum, hstop⟩ := takeContiguous_spec hord fun e he => ((hmem e).mp he).2
  refine ⟨hcons, ?_, fun e he => lastPut_of_get (hread e he).2, by simpa using hsum, ?_⟩
  · obtain ⟨e, he, hlast⟩ := exists_last_of_consecutiveFrom hcons (by simp [hne])
    obtain ⟨call, hcall, hput⟩ := exists_put_of_get (hread e he).2
    have hlt := hcalls call hcall
    cases call with
    | put sid off data =>
      simp only [LogCacheCall.putAt, ite_none_right_eq_some] at hput
      rw [LogCacheCall.PutsBelow, hput.1.2] at hlt
      omega
    | _ => simp [LogCacheCall.putAt] at hput
  · refine hstop.imp (fun hnone => eq_none_iff_forall_ne_some.mpr fun v hv => ?_) (by simp)
    exact hnone (_, v) ((hmem _).mpr ⟨hv, by omega⟩) rfl

theorem readRange_exact_of_gap :
    (after 8 [.put 1 0 [1], .put 1 1 [2, 3], .put 1 3 [4]]).readRange 1 0 8 =
        some [(0, [1]), (1, [2, 3])] ∧
      ((after 8 [.put 1 0 [1], .put 1 1 [2, 3], .put 1 3 [4]]).get 1 2 = none ∨ 8 ≤ 3) := by
  have hread : (after 8 [.put 1 0 [1], .put 1 1 [2, 3], .put 1 3 [4]]).readRange 1 0 8 =
      some [(0, [1]), (1, [2, 3])] := by decide +kernel
  exact ⟨hread, ((readRange_exact 8 [.put 1 0 [1], .put 1 1 [2, 3], .put 1 3 [4]]
    (by simp [LogCacheCall.PutsBelow, i64Max]) 1 0 8).2 _ hread).2.2.2.2⟩

theorem evict_order {dataLen fuel s' : ℕ} {o' : ℤ} {w : Bytes} (h : cache.get s o = some v)
    (hgone : (evict dataLen fuel cache).get s o = none)
    (hstay : (evict dataLen fuel cache).get s' o' = some w) : o ≤ o' := by
  induction fuel generalizing cache with
  | zero => exact absurd (h.symm.trans hgone) (some_ne_none v)
  | succ fuel ih =>
    have hthere := get_of_get_evict hstay
    rw [evict] at hgone hstay
    split at hgone
    · rename_i hfull
      rw [if_pos hfull] at hstay
      split at hgone
      · rename_i sid hold
        obtain ⟨off, -, -, hleast, hget, -⟩ := popFirst_oldest hold
        simp only [hold] at hstay
        by_cases hpop : s = sid ∧ o = off
        · exact hpop.2 ▸ hleast s' o' w hthere
        · exact ih ((hget s o).trans (if_neg hpop) ▸ h) hgone hstay
      · exact absurd (h.symm.trans hgone) (some_ne_none v)
    · exact absurd (h.symm.trans hgone) (some_ne_none v)

def keysPut (calls : List LogCacheCall) : List (ℕ × ℤ) := calls.filterMap LogCacheCall.key

def OldestFirst (maxBytes : ℕ) (calls : List LogCacheCall) (streamId : ℕ) (offset : ℤ)
    (data : Bytes) : Prop :=
  ∀ s o s' o', ((after maxBytes calls).get s o).isSome →
    (after maxBytes (calls ++ [.put streamId offset data])).get s o = none →
    ((after maxBytes (calls ++ [.put streamId offset data])).get s' o').isSome →
    [(s, o), (s', o')] <+ keysPut (calls ++ [.put streamId offset data])

theorem mem_keysPut_of_get (h : (after limit calls).get s o = some v) :
    (s, o) ∈ keysPut calls := by
  obtain ⟨call, hcall, hput⟩ := exists_put_of_get h
  refine mem_filterMap.mpr ⟨call, hcall, ?_⟩
  cases call with
  | put sid off data =>
    simp only [LogCacheCall.putAt, ite_none_right_eq_some] at hput
    rw [LogCacheCall.key, hput.1.1, hput.1.2]
  | _ => simp [LogCacheCall.putAt] at hput

theorem pair_sublist_of_increasing {a b : ℕ × ℤ} {keys : List (ℕ × ℤ)}
    (hinc : keys.Pairwise fun a b => a.2 < b.2) (ha : a ∈ keys) (hb : b ∈ keys) (hne : a ≠ b)
    (hle : a.2 ≤ b.2) : [a, b] <+ keys := by
  induction keys with
  | nil => simp at ha
  | cons x keys ih =>
    obtain ⟨hx, hinc'⟩ := pairwise_cons.mp hinc
    rcases mem_cons.mp ha with rfl | ha'
    · exact (singleton_sublist.mpr (mem_of_ne_of_mem hne.symm hb)).cons_cons _
    · rcases mem_cons.mp hb with rfl | hb'
      · exact absurd (hx a ha') hle.not_gt
      · exact (ih hinc' ha' hb').cons _

theorem evicts_oldest_first (maxBytes : ℕ) (calls : List LogCacheCall) (streamId : ℕ)
    (offset : ℤ) (data : Bytes)
    (hincreasing : (keysPut (calls ++ [.put streamId offset data])).Pairwise
      fun a b => a.2 < b.2) :
    OldestFirst maxBytes calls streamId offset data := by
  intro s o s' o' hbef hgone hstay
  obtain ⟨v, hv⟩ := isSome_iff_exists.mp hbef
  obtain ⟨w, hw⟩ := isSome_iff_exists.mp hstay
  have hold := mem_keysPut_of_get hv
  have hnew := mem_keysPut_of_get hw
  have hne : (s, o) ≠ (s', o') := by
    rintro ⟨⟩
    exact absurd (hw.symm.trans hgone) (some_ne_none w)
  rw [after_concat, exec, get_put] at hgone hw
  rw [keysPut, filterMap_append] at hincreasing hnew ⊢
  refine pair_sublist_of_increasing hincreasing (mem_append_left _ hold) hnew hne ?_
  split at hgone
  · cases hgone
  split at hw
  · -- the new entry has the largest offset
    rename_i hkey
    rw [hkey.2]
    exact ((pairwise_append.mp hincreasing).2.2 (s, o) hold (streamId, offset)
      (by simp [LogCacheCall.key])).le
  · exact evict_order hv hgone hw

theorem evicts_oldest_first_of_two_streams :
    (after 2 ([.put 1 0 [1], .put 2 1 [2]] ++ [.put 1 2 [3]])).get 1 0 = none ∧
      [((1 : ℕ), (0 : ℤ)), (2, 1)] <+ keysPut ([.put 1 0 [1], .put 2 1 [2]] ++ [.put 1 2 [3]]) :=
  ⟨by decide +kernel, evicts_oldest_first 2 [.put 1 0 [1], .put 2 1 [2]] 1 2 [3]
    (by simp [keysPut, LogCacheCall.key]) 1 0 2 1 (by decide +kernel) (by decide +kernel)
    (by decide +kernel)⟩

theorem evicts_newer_first : (keysPut ([.put 1 100 [1], .put 2 0 [2]] ++ [.put 1 101 [3]])).Nodup ∧
    ¬OldestFirst 2 [.put 1 100 [1], .put 2 0 [2]] 1 101 [3] := by
  refine ⟨by decide, fun h => ?_⟩
  have hsub := h 2 0 1 100 (by decide +kernel) (by decide +kernel) (by decide +kernel)
  revert hsub
  decide

end LogCache

end OxideMq.Stream
