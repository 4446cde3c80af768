import OxideMq.Lib.HashMap

/-! The in-memory cache of recent batches, shared by all streams. -/

namespace OxideMq.Stream

open Lib HashMap List Option

/-- `BTreeMap<i64, Bytes>`. -/
abbrev OffsetMap := Std.TreeMap ℤ Bytes

def i64Max : ℤ := 2 ^ 63 - 1

structure LogCache where
  maxBytes : ℕ
  currentBytes : ℕ
  streams : HashMap ℕ OffsetMap

namespace LogCache

variable {cache : LogCache} {maxBytes streamId : ℕ} {map : OffsetMap} {v : Bytes} {e : ℤ × Bytes}
  {entries : List (ℤ × Bytes)}

def new (maxBytes : ℕ) : LogCache := ⟨maxBytes, 0, ∅⟩

def firstEntry (map : OffsetMap) : Option (ℤ × Bytes) := map.toList.head?

def findOldest : List (Σ _ : ℕ, OffsetMap) → Option ℕ → ℤ → Option ℕ
  | [], oldestStream, _ => oldestStream
  | ⟨streamId, map⟩ :: rest, oldestStream, oldestOffset =>
      match firstEntry map with
      | some (firstOff, _) =>
          if firstOff < oldestOffset then findOldest rest (some streamId) firstOff
          else findOldest rest oldestStream oldestOffset
      | none => findOldest rest oldestStream oldestOffset

def oldestStream (streams : HashMap ℕ OffsetMap) : Option ℕ :=
  findOldest streams.entries none i64Max

/-- `pop_first` on one stream, dropping the stream when nothing is left of it. -/
def popFirst (cache : LogCache) (streamId : ℕ) : LogCache :=
  match cache.streams.lookup streamId with
  | none => cache
  | some map =>
      match firstEntry map with
      | none => { cache with streams := cache.streams.erase streamId }
      | some (firstOff, evicted) =>
          let map' := map.erase firstOff
          { cache with
            currentBytes := cache.currentBytes - evicted.length
            streams := if map'.isEmpty then cache.streams.erase streamId
              else cache.streams.modify streamId fun _ => map' }

def evict (dataLen : ℕ) : ℕ → LogCache → LogCache
  | 0, cache => cache
  | fuel + 1, cache =>
      if cache.currentBytes + dataLen > cache.maxBytes ∧ cache.streams.entries ≠ [] then
        match oldestStream cache.streams with
        | some streamId => evict dataLen fuel (cache.popFirst streamId)
        | none => cache
      else cache

def entryCount (streams : HashMap ℕ OffsetMap) : ℕ :=
  (streams.entries.map fun e => e.2.size).sum

def put (cache : LogCache) (streamId : ℕ) (offset : ℤ) (data : Bytes) : LogCache :=
  let cache' := evict data.length (entryCount cache.streams + 1) cache
  let map := (cache'.streams.lookup streamId).getD ∅
  let old := ((map[offset]?).getD []).length
  { cache' with
    currentBytes := cache'.currentBytes - old + data.length
    streams := (cache'.streams.entryOrInsert streamId ∅).modify streamId
      (·.insert offset data) }

/-- The loop of `read_range`: consecutive offsets from `expected` on, until `maxBytes` are
collected. -/
def takeContiguous (maxBytes : ℕ) : ℤ → ℕ → List (ℤ × Bytes) → List (ℤ × Bytes)
  | _, _, [] => []
  | expected, totalBytes, (off, payload) :: rest =>
      if off ≠ expected then []
      else if totalBytes + payload.length ≥ maxBytes then [(off, payload)]
      else (off, payload) ::
        takeContiguous maxBytes (expected + 1) (totalBytes + payload.length) rest

def readRange (cache : LogCache) (streamId : ℕ) (startOffset : ℤ) (maxBytes : ℕ) :
    Option (List (ℤ × Bytes)) :=
  match cache.streams.lookup streamId with
  | none => none
  | some map =>
      if map.contains startOffset then
        let result := takeContiguous maxBytes startOffset 0
          (map.toList.filter fun e => startOffset ≤ e.1)
        if result.isEmpty then none else some result
      else none

def trimMap (upToOffset : ℤ) : ℕ → OffsetMap × ℕ → OffsetMap × ℕ
  | 0, state => state
  | fuel + 1, (map, currentBytes) =>
      match firstEntry map with
      | some (firstOff, evicted) =>
          if firstOff < upToOffset then
            trimMap upToOffset fuel (map.erase firstOff, currentBytes - evicted.length)
          else (map, currentBytes)
      | none => (map, currentBytes)

def trim (cache : LogCache) (streamId : ℕ) (upToOffset : ℤ) : LogCache :=
  match cache.streams.lookup streamId with
  | none => cache
  | some map =>
      let (map', currentBytes) := trimMap upToOffset (map.size + 1) (map, cache.currentBytes)
      { cache with
        currentBytes := currentBytes
        streams := cache.streams.modify streamId fun _ => map' }

def reorder (cache : LogCache) (streamId : ℕ) : LogCache :=
  match cache.streams.lookup streamId with
  | none => cache
  | some map => { cache with streams := cache.streams.insert streamId map }

def get (cache : LogCache) (streamId : ℕ) (offset : ℤ) : Option Bytes :=
  (cache.streams.lookup streamId).bind fun map => map[offset]?

theorem getElem?_insert_ite (map : OffsetMap) (k o : ℤ) (v : Bytes) :
    (map.insert k v)[o]? = if o = k then some v else map[o]? := by
  rw [Std.TreeMap.getElem?_insert]
  simp only [Int.compare_eq_eq, @eq_comm _ k o]

theorem getElem?_erase_ite (map : OffsetMap) (k o : ℤ) :
    (map.erase k)[o]? = if o = k then none else map[o]? := by
  rw [Std.TreeMap.getElem?_erase]
  simp only [Int.compare_eq_eq, @eq_comm _ k o]

theorem firstEntry_eq_some {k : ℤ} (h : firstEntry map = some (k, v)) :
    map[k]? = some v ∧ ∀ o w, map[o]? = some w → k ≤ o := by
  obtain ⟨rest, hlist⟩ := head?_eq_some_iff.mp h
  refine ⟨Std.TreeMap.mem_toList_iff_getElem?_eq_some.mp (hlist ▸ mem_cons_self), ?_⟩
  intro o w how
  have hmem := Std.TreeMap.mem_toList_iff_getElem?_eq_some.mpr how
  have hordered := Std.TreeMap.ordered_keys_toList (t := map)
  rw [hlist] at hmem hordered
  rcases mem_cons.mp hmem with heq | hmem
  · exact le_of_eq (congrArg Prod.fst heq).symm
  · have hlt := (pairwise_cons.mp hordered).1 _ hmem
    exact le_of_lt (Int.compare_eq_lt.mp hlt)

theorem firstEntry_eq_none (h : firstEntry map = none) (o : ℤ) : map[o]? = none := by
  rw [firstEntry, head?_eq_none_iff] at h
  cases hget : map[o]? with
  | none => rfl
  | some v =>
    have hmem := Std.TreeMap.mem_toList_iff_getElem?_eq_some.mpr hget
    simp [h] at hmem

theorem getElem?_of_isEmpty (h : map.isEmpty) (o : ℤ) : map[o]? = none := by
  refine firstEntry_eq_none ?_ o
  rw [firstEntry, List.head?_eq_none_iff, ← List.isEmpty_iff, Std.TreeMap.isEmpty_toList]
  exact h

theorem size_erase_first {k : ℤ} (h : firstEntry map = some (k, v)) :
    (map.erase k).size < map.size := by
  have hmem : map.contains k := by
    rw [Std.TreeMap.contains_eq_isSome_getElem?, (firstEntry_eq_some h).1]
    rfl
  have hpos : 0 < map.size := by
    rw [← Std.TreeMap.length_toList]
    exact length_pos_of_mem (mem_of_mem_head? h)
  rw [Std.TreeMap.size_erase, if_pos hmem]
  omega

@[simp] theorem get_new (limit sid : ℕ) (off : ℤ) : (new limit).get sid off = none := rfl

theorem get_popFirst (cache : LogCache) (sid s : ℕ) (o : ℤ) : (cache.popFirst sid).get s o =
      if s = sid ∧ ((cache.streams.lookup sid).bind firstEntry).map Prod.fst = some o
      then none else cache.get s o := by
  unfold popFirst
  cases hmap : cache.streams.lookup sid with
  | none => simp
  | some map =>
    cases hfirst : firstEntry map with
    | none =>
      simp only [get, lookup_erase_ite, bind_some, hfirst, map_none,
        reduceCtorEq, and_false, if_false]
      by_cases hs : s = sid
      · subst hs
        rw [if_pos rfl, hmap, bind_none, bind_some, firstEntry_eq_none hfirst]
      · rw [if_neg hs]
    | some entry =>
      obtain ⟨firstOff, evicted⟩ := entry
      simp only [bind_some, hfirst, map_some, some.injEq]
      by_cases hs : s = sid
      · subst hs
        have hget : cache.get s o = map[o]? := by rw [get, hmap, bind_some]
        split
        · rename_i hemp
          have herase := getElem?_of_isEmpty hemp o
          rw [getElem?_erase_ite] at herase
          rw [get, lookup_erase_ite, if_pos rfl, bind_none, hget]
          split
          · rfl
          · rename_i hne
            rw [if_neg (fun h => hne ⟨rfl, h.symm⟩)] at herase
            exact herase.symm
        · rw [get, lookup_modify, if_pos rfl, hmap, map_some, bind_some, getElem?_erase_ite, hget]
          simp [eq_comm]
      · simp only [hs, false_and, if_false]
        split
        · rw [get, lookup_erase_ite, if_neg hs, get]
        · rw [get, lookup_modify, if_neg hs, get]

theorem get_of_get_popFirst {s : ℕ} {o : ℤ} (h : (cache.popFirst streamId).get s o = some v) :
    cache.get s o = some v := by
  rw [get_popFirst] at h
  split at h
  · simp at h
  · exact h

theorem get_of_get_evict {dataLen fuel : ℕ} {s : ℕ} {o : ℤ}
    (h : (evict dataLen fuel cache).get s o = some v) : cache.get s o = some v := by
  induction fuel generalizing cache with
  | zero => exact h
  | succ fuel ih =>
    rw [evict] at h
    split at h
    · split at h
      · exact get_of_get_popFirst (ih h)
      · exact h
    · exact h

theorem evict_of_fits {dataLen fuel : ℕ} (h : cache.currentBytes + dataLen ≤ cache.maxBytes) :
    evict dataLen fuel cache = cache := by
  cases fuel with
  | zero => rfl
  | succ fuel => rw [evict, if_neg (fun hfull => absurd hfull.1 (by omega))]

theorem get_put (cache : LogCache) (sid : ℕ) (off : ℤ) (data : Bytes) (s : ℕ) (o : ℤ) :
    (cache.put sid off data).get s o = if s = sid ∧ o = off then some data
      else (evict data.length (entryCount cache.streams + 1) cache).get s o := by
  simp only [put, get, lookup_modify, lookup_entryOrInsert, if_true]
  by_cases hs : s = sid
  · subst hs
    simp only [if_true, map_some, bind_some, getElem?_insert_ite, true_and]
    split
    · rfl
    · cases (evict data.length (entryCount cache.streams + 1) cache).streams.lookup s with
      | none => simp
      | some map => simp
  · simp [hs]

theorem get_put_self (cache : LogCache) (sid : ℕ) (off : ℤ) (data : Bytes) :
    (cache.put sid off data).get sid off = some data := by
  rw [get_put, if_pos ⟨rfl, rfl⟩]

theorem get_of_get_put {off : ℤ} {data : Bytes} {s : ℕ} {o : ℤ}
    (h : (cache.put streamId off data).get s o = some v) :
    s = streamId ∧ o = off ∧ v = data ∨ cache.get s o = some v := by
  rw [get_put] at h
  split at h
  · rename_i heq
    exact Or.inl ⟨heq.1, heq.2, (some.inj h).symm⟩
  · exact Or.inr (get_of_get_evict h)

theorem get_put_of_fits {data : Bytes} (h : cache.currentBytes + data.length ≤ cache.maxBytes)
    (sid : ℕ) (off : ℤ) (s : ℕ) (o : ℤ) :
    (cache.put sid off data).get s o = if s = sid ∧ o = off then some data else cache.get s o := by
  rw [get_put, evict_of_fits h]

theorem currentBytes_put_of_fits {data : Bytes}
    (h : cache.currentBytes + data.length ≤ cache.maxBytes) (sid : ℕ) (off : ℤ) :
    (cache.put sid off data).currentBytes ≤ cache.currentBytes + data.length := by
  simp only [put, evict_of_fits h]
  omega

theorem maxBytes_popFirst (cache : LogCache) (sid : ℕ) :
    (cache.popFirst sid).maxBytes = cache.maxBytes := by
  unfold popFirst
  split
  · rfl
  · dsimp only
    split <;> rfl

theorem maxBytes_evict (dataLen fuel : ℕ) (cache : LogCache) :
    (evict dataLen fuel cache).maxBytes = cache.maxBytes := by
  induction fuel generalizing cache with
  | zero => rfl
  | succ fuel ih =>
    rw [evict]
    split
    · split
      · rw [ih, maxBytes_popFirst]
      · rfl
    · rfl

@[simp] theorem maxBytes_put (cache : LogCache) (sid : ℕ) (off : ℤ) (data : Bytes) :
    (cache.put sid off data).maxBytes = cache.maxBytes :=
  maxBytes_evict _ _ _

theorem getElem?_trimMap {upToOffset : ℤ} {fuel : ℕ} {currentBytes : ℕ} (hfuel : map.size < fuel)
    (o : ℤ) :
    (trimMap upToOffset fuel (map, currentBytes)).1[o]? =
      if o < upToOffset then none else map[o]? := by
  induction fuel generalizing map currentBytes with
  | zero => omega
  | succ fuel ih =>
    rw [trimMap]
    cases hfirst : firstEntry map with
    | none =>
      rw [firstEntry_eq_none hfirst]
      simp
    | some entry =>
      obtain ⟨firstOff, evicted⟩ := entry
      obtain ⟨-, hleast⟩ := firstEntry_eq_some hfirst
      dsimp only
      by_cases hlt : firstOff < upToOffset
      · have hsize := size_erase_first hfirst
        rw [if_pos hlt, ih (by omega), getElem?_erase_ite]
        by_cases ho : o = firstOff
        · subst ho
          simp [hlt]
        · rw [if_neg ho]
      · rw [if_neg hlt]
        split
        · rename_i ho
          cases hoth : map[o]? with
          | none => rfl
          | some w =>
            have := hleast o w hoth
            omega
        · rfl

theorem get_trim (cache : LogCache) (sid : ℕ) (upToOffset : ℤ) (s : ℕ) (o : ℤ) :
    (cache.trim sid upToOffset).get s o =
      if s = sid ∧ o < upToOffset then none else cache.get s o := by
  unfold trim
  cases hmap : cache.streams.lookup sid with
  | none =>
    dsimp only
    split
    · rename_i h
      rw [get, h.1, hmap, bind_none]
    · rfl
  | some map =>
    rw [get, lookup_modify]
    by_cases hs : s = sid
    · subst hs
      simp only [if_true, hmap, map_some, bind_some, true_and, get,
        getElem?_trimMap (Nat.lt_succ_self _)]
    · simp [hs, get]

@[simp] theorem get_reorder (cache : LogCache) (sid s : ℕ) (o : ℤ) :
    (cache.reorder sid).get s o = cache.get s o := by
  unfold reorder
  cases hmap : cache.streams.lookup sid with
  | none => rfl
  | some map =>
    rw [get, lookup_insert_ite, get]
    by_cases hs : s = sid
    · rw [if_pos hs, hs, hmap]
    · rw [if_neg hs]

theorem mem_takeContiguous {total : ℕ} {expected : ℤ}
    (h : e ∈ takeContiguous maxBytes expected total entries) :
    e ∈ entries := by
  induction entries generalizing expected total with
  | nil => simp [takeContiguous] at h
  | cons entry rest ih =>
    rw [takeContiguous] at h
    split at h
    · simp at h
    · split at h
      · rw [mem_singleton.mp h]
        exact mem_cons_self
      · rcases mem_cons.mp h with rfl | h
        · exact mem_cons_self
        · exact mem_cons_of_mem _ (ih h)

theorem takeContiguous_head (limit : ℕ) (start : ℤ) (payload : Bytes) (rest : List (ℤ × Bytes)) :
    ∃ tail, takeContiguous limit start 0 ((start, payload) :: rest) = (start, payload) :: tail := by
  rw [takeContiguous, if_neg (not_not.mpr rfl)]
  split
  · exact ⟨[], rfl⟩
  · exact ⟨_, rfl⟩

theorem filter_from_start {start : ℤ} {payload : Bytes} (h : map[start]? = some payload) :
    ∃ rest, map.toList.filter (fun e => start ≤ e.1) = (start, payload) :: rest := by
  have hmem := Std.TreeMap.mem_toList_iff_getElem?_eq_some.mpr h
  have hordered := Std.TreeMap.ordered_keys_toList (t := map)
  obtain ⟨front, rest, hlist⟩ := append_of_mem hmem
  rw [hlist] at hordered ⊢
  have hfront : front.filter (fun e => start ≤ e.1) = [] := by
    refine filter_eq_nil_iff.mpr fun e he => ?_
    have hlt := (pairwise_append.mp hordered).2.2 e he (start, payload) mem_cons_self
    have := Int.compare_eq_lt.mp hlt
    simp only [decide_eq_true_eq]
    omega
  exact ⟨rest.filter (fun e => start ≤ e.1), by simp [filter_append, hfront]⟩

theorem readRange_eq_none {start : ℤ} :
    cache.readRange streamId start maxBytes = none ↔ cache.get streamId start = none := by
  unfold readRange get
  cases cache.streams.lookup streamId with
  | none => simp
  | some map =>
    simp only [bind_some, Std.TreeMap.contains_eq_isSome_getElem?]
    cases hget : map[start]? with
    | none => simp
    | some payload =>
      obtain ⟨rest, hfilter⟩ := filter_from_start hget
      obtain ⟨tail, hhead⟩ := takeContiguous_head maxBytes start payload rest
      simp [hfilter, hhead]

theorem readRange_loop {start : ℤ} {res : List (ℤ × Bytes)}
    (h : cache.readRange streamId start maxBytes = some res) :
    ∃ es : List (ℤ × Bytes), es.Pairwise (fun a b => a.1 < b.1) ∧
      (∀ x, x ∈ es ↔ cache.get streamId x.1 = some x.2 ∧ start ≤ x.1) ∧
      takeContiguous maxBytes start 0 es = res := by
  unfold readRange at h
  cases hmap : cache.streams.lookup streamId with
  | none => simp [hmap] at h
  | some map =>
    refine ⟨map.toList.filter fun e => start ≤ e.1,
      (Std.TreeMap.ordered_keys_toList.imp Int.compare_eq_lt.mp).filter _, fun x => ?_, ?_⟩
    · rw [mem_filter, decide_eq_true_eq, get, hmap, bind_some]
      exact and_congr_left' Std.TreeMap.mem_toList_iff_getElem?_eq_some
    · rw [hmap] at h
      dsimp only at h
      split at h
      · split at h
        · simp at h
        · exact some.inj h
      · simp at h

theorem readRange_eq_some {start : ℤ} {res : List (ℤ × Bytes)}
    (h : cache.readRange streamId start maxBytes = some res) :
    (∃ payload rest, cache.get streamId start = some payload ∧ res = (start, payload) :: rest) ∧
    ∀ e ∈ res, start ≤ e.1 ∧ cache.get streamId e.1 = some e.2 := by
  unfold readRange at h
  unfold get
  cases hmap : cache.streams.lookup streamId with
  | none => simp [hmap] at h
  | some map =>
    simp only [hmap, Std.TreeMap.contains_eq_isSome_getElem?] at h
    cases hget : map[start]? with
    | none => simp [hget] at h
    | some payload =>
      obtain ⟨rest, hfilter⟩ := filter_from_start hget
      obtain ⟨tail, hhead⟩ := takeContiguous_head maxBytes start payload rest
      simp only [hget, hfilter, hhead, isSome_some, if_true, isEmpty_cons,
        Bool.false_eq_true, if_false, some.injEq] at h
      subst h
      refine ⟨⟨payload, tail, by simp [hget], rfl⟩, ?_⟩
      intro e he
      rw [← hhead, ← hfilter] at he
      obtain ⟨hmem, hle⟩ := mem_filter.mp (mem_takeContiguous he)
      exact ⟨by simpa using hle, by simpa using Std.TreeMap.mem_toList_iff_getElem?_eq_some.mp hmem⟩

def ConsecutiveFrom : ℤ → List (ℤ × Bytes) → Prop
  | _, [] => True
  | offset, e :: es => e.1 = offset ∧ ConsecutiveFrom (offset + 1) es

def totalLength (entries : List (ℤ × Bytes)) : ℕ := (entries.map fun e => e.2.length).sum

theorem le_of_consecutiveFrom {off : ℤ} (h : ConsecutiveFrom off entries) (he : e ∈ entries) :
    off ≤ e.1 := by
  induction entries generalizing off with
  | nil => simp at he
  | cons head rest ih =>
    rcases mem_cons.mp he with rfl | hrest
    · exact h.1.ge
    · have := ih h.2 hrest
      omega

def Window (maxBytes : ℕ) (expected : ℤ) (totalBytes : ℕ) (entries : List (ℤ × Bytes))
    (e : ℤ × Bytes) : Prop :=
  e ∈ entries ∧ ∃ front, (∀ x ∈ front, x ∈ entries) ∧ ConsecutiveFrom expected front ∧
    e.1 = expected + front.length ∧ totalBytes + totalLength front < maxBytes

section

variable {maxBytes totalBytes : ℕ} {expected : ℤ} {head e : ℤ × Bytes} {rest : List (ℤ × Bytes)}
  (hordered : (head :: rest).Pairwise (fun a b => a.1 < b.1))

include hordered

theorem eq_head_of_ordered (he : e ∈ head :: rest) (hle : e.1 ≤ head.1) : e = head := by
  rcases mem_cons.mp he with rfl | hrest
  · rfl
  · have := (pairwise_cons.mp hordered).1 e hrest
    omega

theorem mem_rest_of_ordered (he : e ∈ head :: rest) (hlt : head.1 < e.1) : e ∈ rest := by
  rcases mem_cons.mp he with rfl | hrest
  · omega
  · exact hrest

theorem window_cons (hhead : head.1 = expected) (htot : totalBytes < maxBytes) :
    Window maxBytes expected totalBytes (head :: rest) e ↔
      e = head ∨ totalBytes + head.2.length < maxBytes ∧
        Window maxBytes (expected + 1) (totalBytes + head.2.length) rest e := by
  constructor
  · rintro ⟨he, front, hmem, hcons, hkey, hsize⟩
    cases front with
    | nil =>
      rw [length_nil, Nat.cast_zero, add_zero] at hkey
      exact Or.inl (eq_head_of_ordered hordered he (by omega))
    | cons x xs =>
      obtain ⟨hx, hxs⟩ := hcons
      obtain rfl : x = head :=
        eq_head_of_ordered hordered (hmem x mem_cons_self) (by omega)
      rw [length_cons, Nat.cast_succ] at hkey
      have hlen : totalLength (x :: xs) = x.2.length + totalLength xs := by
        rw [totalLength, map_cons, sum_cons, totalLength]
      refine Or.inr ⟨by omega, mem_rest_of_ordered hordered he (by omega), xs, ?_, hxs,
        by omega, by omega⟩
      intro y hy
      have := le_of_consecutiveFrom hxs hy
      exact mem_rest_of_ordered hordered (hmem y (mem_cons_of_mem _ hy)) (by omega)
  · rintro (rfl | ⟨-, he, front, hmem, hcons, hkey, hsize⟩)
    · exact ⟨mem_cons_self, [], by simp, trivial, by simp [hhead], by simpa [totalLength]⟩
    · refine ⟨mem_cons_of_mem _ he, head :: front, ?_, ⟨hhead, hcons⟩, ?_, ?_⟩
      · rw [forall_mem_cons]
        exact ⟨mem_cons_self, fun x hx => mem_cons_of_mem _ (hmem x hx)⟩
      · rw [length_cons, Nat.cast_succ, hkey]
        omega
      · rw [totalLength, map_cons, sum_cons, ← totalLength]
        omega

theorem not_window_of_gap (hgap : expected < head.1) :
    ¬Window maxBytes expected totalBytes (head :: rest) e := by
  have habove : ∀ x ∈ head :: rest, expected < x.1 := by
    rw [forall_mem_cons]
    exact ⟨hgap, fun x hx => hgap.trans ((pairwise_cons.mp hordered).1 x hx)⟩
  rintro ⟨he, front, hmem, hconsecutive, hkey, -⟩
  cases front with
  | nil =>
    have := habove e he
    rw [length_nil] at hkey
    omega
  | cons x xs =>
    have := habove x (hmem x mem_cons_self)
    have := hconsecutive.1
    omega

end

theorem mem_takeContiguous_iff {total : ℕ} {expected : ℤ}
    (hord : entries.Pairwise (fun a b => a.1 < b.1)) (hfrom : ∀ e ∈ entries, expected ≤ e.1)
    (htot : total < maxBytes) :
    e ∈ takeContiguous maxBytes expected total entries ↔
      Window maxBytes expected total entries e := by
  induction entries generalizing expected total with
  | nil => simp [takeContiguous, Window]
  | cons head rest ih =>
    have hhead := hfrom head mem_cons_self
    obtain ⟨hrest, hord'⟩ := pairwise_cons.mp hord
    rw [takeContiguous]
    by_cases hoff : head.1 = expected
    · rw [if_neg (not_not.mpr hoff), window_cons hord hoff htot]
      split
      · rename_i hfull
        have hno : ¬total + head.2.length < maxBytes := by omega
        simp [hno]
      · rename_i hmore
        have hmore' : total + head.2.length < maxBytes := by omega
        have hstep := ih hord' (fun x hx => (by have := hrest x hx; omega :
          expected + 1 ≤ x.1)) hmore'
        rw [mem_cons, hstep]
        simp [hmore']
    · rw [if_pos hoff]
      have hgap : ¬Window maxBytes expected total (head :: rest) e :=
        not_window_of_gap hord (by omega)
      simp [hgap]

theorem mem_readRange {start : ℤ} (hmax : 0 < maxBytes) {result : List (ℤ × Bytes)}
    (h : cache.readRange streamId start maxBytes = some result) :
    e ∈ result ↔ cache.get streamId e.1 = some e.2 ∧ ∃ front : List (ℤ × Bytes),
      (∀ x ∈ front, cache.get streamId x.1 = some x.2) ∧ ConsecutiveFrom start front ∧
        e.1 = start + front.length ∧ totalLength front < maxBytes := by
  obtain ⟨es, hord, hmem, rfl⟩ := readRange_loop h
  rw [mem_takeContiguous_iff hord (fun x hx => ((hmem x).mp hx).2) hmax, Window, hmem]
  constructor
  · rintro ⟨⟨he, -⟩, front, hfront, hcons, hkey, hsize⟩
    exact ⟨he, front, fun x hx => ((hmem x).mp (hfront x hx)).1, hcons, hkey, by omega⟩
  · rintro ⟨he, front, hfront, hcons, hkey, hsize⟩
    exact ⟨⟨he, by omega⟩, front, fun x hx => (hmem x).mpr ⟨hfront x hx,
      le_of_consecutiveFrom hcons hx⟩, hcons, hkey, by omega⟩

end LogCache

end OxideMq.Stream
