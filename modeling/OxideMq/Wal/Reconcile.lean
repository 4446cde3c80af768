import OxideMq.Wal.Recovery

/-! What a recovery says about one stream. -/

namespace OxideMq.Wal

open Lib OxideMq.Core List Option HashMap RecoveryReport

namespace WalRecovery

variable {records : List WalRecord}

def groupByStream (records : List WalRecord) : HashMap UInt64 (List WalRecord) :=
  records.foldl (fun grouped r =>
    (grouped.entryOrInsert r.streamId []).modify r.streamId (· ++ [r])) ∅

def takeContinuous (endOffset : Int64) : Int64 → List WalRecord → List WalRecord
  | _, [] => []
  | expectedOffset, r :: rs =>
      if r.offset < endOffset then takeContinuous endOffset expectedOffset rs
      else if r.offset = expectedOffset then
        r :: takeContinuous endOffset (r.offset + 1) rs
      else if r.offset > expectedOffset then []
      -- a second record at an offset that was taken
      else takeContinuous endOffset expectedOffset rs

def sortByOffset (records : List WalRecord) : List WalRecord :=
  records.insertionSort fun r r' => r.offset ≤ r'.offset

def reconcileStream (endOffset : Int64) (records : List WalRecord) : List WalRecord :=
  takeContinuous endOffset endOffset (sortByOffset records)

def reconcileStreamRecords (records : List WalRecord) (streamEndOffsets : HashMap UInt64 Int64) :
    HashMap UInt64 (List WalRecord) :=
  (groupByStream records).entries.foldl (fun reconciled entry =>
    match streamEndOffsets.lookup entry.1 with
    | none => reconciled
    | some endOffset =>
        let validStreamRecords := reconcileStream endOffset entry.2
        if validStreamRecords.isEmpty then reconciled
        else reconciled.insert entry.1 validStreamRecords) ∅

def ofStream (streamId : UInt64) (records : List WalRecord) : List WalRecord :=
  records.filter fun r => r.streamId = streamId

theorem ofStream_append (sid : UInt64) (recs more : List WalRecord) :
    ofStream sid (recs ++ more) = ofStream sid recs ++ ofStream sid more :=
  filter_append _ _

theorem lookup_groupByStream (recs : List WalRecord) (sid : UInt64) :
    (groupByStream recs).lookup sid =
      if ofStream sid recs = [] then none else some (ofStream sid recs) := by
  induction recs using reverseRecOn with
  | nil => rfl
  | append_singleton recs r ih =>
    have hg : groupByStream (recs ++ [r]) =
        ((groupByStream recs).entryOrInsert r.streamId []).modify r.streamId (· ++ [r]) := by
      rw [groupByStream, foldl_append, groupByStream]
      rfl
    rw [hg, lookup_modify, ofStream_append]
    by_cases hid : sid = r.streamId
    · subst hid
      have hone : ofStream r.streamId [r] = [r] := by simp [ofStream]
      have hmore : ofStream r.streamId recs ++ [r] ≠ [] := by simp
      rw [if_pos rfl, lookup_entryOrInsert, if_pos rfl, ih, hone, if_neg hmore]
      by_cases hnil : ofStream r.streamId recs = []
      · simp [hnil]
      · simp [hnil]
    · have hnone : ofStream sid [r] = [] := by
        simp [ofStream, Ne.symm hid]
      rw [if_neg hid, lookup_entryOrInsert, if_neg hid, ih, hnone, append_nil]

def reconciledOf (streamEndOffsets : HashMap UInt64 Int64) (streamId : UInt64)
    (records : List WalRecord) : Option (List WalRecord) :=
  match streamEndOffsets.lookup streamId with
  | none => none
  | some endOffset =>
      if (reconcileStream endOffset records).isEmpty then none
      else some (reconcileStream endOffset records)

theorem lookup_foldl_entries {ends : HashMap UInt64 Int64}
    {entries : List (Sigma fun _ : UInt64 => List WalRecord)}
    (hnd : entries.NodupKeys) (reconciled : HashMap UInt64 (List WalRecord))
    (streamId : UInt64) :
    (entries.foldl (fun (reconciled : HashMap UInt64 (List WalRecord)) entry =>
      match ends.lookup entry.1 with
      | none => reconciled
      | some endOffset =>
        let validStreamRecords := reconcileStream endOffset entry.2
        if validStreamRecords.isEmpty then reconciled
        else reconciled.insert entry.1 validStreamRecords) reconciled).lookup streamId =
      ((entries.dlookup streamId).bind (reconciledOf ends streamId)).or
        (reconciled.lookup streamId) := by
  induction entries generalizing reconciled with
  | nil => simp
  | cons entry entries ih =>
    obtain ⟨id, recs⟩ := entry
    obtain ⟨hfresh, hrest⟩ := nodupKeys_cons.mp hnd
    rw [foldl_cons, ih hrest]
    by_cases hid : streamId = id
    · subst hid
      have hnone : entries.dlookup streamId = none := dlookup_eq_none.mpr hfresh
      rw [hnone, dlookup_cons_eq, bind_none, none_or, bind_some, reconciledOf]
      cases ends.lookup streamId with
      | none => simp
      | some endOffset =>
        by_cases hemp : (reconcileStream endOffset recs).isEmpty
        · simp [hemp]
        · simp [hemp]
    · have hoth : dlookup streamId (⟨id, recs⟩ :: entries) = entries.dlookup streamId :=
        dlookup_cons_ne _ _ hid
      rw [hoth]
      congr 1
      dsimp only
      split
      · rfl
      · split
        · rfl
        · rw [lookup_insert_ite, if_neg hid]

theorem lookup_reconcileStreamRecords (recs : List WalRecord) {ends : HashMap UInt64 Int64}
    {sid : UInt64} {stop : Int64} (hend : ends.lookup sid = some stop) :
    (reconcileStreamRecords recs ends).lookup sid =
      if reconcileStream stop (ofStream sid recs) = [] then none
      else some (reconcileStream stop (ofStream sid recs)) := by
  have hg : (groupByStream recs).entries.dlookup sid =
      if ofStream sid recs = [] then none else some (ofStream sid recs) :=
    lookup_groupByStream recs sid
  rw [reconcileStreamRecords, lookup_foldl_entries (groupByStream recs).nodupKeys, hg]
  by_cases hnil : ofStream sid recs = []
  · rw [if_pos hnil, hnil]
    rfl
  · rw [if_neg hnil, bind_some, reconciledOf, hend]
    simp

theorem toInt_add_one {o : Int64} (h : o.toInt < 2 ^ 63 - 1) : (o + 1).toInt = o.toInt + 1 := by
  have hlo := Int64.le_toInt o
  rw [Int64.toInt_add]
  apply Int.bmod_eq_of_le
  · simp
    omega
  · simp
    omega

/-- The offsets are `first`, `first + 1`, and so on. -/
def Follow : ℤ → List WalRecord → Prop
  | _, [] => True
  | first, r :: rs => r.offset.toInt = first ∧ Follow (first + 1) rs

theorem Follow.lt {first : ℤ} (h : Follow first records) :
    ∀ r ∈ records, r.offset.toInt < first + records.length := by
  induction records generalizing first with
  | nil => exact forall_mem_nil _
  | cons r rs ih =>
    intro r' hr'
    rw [length_cons]
    push_cast
    rcases mem_cons.mp hr' with rfl | hr'
    · have hfirst := h.1
      omega
    · have hlt := ih h.2 r' hr'
      omega

theorem Follow.exists_last {first : ℤ} (h : Follow first records) (hne : records ≠ []) :
    ∃ r ∈ records, r.offset.toInt + 1 = first + records.length := by
  induction records generalizing first with
  | nil => exact absurd rfl hne
  | cons r rs ih =>
    rw [length_cons]
    push_cast
    by_cases hnil : rs = []
    · subst hnil
      refine ⟨r, mem_cons_self, ?_⟩
      have hfirst := h.1
      simp only [length_nil]
      push_cast
      omega
    · obtain ⟨r', hr', hlast⟩ := ih h.2 hnil
      exact ⟨r', mem_cons_of_mem _ hr', by omega⟩

theorem follow_takeContinuous (stop expected : Int64)
    (hfits : ∀ r ∈ records, r.offset.toInt < 2 ^ 63 - 1) :
    Follow expected.toInt (takeContinuous stop expected records) := by
  induction records generalizing expected with
  | nil => trivial
  | cons r rs ih =>
    have hrs : ∀ r' ∈ rs, r'.offset.toInt < 2 ^ 63 - 1 :=
      fun r' hr' => hfits r' (mem_cons_of_mem _ hr')
    rw [takeContinuous]
    split
    · exact ih expected hrs
    · split
      · rename_i hnext
        have hrest := ih (r.offset + 1) hrs
        rw [toInt_add_one (hfits r mem_cons_self)] at hrest
        rw [hnext] at hrest ⊢
        exact ⟨by rw [hnext], hrest⟩
      · split
        · trivial
        · exact ih expected hrs

theorem takeContinuous_of_follow {endOffset expected : Int64}
    (hend : endOffset.toInt ≤ expected.toInt) (h : Follow expected.toInt records)
    (hfits : ∀ r ∈ records, r.offset.toInt < 2 ^ 63 - 1) :
    takeContinuous endOffset expected records = records := by
  induction records generalizing expected with
  | nil => rfl
  | cons r rs ih =>
    have hfirst : r.offset = expected := Int64.toInt_inj.mp h.1
    have hnot : ¬r.offset < endOffset := by
      rw [hfirst, Int64.lt_iff_toInt_lt]
      omega
    have hsucc := toInt_add_one (hfits r mem_cons_self)
    have hfollow := h.2
    rw [← hfirst, ← hsucc] at hfollow
    have hend' : endOffset.toInt ≤ (r.offset + 1).toInt := by
      rw [hsucc, hfirst]
      omega
    rw [takeContinuous, if_neg hnot, if_pos hfirst,
      ih hend' hfollow fun r' hr' => hfits r' (mem_cons_of_mem _ hr')]

theorem takeContinuous_sublist (endOffset expected : Int64) (records : List WalRecord) :
    (takeContinuous endOffset expected records).Sublist records := by
  induction records generalizing expected with
  | nil => exact List.Sublist.slnil
  | cons r rs ih =>
    rw [takeContinuous]
    split
    · exact (ih expected).cons r
    · split
      · exact (ih _).cons_cons r
      · split
        · exact nil_sublist _
        · exact (ih expected).cons r

theorem follow_of_increasing {first : ℤ}
    (hinc : records.Pairwise fun r r' => r.offset.toInt < r'.offset.toInt)
    (hlo : ∀ r ∈ records, first ≤ r.offset.toInt)
    (hhi : ∀ r ∈ records, r.offset.toInt < first + records.length) : Follow first records := by
  have hroom : ∀ (rs : List WalRecord) (r : WalRecord) (bound : ℤ),
      (r :: rs).Pairwise (fun r r' => r.offset.toInt < r'.offset.toInt) →
      (∀ r' ∈ r :: rs, r'.offset.toInt < bound) → r.offset.toInt + rs.length < bound := by
    intro rs
    induction rs with
    | nil =>
      intro r bound _ hbd
      simpa using hbd r mem_cons_self
    | cons r' rs ih =>
      intro r bound hpair hbd
      have hrest := ih r' bound hpair.of_cons fun x hx => hbd x (mem_cons_of_mem _ hx)
      have hlt := rel_of_pairwise_cons hpair mem_cons_self
      rw [length_cons]
      push_cast
      omega
  induction records generalizing first with
  | nil => trivial
  | cons r rs ih =>
    have hlast := hroom rs r _ hinc hhi
    have hfirst := hlo r mem_cons_self
    rw [length_cons] at hlast hhi
    push_cast at hlast hhi
    refine ⟨by omega, ih hinc.of_cons (fun r' hr' => ?_) fun r' hr' => ?_⟩
    · have hlt := rel_of_pairwise_cons hinc hr'
      omega
    · have hlt := hhi r' (mem_cons_of_mem _ hr')
      omega

theorem sortByOffset_perm (records : List WalRecord) : (sortByOffset records).Perm records :=
  perm_insertionSort _ _

theorem sortByOffset_sorted (recs : List WalRecord) :
    (sortByOffset recs).Pairwise fun r r' => r.offset.toInt ≤ r'.offset.toInt := by
  have : Std.Total fun r r' : WalRecord => r.offset ≤ r'.offset :=
    ⟨fun r r' => Int64.le_total r.offset r'.offset⟩
  have : IsTrans WalRecord fun r r' => r.offset ≤ r'.offset :=
    ⟨fun _ _ _ => Int64.le_trans⟩
  have hsort := pairwise_insertionSort (fun r r' : WalRecord => r.offset ≤ r'.offset) recs
  exact hsort.imp Int64.le_iff_toInt_le.mp

theorem reconcileStream_of_tight (hdistinct : (records.map fun r => r.offset.toInt).Nodup)
    (hlo : ∀ r ∈ records, 0 ≤ r.offset.toInt) (hhi : ∀ r ∈ records, r.offset.toInt < records.length)
    (hfits : ∀ r ∈ records, r.offset.toInt < 2 ^ 63 - 1) :
    reconcileStream 0 records = sortByOffset records ∧ Follow 0 (sortByOffset records) := by
  have hperm := sortByOffset_perm records
  have hmem : ∀ r ∈ sortByOffset records, r ∈ records := fun r => hperm.mem_iff.mp
  have hincreasing : (sortByOffset records).Pairwise
      fun r r' => r.offset.toInt < r'.offset.toInt := by
    have hne : ((sortByOffset records).map fun r => r.offset.toInt).Nodup :=
      (hperm.map _).nodup_iff.mpr hdistinct
    refine ((sortByOffset_sorted records).and (pairwise_map.mp hne)).imp ?_
    rintro r r' ⟨hle, hneq⟩
    exact lt_of_le_of_ne hle hneq
  have hfollow : Follow 0 (sortByOffset records) := by
    refine follow_of_increasing hincreasing (fun r hr => hlo r (hmem r hr)) fun r hr => ?_
    rw [hperm.length_eq, zero_add]
    exact hhi r (hmem r hr)
  exact ⟨takeContinuous_of_follow le_rfl hfollow fun r hr => hfits r (hmem r hr), hfollow⟩

theorem lt_length_of_mem_reconcileStream {r : WalRecord}
    (hfits : ∀ r ∈ records, r.offset.toInt < 2 ^ 63 - 1) (hr : r ∈ reconcileStream 0 records) :
    r.offset.toInt < records.length := by
  have hperm := sortByOffset_perm records
  have hfollow := follow_takeContinuous 0 0 fun r' hr' => hfits r' (hperm.mem_iff.mp hr')
  have hlength := (takeContinuous_sublist 0 0 (sortByOffset records)).length_le
  have hlt := hfollow.lt r hr
  rw [hperm.length_eq] at hlength
  have hzero : (0 : Int64).toInt = 0 := rfl
  rw [hzero] at hlt
  omega

def OneAbove (records : List WalRecord) (next : Int64) : Prop :=
  (∃ r ∈ records, r.offset.toInt + 1 = next.toInt) ∧ ∀ r ∈ records, r.offset.toInt < next.toInt

theorem oneAbove_singleton {r : WalRecord} (hfits : r.offset.toInt < 2 ^ 63 - 1) :
    OneAbove [r] (r.offset + 1) := by
  have hsucc := toInt_add_one hfits
  refine ⟨⟨r, mem_singleton_self r, hsucc.symm⟩, fun r' hr' => ?_⟩
  rw [mem_singleton.mp hr', hsucc]
  omega

theorem OneAbove.observe {next : Int64} {r : WalRecord} (h : OneAbove records next)
    (hfits : r.offset.toInt < 2 ^ 63 - 1) :
    OneAbove (records ++ [r]) (if r.offset ≥ next then r.offset + 1 else next) := by
  have hsucc := toInt_add_one hfits
  by_cases hge : r.offset ≥ next
  · rw [if_pos hge]
    rw [ge_iff_le, Int64.le_iff_toInt_le] at hge
    refine ⟨⟨r, by simp, hsucc.symm⟩, fun r' hr' => ?_⟩
    rw [hsucc]
    rcases mem_append.mp hr' with hr' | hr'
    · have hlt := h.2 r' hr'
      omega
    · rw [mem_singleton.mp hr']
      omega
  · rw [if_neg hge]
    obtain ⟨⟨top, htop, hnext⟩, hbelow⟩ := h
    refine ⟨⟨top, mem_append_left _ htop, hnext⟩, fun r' hr' => ?_⟩
    rcases mem_append.mp hr' with hr' | hr'
    · exact hbelow r' hr'
    · rw [ge_iff_le, Int64.le_iff_toInt_le] at hge
      rw [mem_singleton.mp hr']
      omega

theorem watermark_of_observe (n : ℕ) (sid : UInt64) (recs : List WalRecord)
    (hfits : ∀ r ∈ ofStream sid recs, r.offset.toInt < 2 ^ 63 - 1) :
    (ofStream sid recs = [] → (recs.foldl observe (start n)).streamWatermarks.lookup sid = none) ∧
      (ofStream sid recs ≠ [] → ∃ wm, (recs.foldl observe
        (start n)).streamWatermarks.lookup sid = some wm ∧
          OneAbove (ofStream sid recs) wm.nextOffset) := by
  induction recs using reverseRecOn with
  | nil => exact ⟨fun _ => rfl, fun hne => absurd rfl hne⟩
  | append_singleton recs r ih =>
    rw [ofStream_append] at hfits ⊢
    obtain ⟨hnone, hsome⟩ := ih fun r' hr' => hfits r' (mem_append_left _ hr')
    rw [foldl_append, foldl_cons, foldl_nil, observe]
    rw [lookup_modify]
    by_cases hid : sid = r.streamId
    · subst hid
      have hone : ofStream r.streamId [r] = [r] := by simp [ofStream]
      have hr : r.offset.toInt < 2 ^ 63 - 1 := hfits r (by simp [hone])
      have hsucc := toInt_add_one hr
      rw [if_pos rfl, lookup_entryOrInsert, if_pos rfl, hone]
      refine ⟨fun hnil => by simp at hnil, fun _ => ⟨_, rfl, ?_⟩⟩
      dsimp only
      by_cases hnil : ofStream r.streamId recs = []
      · -- the first record of the stream sets the watermark
        have hnot : ¬r.offset ≥ r.offset + 1 := by
          rw [ge_iff_le, Int64.le_iff_toInt_le, hsucc]
          omega
        rw [hnone hnil, getD_none, if_neg hnot, hnil]
        exact oneAbove_singleton hr
      · obtain ⟨wm, hwm, habove⟩ := hsome hnil
        rw [hwm, getD_some]
        exact habove.observe hr
    · have hoth : ofStream sid [r] = [] := by simp [ofStream, Ne.symm hid]
      rw [if_neg hid, lookup_entryOrInsert, if_neg hid, hoth, append_nil]
      exact ⟨hnone, hsome⟩

end WalRecovery

end OxideMq.Wal
