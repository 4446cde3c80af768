import OxideMq.Stream.Compactor

/-! The two ways to truncate a stream. -/

namespace OxideMq.Stream

open Lib OxideMq.Core OxideMq.Wal

variable {W : Type}

inductive TruncationCall where
  | appendWithCount (payload : Bytes) (recordCount : ℤ)
  | advanceStartOffset (newStartOffset : ℤ)
  | trim (newStartOffset : ℤ)
  deriving DecidableEq, Repr

namespace TruncationCall

def exec [WalEngine W] : S3Stream × Tiers W → TruncationCall → Option (S3Stream × Tiers W)
  | (stream, tiers), .appendWithCount payload recordCount =>
      let (stream', tiers', _) := stream.appendWithCount tiers payload recordCount
      some (stream', tiers')
  | (stream, tiers), .advanceStartOffset newStartOffset =>
      let (stream', tiers', _) := stream.advanceStartOffset tiers newStartOffset
      some (stream', tiers')
  | (stream, tiers), .trim newStartOffset =>
      let (stream', tiers', _) := stream.trim tiers newStartOffset
      some (stream', tiers')

def target : TruncationCall → Option ℤ
  | .appendWithCount _ _ => none
  | .advanceStartOffset newStartOffset | .trim newStartOffset => some newStartOffset

theorem startOffset_advance (stream : S3Stream) (tiers : Tiers W) (offset : ℤ) :
    (stream.advanceStartOffset tiers offset).1.startOffset = max stream.startOffset offset := by
  rw [S3Stream.advanceStartOffset]
  split
  · rename_i hfwd
    exact (max_eq_right (le_of_lt hfwd)).symm
  · rename_i hstay
    exact (max_eq_left (not_lt.mp hstay)).symm

theorem get_advance (str : S3Stream) (tiers : Tiers W) (off : ℤ) (s : ℕ) (o : ℤ) :
    (str.advanceStartOffset tiers off).2.1.logCache.get s o =
      if str.startOffset < off ∧ s = str.streamId ∧ o < off then none
      else tiers.logCache.get s o := by
  rw [S3Stream.advanceStartOffset]
  split
  · rename_i hfwd
    rw [LogCache.get_trim]
    simp only [show str.startOffset < off from hfwd, true_and]
  · rename_i hstay
    rw [if_neg fun h => hstay h.1]

theorem startOffset_trim [WalEngine W] (stream : S3Stream) (tiers : Tiers W) (offset : ℤ) :
    (stream.trim tiers offset).1.startOffset = offset := by
  rw [S3Stream.trim]
  split <;> rfl

theorem get_trim [WalEngine W] (stream : S3Stream) (tiers : Tiers W) (offset : ℤ) (s : ℕ) (o : ℤ) :
    (stream.trim tiers offset).2.1.logCache.get s o =
      if s = stream.streamId ∧ o < offset then none else tiers.logCache.get s o := by
  have hcache : (stream.trim tiers offset).2.1.logCache =
      tiers.logCache.trim stream.streamId offset := by
    rw [S3Stream.trim]
    split <;> rfl
  rw [hcache, LogCache.get_trim]

def Agree [WalEngine W] (s : S3Stream × Tiers W) (offset : ℤ) : Prop :=
  (s.1.trim s.2 offset).1.startOffset = (s.1.advanceStartOffset s.2 offset).1.startOffset ∧
    ∀ streamId o, (s.1.trim s.2 offset).2.1.logCache.get streamId o =
      (s.1.advanceStartOffset s.2 offset).2.1.logCache.get streamId o

def Forward (s : S3Stream × Tiers W) (offset : ℤ) : Prop :=
  s.1.startOffset < offset ∨
    s.1.startOffset = offset ∧ ∀ o < offset, s.2.logCache.get s.1.streamId o = none

theorem agree_iff_forward [WalEngine W] (s : S3Stream × Tiers W) (offset : ℤ) :
    Agree s offset ↔ Forward s offset := by
  obtain ⟨stream, tiers⟩ := s
  rw [Agree, startOffset_trim, startOffset_advance]
  simp only [get_trim, get_advance, Forward]
  constructor
  · rintro ⟨hstart, hcache⟩
    have hle : stream.startOffset ≤ offset := by
      rw [hstart]
      exact le_max_left _ _
    rcases hle.lt_or_eq with hlt | heq
    · exact Or.inl hlt
    · refine Or.inr ⟨heq, fun o ho => ?_⟩
      -- `trim` has dropped the entry, the other call has left it alone
      have he := hcache stream.streamId o
      rw [if_pos ⟨rfl, ho⟩, if_neg fun h => absurd heq h.1.ne] at he
      exact he.symm
  · rintro (hlt | ⟨rfl, hnone⟩)
    · refine ⟨(max_eq_right hlt.le).symm, fun streamId o => ?_⟩
      simp only [hlt, true_and]
    · refine ⟨(max_self _).symm, fun streamId o => ?_⟩
      simp only [lt_irrefl, false_and, if_false]
      split
      · rename_i hbelow
        rw [hbelow.1, hnone o hbelow.2]
      · rfl

def KeepsWindow [WalEngine W] (s : S3Stream × Tiers W) (call : TruncationCall)
    (s' : S3Stream × Tiers W) : Prop :=
  s.1.startOffset ≤ s'.1.startOffset ∧ ∀ offset ∈ call.target, Agree s offset

theorem keepsWindow_iff [WalEngine W] {s s' : S3Stream × Tiers W} {call : TruncationCall}
    (hexec : exec s call = some s') :
    KeepsWindow s call s' ↔ ∀ offset ∈ call.target, Forward s offset := by
  obtain ⟨stream, tiers⟩ := s
  have hagree : (∀ offset ∈ call.target, Agree (stream, tiers) offset) ↔
      ∀ offset ∈ call.target, Forward (stream, tiers) offset :=
    forall₂_congr fun offset _ => agree_iff_forward (stream, tiers) offset
  rw [KeepsWindow, hagree, and_iff_right_iff_imp]
  intro hfwd
  cases call with
  | appendWithCount payload recordCount =>
    cases hexec
    show stream.startOffset ≤ (stream.appendWithCount tiers payload recordCount).1.startOffset
    rw [S3Stream.appendWithCount_stream]
  | advanceStartOffset newStartOffset =>
    cases hexec
    show stream.startOffset ≤ (stream.advanceStartOffset tiers newStartOffset).1.startOffset
    rw [startOffset_advance]
    exact le_max_left _ _
  | trim newStartOffset =>
    cases hexec
    show stream.startOffset ≤ (stream.trim tiers newStartOffset).1.startOffset
    rw [startOffset_trim]
    -- this is the one call that can move it back
    rcases hfwd newStartOffset rfl with hlt | ⟨heq, -⟩
    · exact hlt.le
    · exact heq.le

theorem window_sound_iff [WalEngine W] {s t : S3Stream × Tiers W} {calls : List TruncationCall}
    (hrun : run exec s calls = some t) :
    Along exec (fun s call => ∀ s', exec s call = some s' → KeepsWindow s call s') s calls ↔
      Along exec (fun s call => ∀ offset ∈ call.target, Forward s offset) s calls := by
  refine along_iff_of_run (I := fun _ => True) ?_ trivial hrun
  intro s call s' _ hexec
  refine ⟨trivial, ⟨fun hk => (keepsWindow_iff hexec).mp (hk s' hexec), ?_⟩⟩
  intro hfwd s'' hexec'
  exact (keepsWindow_iff hexec').mpr hfwd

def newStream : S3Stream × Tiers MemoryWal :=
  (S3Stream.new 1 0, ⟨MemoryWal.new, ∅, LogCache.new 4096, BlockCache.new 4096⟩)

theorem trim_moves_start_back : ∃ s s' : S3Stream × Tiers MemoryWal,
      run exec newStream [.appendWithCount [7] 5, .advanceStartOffset 3] = some s ∧
      exec s (.trim 1) = some s' ∧ 1 ≤ s.1.nextOffset ∧
      s.1.startOffset = 3 ∧ s'.1.startOffset = 1 ∧ ¬KeepsWindow s (.trim 1) s' := by
  refine ⟨_, _, rfl, rfl, by decide, rfl, rfl, fun hk => ?_⟩
  exact absurd hk.1 (by decide)

theorem window_sound_increasing :
    Along exec (fun s call => ∀ s', exec s call = some s' → KeepsWindow s call s') newStream
      [.appendWithCount [7] 5, .advanceStartOffset 1, .trim 3] := by
  refine (window_sound_iff rfl).mpr ?_
  refine Along.cons (by simp [target]) rfl (Along.cons ?_ rfl (Along.cons ?_ rfl trivial))
  · rintro off ⟨⟩
    exact Or.inl (by decide)
  · rintro off ⟨⟩
    exact Or.inl (by decide)

end TruncationCall

end OxideMq.Stream
