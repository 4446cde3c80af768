import OxideMq.Wal.Frame
import OxideMq.Lib.HashMap

/-! The interface through which streams use a write-ahead log, and the in-memory log that the
broker runs with. -/

namespace OxideMq.Wal

open Lib OxideMq.Core

class WalEngine (W : Type) where
  append : W → ℕ → ℤ → Bytes → W × Except OxideMqError ℕ
  trim : W → ℕ → ℤ → W × Except OxideMqError Unit

def WalEngine.NeverFails (W : Type) [WalEngine W] : Prop :=
  ∀ (wal : W) (streamId : ℕ) (offset : ℤ) (payload : Bytes),
    ∃ seq, (WalEngine.append wal streamId offset payload).2 = .ok seq

structure MemoryRecord where
  streamId : ℕ
  offset : ℤ
  payload : Bytes
  deriving DecidableEq, Repr

structure MemoryWal where
  nextSeq : ℕ
  records : Std.TreeMap ℕ MemoryRecord
  streamIndexes : HashMap ℕ (List ℕ)

namespace MemoryWal

def new : MemoryWal := ⟨1, ∅, ∅⟩

def append (wal : MemoryWal) (streamId : ℕ) (offset : ℤ) (data : Bytes) :
    MemoryWal × Except OxideMqError ℕ :=
  let seq := wal.nextSeq
  (⟨seq + 1, wal.records.insert seq ⟨streamId, offset, data⟩,
    (wal.streamIndexes.entryOrInsert streamId []).modify streamId (· ++ [seq])⟩, .ok seq)

def trimSeqs (upToOffset : ℤ) :
    List ℕ → Std.TreeMap ℕ MemoryRecord → List ℕ × Std.TreeMap ℕ MemoryRecord
  | [], records => ([], records)
  | seq :: seqs, records =>
      match records[seq]? with
      | none => trimSeqs upToOffset seqs records
      | some record =>
          if record.offset < upToOffset then trimSeqs upToOffset seqs (records.erase seq)
          else
            let (retained, records') := trimSeqs upToOffset seqs records
            (seq :: retained, records')

def trim (wal : MemoryWal) (streamId : ℕ) (upToOffset : ℤ) :
    MemoryWal × Except OxideMqError Unit :=
  match wal.streamIndexes.lookup streamId with
  | none => (wal, .ok ())
  | some seqs =>
      let (retained, records) := trimSeqs upToOffset seqs wal.records
      ({ wal with
        records := records
        streamIndexes := wal.streamIndexes.modify streamId fun _ => retained }, .ok ())

/-- The loop of `read_stream` over the sequence numbers of one stream. -/
def readSeqs (records : Std.TreeMap ℕ MemoryRecord) (startOffset : ℤ) (maxBytes : ℕ) :
    ℕ → List ℕ → List (ℕ × MemoryRecord)
  | _, [] => []
  | totalBytes, seq :: seqs =>
      match records[seq]? with
      | none => readSeqs records startOffset maxBytes totalBytes seqs
      | some record =>
          if record.offset ≥ startOffset then
            let totalBytes' := totalBytes + record.payload.length
            (seq, record) ::
              if totalBytes' ≥ maxBytes then []
              else readSeqs records startOffset maxBytes totalBytes' seqs
          else readSeqs records startOffset maxBytes totalBytes seqs

def readStream (wal : MemoryWal) (streamId : ℕ) (startOffset : ℤ) (maxBytes : ℕ) :
    List (ℕ × MemoryRecord) :=
  match wal.streamIndexes.lookup streamId with
  | none => []
  | some seqs => readSeqs wal.records startOffset maxBytes 0 seqs

instance : WalEngine MemoryWal := ⟨append, trim⟩

theorem neverFails : WalEngine.NeverFails MemoryWal := fun wal _ _ _ => ⟨wal.nextSeq, rfl⟩

end MemoryWal

end OxideMq.Wal
