import Mathlib.Data.String.Basic
import Velorix.Storage.IngestKeys

/-! The ranges of offsets that batches and admissions are about. A range is valid by
construction, and the object keys made of it determine it. -/
namespace Velorix.Admission

open Storage

/-- A nonempty range of offsets of a partition. -/
structure IngestRange where
  streamId : String
  partitionId : UInt32
  startOffsetInclusive : UInt64
  endOffsetExclusive : UInt64
  segment : validateSegment "stream_id" streamId = .ok ()
  offsets : validateOffsetRange startOffsetInclusive endOffsetExclusive = .ok ()
  deriving DecidableEq

namespace IngestRange

/-- The checks that every key of a range starts with. -/
def build (streamId : String) (partitionId : UInt32)
    (startOffsetInclusive endOffsetExclusive : UInt64) : Except ObjectKeyError IngestRange :=
  match hsegment : validateSegment "stream_id" streamId with
  | .error error => .error error
  | .ok () =>
    match hoffsets : validateOffsetRange startOffsetInclusive endOffsetExclusive with
    | .error error => .error error
    | .ok () =>
      .ok ⟨streamId, partitionId, startOffsetInclusive, endOffsetExclusive, hsegment, hoffsets⟩

@[simp]
theorem build_self (r : IngestRange) :
    build r.streamId r.partitionId r.startOffsetInclusive r.endOffsetExclusive = .ok r := by
  unfold build
  split
  · rename_i he
    cases he.symm.trans r.segment
  split
  · rename_i he
    cases he.symm.trans r.offsets
  · rfl

def slot (range : IngestRange) : String × UInt32 := (range.streamId, range.partitionId)

theorem lt (r : IngestRange) : r.startOffsetInclusive < r.endOffsetExclusive := by
  have ho := r.offsets
  unfold validateOffsetRange at ho
  split_ifs at ho with h
  exact UInt64.not_le.mp h

/-- The key of an object of the range: its namespace, and how its file is called. -/
def keyIn (lead : List String) (dir : List String) (suffix : String) (range : IngestRange) :
    ObjectKey :=
  ⟨joinSegments (lead ++ [range.streamId, partitionText range.partitionId] ++ dir ++
    [rangeText range.startOffsetInclusive range.endOffsetExclusive ++ suffix])⟩

def batchKey : IngestRange → ObjectKey := keyIn ["v1", "ingest"] [] ".batch"

def admissionRecordKey : IngestRange → ObjectKey :=
  keyIn ["v1", "ingest-admission"] ["ranges"] ".admission.json"

/-- Where the objects of a range stand among the paths of their namespace. A stream ends at its
separator, so the parts compare as the paths do. -/
def location (range : IngestRange) : String ×ₗ ℕ ×ₗ ℕ ×ₗ ℕ :=
  toLex (range.streamId ++ "/", toLex (range.partitionId.toNat,
    toLex (range.startOffsetInclusive.toNat, range.endOffsetExclusive.toNat)))

def sortByLocation (ranges : List IngestRange) : List IngestRange :=
  ranges.insertionSort fun left right => left.location ≤ right.location

/-- Two ranges of one partition share an offset. -/
def meets (a b : IngestRange) : Bool :=
  a.slot = b.slot && a.startOffsetInclusive < b.endOffsetExclusive &&
    b.startOffsetInclusive < a.endOffsetExclusive

def rangesOverlap (previous current : IngestRange) : Bool :=
  previous.meets current && previous ≠ current

end IngestRange

end Velorix.Admission
