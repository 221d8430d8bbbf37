import Velorix.Storage.Digest

/-! Keys of ingest objects: how they are built, and that a staging key is read back as the parts
it was built from. -/
namespace Velorix.Storage

open DecimalText Result String List

variable {width : ℕ} {lo hi : UInt64} {streamId stagingId : String} {partitionId : UInt32}

def joinSegments (parts : List String) : String :=
  String.ofList (['/'].intercalate (parts.map String.toList))

def padded (width n : ℕ) : String := String.ofList (paddedText width n)

def partitionText (partitionId : UInt32) : String :=
  "p=" ++ padded partitionWidth partitionId.toNat

def rangeText (startOffsetInclusive endOffsetExclusive : UInt64) : String :=
  padded offsetWidth startOffsetInclusive.toNat ++ "-" ++
    padded offsetWidth endOffsetExclusive.toNat

namespace ObjectKey

def ingestBatch (streamId : String) (partitionId : UInt32)
    (startOffsetInclusive endOffsetExclusive : UInt64) : Except ObjectKeyError ObjectKey := do
  validateSegment "stream_id" streamId
  validateOffsetRange startOffsetInclusive endOffsetExclusive
  return ⟨joinSegments ["v1", "ingest", streamId, partitionText partitionId,
    rangeText startOffsetInclusive endOffsetExclusive ++ ".batch"]⟩

def ingestStaging (streamId : String) (partitionId : UInt32)
    (startOffsetInclusive endOffsetExclusive : UInt64) (stagingId : String) :
    Except ObjectKeyError ObjectKey := do
  validateSegment "stream_id" streamId
  validateSegment "staging_id" stagingId
  validateOffsetRange startOffsetInclusive endOffsetExclusive
  return ⟨joinSegments ["v1", "ingest-staging", streamId, partitionText partitionId,
    rangeText startOffsetInclusive endOffsetExclusive, stagingId ++ ".stage"]⟩

end ObjectKey

structure IngestStagingKeyParts where
  streamId : String
  partitionId : UInt32
  startOffsetInclusive : UInt64
  endOffsetExclusive : UInt64
  stagingId : String
  deriving DecidableEq

def parseIngestStagingParts (value streamId partition range stagingFile : String) :
    Except ObjectKeyError IngestStagingKeyParts := do
  validateSegment "stream_id" streamId
  let partitionId ← parsePrefixedU32 "partition_id" partition "p=" partitionWidth
  let offsets ← parseOffsetRange value range
  let stagingId ← orInvalidExternalKey value (stripSuffix ".stage" stagingFile)
  validateSegment "staging_id" stagingId
  return ⟨streamId, partitionId, offsets.1, offsets.2, stagingId⟩

def parseIngestStagingLayout (value : String) : Except ObjectKeyError IngestStagingKeyParts :=
  match segments value with
  | [v1, kind, streamId, partition, range, stagingFile] =>
    if v1 == "v1" && kind == "ingest-staging" then
      parseIngestStagingParts value streamId partition range stagingFile
    else .error (.invalidExternalKey value)
  | _ => .error (.invalidExternalKey value)

def ObjectKey.parseIngestStaging (value : String) :
    Except ObjectKeyError (ObjectKey × IngestStagingKeyParts) := do
  let key ← ObjectKey.parse value
  let parts ← parseIngestStagingLayout value
  return (key, parts)

theorem segments_joinSegments {parts : List String} (hne : parts ≠ [])
    (hf : ∀ part ∈ parts, '/' ∉ part.toList) : segments (joinSegments parts) = parts := by
  unfold segments joinSegments
  rw [toList_ofList, splitOn_intercalate]
  · simp [Function.comp_def]
  · intro part hp
    obtain ⟨text, ht, rfl⟩ := mem_map.mp hp
    exact hf text ht
  · simpa using hne

@[simp]
theorem stripSuffix_append (text suffix : String) :
    stripSuffix suffix (text ++ suffix) = some text := by
  unfold stripSuffix
  have h : (text ++ suffix).toList.dropSuffix? suffix.toList = some text.toList := by
    rw [dropSuffix?_eq_some_iff]
    exact ⟨suffix.toList, by rw [toList_append], by simp⟩
  rw [h]
  simp

@[simp]
theorem stripSuffix_nil (text : String) : stripSuffix "" text = some text := by
  simpa using stripSuffix_append text ""

variable {n : ℕ}

theorem isFixedWidthDigits_padded (hw : 0 < width) (h : n < 10 ^ width) :
    isFixedWidthDigits (padded width n) width = true := by
  unfold isFixedWidthDigits padded
  rw [length_ofList, paddedText_length hw h, toList_ofList]
  simp only [beq_self_eq_true, Bool.true_and, all_eq_true]
  exact fun c hc => isDigit_of_mem_paddedText hc

variable {name : String}

theorem parseFixed_padded {bound : ℕ} (hw : 0 < width) (h : n < 10 ^ width)
    (hb : n < bound) : parseFixed bound name (padded width n) width = .ok n := by
  unfold parseFixed
  have hv : digitsValue (padded width n).toList = n := by
    rw [padded, toList_ofList, digitsValue_paddedText]
  rw [isFixedWidthDigits_padded hw h, hv, if_pos hb]
  rfl

theorem parsePrefixedU32_partitionText (partitionId : UInt32) :
    parsePrefixedU32 "partition_id" (partitionText partitionId) "p=" partitionWidth =
      .ok partitionId := by
  have hlt : partitionId.toNat < 2 ^ 32 := partitionId.toNat_lt
  have hf : parseFixed (2 ^ 32) "partition_id" (padded partitionWidth partitionId.toNat)
      partitionWidth = .ok partitionId.toNat :=
    parseFixed_padded (by decide) (hlt.trans (by decide)) hlt
  unfold parsePrefixedU32 partitionText parseFixedU32
  rw [stripPrefix_append, orInvalidExternalKey, ok_bind, hf]
  exact congrArg Except.ok (UInt32.ofNat_toNat)

@[simp]
theorem parseFixedU64_padded (name : String) (n : UInt64) :
    parseFixedU64 name (padded offsetWidth n.toNat) offsetWidth = .ok n := by
  have hlt : n.toNat < 2 ^ 64 := n.toNat_lt
  unfold parseFixedU64
  rw [parseFixed_padded (by decide) (hlt.trans (by decide)) hlt]
  exact congrArg Except.ok (UInt64.ofNat_toNat)

theorem dash_not_mem_padded : '-' ∉ paddedText width n :=
  fun h => absurd (isDigit_of_mem_paddedText h) (by decide)

theorem splitOnce_rangeText (lo hi : UInt64) :
    splitOnce '-' (rangeText lo hi) =
      some (padded offsetWidth lo.toNat, padded offsetWidth hi.toNat) := by
  have ht : (rangeText lo hi).toList = paddedText offsetWidth lo.toNat ++
        '-' :: paddedText offsetWidth hi.toNat := by
    simp [rangeText, padded]
  have hf : ∀ c ∈ paddedText offsetWidth lo.toNat, (decide (c ≠ '-')) = true := by
    intro c hc
    rw [decide_eq_true_eq]
    rintro rfl
    exact dash_not_mem_padded hc
  unfold splitOnce
  rw [ht, if_pos (by simp), takeWhile_append_of_pos hf,
    dropWhile_append_of_pos hf]
  simp [padded]

variable {value : String}

theorem parseOffsetRange_rangeText (h : validateOffsetRange lo hi = .ok ()) :
    parseOffsetRange value (rangeText lo hi) = .ok (lo, hi) := by
  unfold parseOffsetRange
  rw [splitOnce_rangeText, orInvalidExternalKey, ok_bind, parseFixedU64_padded,
    parseFixedU64_padded, ok_bind, ok_bind, h]
  rfl

theorem slash_not_mem_of_validateSegment
    (h : validateSegment name value = .ok ()) : '/' ∉ value.toList := by
  intro hm
  unfold validateSegment at h
  split_ifs at h with he hc
  rw [Bool.not_eq_true, Bool.or_eq_false_iff, Bool.not_eq_false', all_eq_true] at hc
  exact absurd (hc.2 '/' hm) (by decide)

theorem slash_not_mem_padded : '/' ∉ (padded width n).toList := by
  rw [padded, toList_ofList]
  exact fun h => absurd (isDigit_of_mem_paddedText h) (by decide)

theorem slash_not_mem_partitionText (partitionId : UInt32) :
    '/' ∉ (partitionText partitionId).toList := by
  unfold partitionText
  rw [toList_append, mem_append, not_or]
  exact ⟨by decide, slash_not_mem_padded⟩

theorem slash_not_mem_rangeText (lo hi : UInt64) : '/' ∉ (rangeText lo hi).toList := by
  unfold rangeText
  simp only [toList_append, mem_append, not_or]
  exact ⟨⟨slash_not_mem_padded, by decide⟩, slash_not_mem_padded⟩

theorem slash_not_mem_append {a b : String} (ha : '/' ∉ a.toList) (hb : '/' ∉ b.toList) :
    '/' ∉ (a ++ b).toList := by
  rw [toList_append, mem_append, not_or]
  exact ⟨ha, hb⟩

theorem joinSegments_cons_cons (first second : String) (rest : List String) :
    joinSegments (first :: second :: rest) = first ++ "/" ++ joinSegments (second :: rest) := by
  unfold joinSegments
  rw [← toList_inj]
  simp [List.intercalate, toList_append]

theorem isEmpty_of_validateSegment
    (h : validateSegment name value = .ok ()) : value.isEmpty = false := by
  unfold validateSegment at h
  split_ifs at h with he
  exact Bool.not_eq_true _ ▸ he

variable {key : ObjectKey}

section
variable (h : ObjectKey.ingestStaging streamId partitionId lo hi stagingId = .ok key)
include h

theorem ingestStaging_ok : validateSegment "stream_id" streamId = .ok () ∧
      validateSegment "staging_id" stagingId = .ok () ∧ validateOffsetRange lo hi = .ok () ∧
      (stripPrefix "v1/" key.value).isSome ∧
      segments key.value = ["v1", "ingest-staging", streamId, partitionText partitionId,
        rangeText lo hi, stagingId ++ ".stage"] := by
  obtain ⟨⟨⟩, hs, h⟩ := bind_eq_ok.mp h
  obtain ⟨⟨⟩, hid, h⟩ := bind_eq_ok.mp h
  obtain ⟨⟨⟩, hr, h⟩ := bind_eq_ok.mp h
  cases h
  refine ⟨hs, hid, hr, ?_, segments_joinSegments (by simp) ?_⟩
  · rw [joinSegments_cons_cons]
    exact Option.isSome_iff_exists.mpr ⟨_, stripPrefix_append "v1/" _⟩
  simp only [forall_mem_cons, not_mem_nil, false_implies, implies_true, and_true]
  exact ⟨by decide, by decide, slash_not_mem_of_validateSegment hs,
    slash_not_mem_partitionText _, slash_not_mem_rangeText _ _,
    slash_not_mem_append (slash_not_mem_of_validateSegment hid) (by decide)⟩

/-- A staging key is accepted. -/
theorem parse_ingestStaging : ObjectKey.parse key.value = .ok key := by
  obtain ⟨hs, hid, hr, hlead, hsegments⟩ := ingestStaging_ok h
  have hn : (segments key.value).any String.isEmpty = false := by
    rw [hsegments]
    have hf : (stagingId ++ ".stage").isEmpty = false := by simp
    have hp : (partitionText partitionId).isEmpty = false := by simp [partitionText]
    have ho : (rangeText lo hi).isEmpty = false := by simp [rangeText]
    simp only [any_cons, isEmpty_of_validateSegment hs, hf, hp, ho]
    decide
  have hl : validateKnownLayout key.value = .ok () := by
    unfold validateKnownLayout
    rw [hsegments]
    have hfind : knownLayouts.find? (layoutFits · ["v1", "ingest-staging", streamId,
        partitionText partitionId, rangeText lo hi, stagingId ++ ".stage"]) =
        some [.literal "v1", .literal "ingest-staging", .named "stream_id" "", .partition,
          .range "", .named "staging_id" ".stage"] := by
      rw [knownLayouts, find?_cons_of_neg, find?_cons_of_pos]
      · rfl
      · exact fun h => nomatch h
    rw [hfind]
    refine forM_ok ?_
    simp only [zip_cons_cons, zip_nil_right, forall_mem_cons, not_mem_nil,
      false_implies, implies_true, and_true, SegmentLayout.check, true_and]
    refine ⟨?_, ?_, ?_, ?_⟩
    · rw [stripSuffix_nil]
      exact hs
    · rw [parsePrefixedU32_partitionText]
      rfl
    · rw [stripSuffix_nil, orInvalidExternalKey, ok_bind, parseOffsetRange_rangeText hr]
      rfl
    · rw [stripSuffix_append]
      exact hid
  unfold ObjectKey.parse
  rw [hn, hl, Option.isNone_eq_false_iff.mpr hlead]
  rfl

theorem parseIngestStaging_ingestStaging : ObjectKey.parseIngestStaging key.value =
      .ok (key, ⟨streamId, partitionId, lo, hi, stagingId⟩) := by
  obtain ⟨hs, hid, hr, -, hsegments⟩ := ingestStaging_ok h
  have hp : parseIngestStagingLayout key.value =
      .ok ⟨streamId, partitionId, lo, hi, stagingId⟩ := by
    unfold parseIngestStagingLayout
    rw [hsegments]
    dsimp only
    rw [if_pos (by decide), parseIngestStagingParts, hs, parsePrefixedU32_partitionText,
      parseOffsetRange_rangeText hr, stripSuffix_append, orInvalidExternalKey,
      ok_bind, ok_bind, ok_bind]
    dsimp only
    rw [ok_bind, hid]
    rfl
  unfold ObjectKey.parseIngestStaging
  rw [parse_ingestStaging h, hp]
  rfl

end

/-- Digests that tell the lengths of texts apart. -/
def lengthHash : Hash where
  hex bytes := padded 64 (bytes.length % 10 ^ 64)
  isHex bytes := by
    have hlt : bytes.length % 10 ^ 64 < 10 ^ 64 := Nat.mod_lt _ (by decide)
    have hdigits := isFixedWidthDigits_padded (by decide) hlt
    unfold isFixedWidthDigits at hdigits
    unfold isSha256Hex
    rw [Bool.and_eq_true, all_eq_true] at hdigits ⊢
    refine ⟨hdigits.1, ?_⟩
    intro c hc
    rw [isHexDigit, hdigits.2 c hc]
    rfl

end Velorix.Storage
