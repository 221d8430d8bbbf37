import Velorix.Foundation.DecimalText
import Velorix.Foundation.Result

/-! Keys of the objects in the store. Every kind of object has its own layout under the
namespace `v1`; a key is read segment by segment, from the left. -/
namespace Velorix.Storage

open DecimalText

inductive ObjectKeyError
  | emptySegment (name : String)
  | unsafeSegment (name value : String)
  | invalidOffsetRange (startOffsetInclusive endOffsetExclusive : UInt64)
  | invalidExternalKey (value : String)
  deriving DecidableEq

def u64Digits (n : UInt64) : String := String.ofList (natText n.toNat)

def ObjectKeyError.message : ObjectKeyError → String
  | .emptySegment name => "object key segment `" ++ name ++ "` is empty"
  | .unsafeSegment name value =>
    "object key segment `" ++ name ++ "` contains path-unsafe value `" ++ value ++ "`"
  | .invalidOffsetRange startOffset endOffset =>
    "offset range must be nonempty: start=" ++ u64Digits startOffset ++ ", end=" ++
      u64Digits endOffset
  | .invalidExternalKey value =>
    "object key must use the v1 namespace and have no leading slash: " ++ value

def partitionWidth : ℕ := 10

def checkpointWidth : ℕ := 20

def offsetWidth : ℕ := 20

def segments (value : String) : List String := (value.toList.splitOn '/').map String.ofList

def stripPrefix (lead value : String) : Option String :=
  (value.toList.dropPrefix? lead.toList).map String.ofList

def stripSuffix (suffix value : String) : Option String :=
  (value.toList.dropSuffix? suffix.toList).map String.ofList

/-- The characters of a segment that is safe in a path. -/
def isSegmentChar (c : Char) : Bool := c.isAlphanum || c == '-' || c == '_' || c == '.'

def validateSegment (name value : String) : Except ObjectKeyError Unit :=
  if value.isEmpty then .error (.emptySegment name)
  else if value == "." || value == ".." || !value.toList.all isSegmentChar then
    .error (.unsafeSegment name value)
  else .ok ()

def isFixedWidthDigits (value : String) (width : ℕ) : Bool :=
  value.length == width && value.toList.all isDigit

/-- A number of fixed width. It may still be too large for its type. -/
def parseFixed (bound : ℕ) (name value : String) (width : ℕ) : Except ObjectKeyError ℕ :=
  if !isFixedWidthDigits value width then .error (.unsafeSegment name value)
  else if digitsValue value.toList < bound then .ok (digitsValue value.toList)
  else .error (.invalidExternalKey value)

def parseFixedU32 (name value : String) (width : ℕ) : Except ObjectKeyError UInt32 :=
  UInt32.ofNat <$> parseFixed (2 ^ 32) name value width

def parseFixedU64 (name value : String) (width : ℕ) : Except ObjectKeyError UInt64 :=
  UInt64.ofNat <$> parseFixed (2 ^ 64) name value width

def orInvalidExternalKey {α : Type} (value : String) : Option α → Except ObjectKeyError α
  | some a => .ok a
  | none => .error (.invalidExternalKey value)

def parsePrefixedU32 (name value lead : String) (width : ℕ) : Except ObjectKeyError UInt32 := do
  let digits ← orInvalidExternalKey value (stripPrefix lead value)
  parseFixedU32 name digits width

def parsePrefixedU64 (name value lead : String) (width : ℕ) : Except ObjectKeyError UInt64 := do
  let digits ← orInvalidExternalKey value (stripPrefix lead value)
  parseFixedU64 name digits width

def validateOffsetRange (startOffsetInclusive endOffsetExclusive : UInt64) :
    Except ObjectKeyError Unit :=
  if startOffsetInclusive ≥ endOffsetExclusive then
    .error (.invalidOffsetRange startOffsetInclusive endOffsetExclusive)
  else .ok ()

def splitOnce (c : Char) (value : String) : Option (String × String) :=
  if value.toList.contains c then
    some (String.ofList (value.toList.takeWhile (· ≠ c)),
      String.ofList ((value.toList.dropWhile (· ≠ c)).drop 1))
  else none

def parseOffsetRange (value range : String) : Except ObjectKeyError (UInt64 × UInt64) := do
  let parts ← orInvalidExternalKey value (splitOnce '-' range)
  let startOffset ← parseFixedU64 "start_offset_inclusive" parts.1 offsetWidth
  let endOffset ← parseFixedU64 "end_offset_exclusive" parts.2 offsetWidth
  validateOffsetRange startOffset endOffset
  return (startOffset, endOffset)

def isHexDigit (c : Char) : Bool :=
  isDigit c || ('a' ≤ c && c ≤ 'f') || ('A' ≤ c && c ≤ 'F')

def isSha256Hex (hash : String) : Bool := hash.length == 64 && hash.toList.all isHexDigit

def parseHashFile (value suffix file : String) : Except ObjectKeyError String := do
  let hash ← orInvalidExternalKey value (stripSuffix suffix file)
  if isSha256Hex hash then return hash else .error (.invalidExternalKey value)

inductive SegmentLayout
  | literal (text : String)
  | named (name suffix : String)
  | partition
  | version (name lead suffix : String)
  | pageIndex
  | range (suffix : String)
  | hash (suffix : String)

/-- The checks of one segment of the key `value`. -/
def SegmentLayout.check (value : String) : SegmentLayout → String → Except ObjectKeyError Unit
  | .literal _, _ => .ok ()
  | .named name suffix, segment => do
    let text ← orInvalidExternalKey value (stripSuffix suffix segment)
    validateSegment name text
  | .partition, segment => do
    let _ ← parsePrefixedU32 "partition_id" segment "p=" partitionWidth
  | .version name lead suffix, segment => do
    let text ← orInvalidExternalKey value (stripSuffix suffix segment)
    let _ ← if lead.isEmpty then parseFixedU64 name text checkpointWidth
      else parsePrefixedU64 name text lead checkpointWidth
  | .pageIndex, segment => do
    let _ ← parseFixedU32 "page_index" segment partitionWidth
  | .range suffix, segment => do
    let text ← orInvalidExternalKey value (stripSuffix suffix segment)
    let _ ← parseOffsetRange value text
  | .hash suffix, segment => do
    let _ ← parseHashFile value suffix segment

def SegmentLayout.fits : SegmentLayout → String → Bool
  | .literal text, segment => text == segment
  | _, _ => true

/-- The layouts of the objects of a standing runtime at an epoch. -/
def standingRuntimeLayout (kind suffix : String) : List SegmentLayout :=
  [.literal "v1", .literal kind, .named "tenant_id" "", .named "program_id" "",
    .named "view_id" "", .literal "epochs", .version "logical_epoch" "" "", .literal "sha256",
    .hash suffix]

def knownLayouts : List (List SegmentLayout) :=
  [[.literal "v1", .literal "ingest", .named "stream_id" "", .partition, .range ".batch"],
    [.literal "v1", .literal "ingest-staging", .named "stream_id" "", .partition, .range "",
      .named "staging_id" ".stage"],
    [.literal "v1", .literal "ingest-admission", .named "stream_id" "", .partition,
      .literal "ranges", .range ".admission.json"],
    [.literal "v1", .literal "ingest-admission", .named "stream_id" "", .partition,
      .literal "ranges", .range "", .literal "expiry-decisions",
      .named "decision_id" ".expiry.json"],
    [.literal "v1", .literal "ingest-epochs", .literal "sha256", .hash ".epoch.json"],
    [.literal "v1", .literal "ingest-epoch-convergence", .literal "sha256", .hash "",
      .named "tenant_id" "", .named "program_id" "", .named "view_id" ".convergence.json"],
    [.literal "v1", .literal "ingest-epoch-runtime-failures", .literal "sha256", .hash "",
      .named "tenant_id" "", .named "program_id" "", .named "view_id" ".failure.json"],
    [.literal "v1", .literal "state", .named "owner" "", .partition,
      .version "checkpoint_version" "chk=" "", .named "object_id" ".state"],
    [.literal "v1", .literal "outputs", .named "stream_id" "", .partition,
      .version "checkpoint_version" "chk=" "", .range "", .named "object_id" ".output"],
    [.literal "v1", .literal "tmp", .version "checkpoint_version" "" "",
      .named "attempt_or_object_id" "", .named "kind" ""],
    [.literal "v1", .literal "checkpoints", .version "checkpoint_version" "" ".manifest"],
    [.literal "v1", .literal "checkpoint-index", .literal "latest-candidate.json"],
    [.literal "v1", .literal "checkpoint-lifecycle",
      .version "checkpoint_version" "" ".status.json"],
    [.literal "v1", .literal "checkpoint-gc-transitions", .version "checkpoint_version" "" "",
      .literal "transitions", .named "transition_id" ".transition.json"],
    [.literal "v1", .literal "checkpoint-retention",
      .version "checkpoint_version" "" ".retention.json"],
    [.literal "v1", .literal "checkpoint-recovery", .version "checkpoint_version" "" "",
      .literal "transitions", .named "transition_id" ".transition.json"],
    [.literal "v1", .literal "gc-runs", .named "run_id" ".run.json"],
    [.literal "v1", .literal "ownership", .named "stream_id" "", .partition,
      .version "owner_epoch" "epoch=" ".claim"],
    [.literal "v1", .literal "queries", .named "query_id" ".query.json"],
    [.literal "v1", .literal "tables", .named "table_id" ".table.json"],
    [.literal "v1", .literal "query-policy", .named "tenant_id" "",
      .named "query_policy_id" ".json"],
    [.literal "v1", .literal "views", .named "view_id" "", .literal "active.json"],
    [.literal "v1", .literal "views", .named "view_id" "", .literal "spec-sha256",
      .hash ".view.json"],
    standingRuntimeLayout "standing-runtime-checkpoints" ".checkpoint.arrow",
    [.literal "v1", .literal "standing-runtime-checkpoints", .named "tenant_id" "",
      .named "program_id" "", .named "view_id" "", .literal "latest.json"],
    standingRuntimeLayout "standing-runtime-state-payloads" ".state-payload.arrow",
    standingRuntimeLayout "standing-runtime-output-manifests" ".output-manifest.json",
    [.literal "v1", .literal "standing-runtime-output-pages", .named "tenant_id" "",
      .named "program_id" "", .named "view_id" "", .literal "epochs",
      .version "logical_epoch" "" "", .literal "pages", .pageIndex, .literal "sha256",
      .hash ".output-page.arrow"],
    standingRuntimeLayout "standing-runtime-output-deltas" ".output-delta.arrow",
    [.literal "v1", .literal "relations", .named "relation_id" "", .literal "versions",
      .named "relation_version" ".relation.json"]]

def layoutFits (layout : List SegmentLayout) (found : List String) : Bool :=
  layout.length == found.length && (layout.zip found).all fun pair => pair.1.fits pair.2

def validateKnownLayout (value : String) : Except ObjectKeyError Unit :=
  match knownLayouts.find? (layoutFits · (segments value)) with
  | some layout => (layout.zip (segments value)).forM fun pair => pair.1.check value pair.2
  | none => .error (.invalidExternalKey value)

structure ObjectKey where
  value : String
  deriving DecidableEq

def ObjectKey.parse (value : String) : Except ObjectKeyError ObjectKey :=
  if (stripPrefix "v1/" value).isNone || (segments value).any String.isEmpty then
    .error (.invalidExternalKey value)
  else do
    validateKnownLayout value
    return ⟨value⟩

/-- The parts of the keys that end in a content hash. -/
structure StandingRuntimeKeyParts where
  tenantId : String
  programId : String
  viewId : String
  logicalEpoch : UInt64
  contentHash : String
  deriving DecidableEq

/-- The parts of a key of one kind, read after the key itself was accepted. -/
def parseStandingRuntimeParts (kind suffix value : String) :
    Except ObjectKeyError StandingRuntimeKeyParts :=
  match segments value with
  | [v1, found, tenantId, programId, viewId, epochs, logicalEpoch, sha256, file] =>
    if v1 == "v1" && found == kind && epochs == "epochs" && sha256 == "sha256" then do
      validateSegment "tenant_id" tenantId
      validateSegment "program_id" programId
      validateSegment "view_id" viewId
      let logicalEpoch ← parseFixedU64 "logical_epoch" logicalEpoch checkpointWidth
      let hash ← parseHashFile value suffix file
      return ⟨tenantId, programId, viewId, logicalEpoch, "sha256:" ++ hash⟩
    else .error (.invalidExternalKey value)
  | _ => .error (.invalidExternalKey value)

def parseStandingRuntimeKey (kind suffix value : String) :
    Except ObjectKeyError StandingRuntimeKeyParts := do
  let _ ← ObjectKey.parse value
  parseStandingRuntimeParts kind suffix value

def ObjectKey.parseStandingRuntimeCheckpoint :
    String → Except ObjectKeyError StandingRuntimeKeyParts :=
  parseStandingRuntimeKey "standing-runtime-checkpoints" ".checkpoint.arrow"

def ObjectKey.parseStandingRuntimeOutputManifest :
    String → Except ObjectKeyError StandingRuntimeKeyParts :=
  parseStandingRuntimeKey "standing-runtime-output-manifests" ".output-manifest.json"

def ObjectKey.parseStandingRuntimeOutputDelta :
    String → Except ObjectKeyError StandingRuntimeKeyParts :=
  parseStandingRuntimeKey "standing-runtime-output-deltas" ".output-delta.arrow"

end Velorix.Storage
