import Velorix.Meta.Checkpoint

/-! Leases of partitions as objects of a cluster: their names, the grant that a lease states, and
how a lease is created, renewed and acquired again. -/
namespace Velorix.Worker

open DecimalText Meta BlankText

structure PartitionLeaseKey where
  nameSpace : String
  viewId : String
  streamId : String
  partitionId : UInt32
  deriving DecidableEq

structure PartitionLeaseGrant where
  key : PartitionLeaseKey
  ownerId : String
  ownerEpoch : UInt64
  expiresAtUnixMs : UInt64
  deriving DecidableEq

structure LeaseAcquireRequest where
  key : PartitionLeaseKey
  ownerId : String
  nowUnixMs : UInt64
  ttlMs : UInt64

inductive LeaseError
  | invalidLeaseKey (field : String)
  | invalidOwnerId
  | invalidTtl (ttlMs : UInt64)
  | leaseTimeOverflow (nowUnixMs ttlMs : UInt64)
  | conflict (current : PartitionLeaseGrant)
  | leaseNotHeld
  deriving DecidableEq

inductive KubernetesLeaseError
  | lease (error : LeaseError)
  | api (operation message : String)
  | writeConflict
  | invalidLeaseBody (field : String)
  | invalidTimestamp (field : String)
  deriving DecidableEq

def KubernetesLeaseError.intoPartitionLeaseError : KubernetesLeaseError → LeaseError
  | .lease error => error
  | _ => .leaseNotHeld

structure LeaseSpec where
  acquireTime : Option ℤ
  holderIdentity : Option String
  leaseDurationSeconds : Option Int32
  leaseTransitions : Option Int32
  renewTime : Option ℤ
  deriving DecidableEq

/-- A lease object. The server counts the versions of an object. -/
structure Lease where
  name : Option String
  nameSpace : Option String
  resourceVersion : Option ℕ
  annotations : Option (HashMap String String)
  spec : Option LeaseSpec

def viewIdAnnotation : String := "control.velorix.io/view-id"

def streamIdAnnotation : String := "control.velorix.io/stream-id"

def partitionIdAnnotation : String := "control.velorix.io/partition-id"

def setPartitionAnnotations (lease : Lease) (key : PartitionLeaseKey) : Lease :=
  { lease with
    annotations := some ((((lease.annotations.getD ∅).insert viewIdAnnotation key.viewId).insert
      streamIdAnnotation key.streamId).insert partitionIdAnnotation
      (String.ofList (natText key.partitionId.toNat))) }

def utf8Bytes (value : String) : List UInt8 := value.toList.flatMap String.utf8EncodeChar

def dnsLabelChar (byte : UInt8) : Char :=
  let c := Char.ofNat byte.toNat
  if c.isLower || c.isDigit then c else if c.isUpper then c.toLower else '-'

/-- The characters of a label: no two dashes in a row, and not too many of them. -/
def pushLabelChar (maxLen : ℕ) (piece : List Char) (byte : UInt8) : List Char :=
  let next := dnsLabelChar byte
  if piece.length < maxLen && (next != '-' || piece.getLast? != some '-') then piece ++ [next]
  else piece

def dnsLabelPiece (value : String) (maxLen : ℕ) : String :=
  let piece := (utf8Bytes value).foldl (pushLabelChar maxLen) []
  let piece := ((piece.dropWhile (· == '-')).reverse.dropWhile (· == '-')).reverse
  if piece.isEmpty then "partition" else String.ofList piece

def stableHash (value : String) : UInt64 :=
  (utf8Bytes value).foldl (fun hash byte => (hash ^^^ byte.toUInt64) * 0x00000100000001b3)
    0xcbf29ce484222325

def hexDigit (n : ℕ) : Char := if n < 10 then digitChar n else Char.ofNat (97 + (n - 10))

def hex16 (n : UInt64) : String :=
  String.ofList ((List.range 16).reverse.map fun i => hexDigit (n.toNat / 16 ^ i % 16))

variable (key : PartitionLeaseKey)

def PartitionLeaseKey.leaseName : String :=
  let partition := String.ofList (natText key.partitionId.toNat)
  "velorix-" ++ dnsLabelPiece key.viewId 40 ++ "-" ++ dnsLabelPiece key.streamId 40 ++ "-p" ++
    partition ++ "-" ++ hex16 (stableHash (key.viewId ++ "/" ++ key.streamId ++ "/" ++ partition))

def partitionLeaseIdentity : String :=
  "coordination.k8s.io/v1/namespaces/" ++ key.nameSpace ++ "/leases/" ++ key.leaseName

abbrev LeaseResult := Except KubernetesLeaseError

def validateKeyField (field value : String) : LeaseResult Unit :=
  if isBlank value then .error (.lease (.invalidLeaseKey field)) else .ok ()

def PartitionLeaseKey.validate : LeaseResult Unit := do
  validateKeyField "namespace" key.nameSpace
  validateKeyField "view_id" key.viewId
  validateKeyField "stream_id" key.streamId

def LeaseAcquireRequest.validate (request : LeaseAcquireRequest) : LeaseResult Unit := do
  request.key.validate
  if isBlank request.ownerId then .error (.lease .invalidOwnerId)
  else if request.ttlMs = 0 then .error (.lease (.invalidTtl request.ttlMs))
  else match request.nowUnixMs.checkedAdd request.ttlMs with
  | none => .error (.lease (.leaseTimeOverflow request.nowUnixMs request.ttlMs))
  | some _ => .ok ()

def orInvalidBody {α : Type} (field : String) : Option α → LeaseResult α
  | some a => .ok a
  | none => .error (.invalidLeaseBody field)

def toInt32 (n : UInt64) : Option Int32 :=
  if n.toNat < 2 ^ 31 then some (.ofNat n.toNat) else none

def toUInt64 (n : ℤ) : Option UInt64 :=
  if 0 ≤ n ∧ n < 2 ^ 64 then some (.ofNat n.toNat) else none

def ttlSeconds (ttlMs : UInt64) : LeaseResult Int32 :=
  match ttlMs.checkedAdd 999 with
  | none => .error (.lease (.leaseTimeOverflow 0 ttlMs))
  | some sum => match toInt32 (sum / 1000) with
    | none => .error (.lease (.invalidTtl ttlMs))
    | some seconds => .ok seconds

/-- The last millisecond that a timestamp can tell. -/
def maxTimestampMs : ℕ := 253402207200999

def microTimeFromUnixMs (unixMs : UInt64) : LeaseResult ℤ :=
  if unixMs.toNat ≤ maxTimestampMs then .ok unixMs.toNat
  else .error (.invalidTimestamp "request.now_unix_ms")

def unixMsFromMicroTime (time : ℤ) (field : String) : LeaseResult UInt64 :=
  match toUInt64 time with
  | some unixMs => .ok unixMs
  | none => .error (.invalidTimestamp field)

def leaseSpec (lease : Lease) : LeaseResult LeaseSpec := orInvalidBody "spec" lease.spec

def leaseEpoch (lease : Lease) : LeaseResult UInt64 := do
  let spec ← leaseSpec lease
  let transitions ← orInvalidBody "spec.leaseTransitions" spec.leaseTransitions
  orInvalidBody "spec.leaseTransitions" (toUInt64 transitions.toInt)

def leaseDurationMs (spec : LeaseSpec) : LeaseResult UInt64 := do
  let seconds ← orInvalidBody "spec.leaseDurationSeconds" spec.leaseDurationSeconds
  if seconds.toInt ≤ 0 then .error (.invalidLeaseBody "spec.leaseDurationSeconds")
  else orInvalidBody "spec.leaseDurationSeconds" (toUInt64 (seconds.toInt * 1000))

def annotation (annotations : HashMap String String) (key : String) : LeaseResult String :=
  orInvalidBody key ((annotations.lookup key).filter fun value => !value.isEmpty)

/-- A decimal number of 32 bits, as it may stand in a text. -/
def parseUInt32 (value : String) : Option UInt32 :=
  let digits := (value.toList.dropPrefix? ['+']).getD value.toList
  if digits ≠ [] ∧ digits.all isDigit ∧ digitsValue digits < 2 ^ 32 then
    some (.ofNat (digitsValue digits))
  else none

def requestKeyFromLease (lease : Lease) : LeaseResult PartitionLeaseKey := do
  let nameSpace ← orInvalidBody "metadata.namespace" lease.nameSpace
  let annotations ← orInvalidBody "metadata.annotations" lease.annotations
  let partition ← annotation annotations partitionIdAnnotation
  let partitionId ← orInvalidBody partitionIdAnnotation (parseUInt32 partition)
  let viewId ← annotation annotations viewIdAnnotation
  let streamId ← annotation annotations streamIdAnnotation
  return ⟨nameSpace, viewId, streamId, partitionId⟩

def validateLeaseKey (lease : Lease) (key : PartitionLeaseKey) : LeaseResult Unit := do
  let bodyKey ← requestKeyFromLease lease
  if bodyKey ≠ key then .error (.invalidLeaseBody "metadata.annotations") else .ok ()

/-- The grant that a lease states, unless nobody holds it or it has expired. -/
def currentGrantFromLease (lease : Lease) (nowUnixMs : UInt64) :
    LeaseResult (Option PartitionLeaseGrant) := do
  validateLeaseKey lease key
  let spec ← leaseSpec lease
  let durationMs ← leaseDurationMs spec
  let ownerEpoch ← leaseEpoch lease
  match spec.holderIdentity.filter fun owner => !owner.isEmpty with
  | none => return none
  | some ownerId =>
    if ownerEpoch = 0 then .error (.invalidLeaseBody "spec.leaseTransitions")
    else
      let renewTime ← orInvalidBody "spec.renewTime" spec.renewTime
      let renewedAt ← unixMsFromMicroTime renewTime "spec.renewTime"
      let expiresAtUnixMs ← orInvalidBody "spec.leaseDurationSeconds"
        (renewedAt.checkedAdd durationMs)
      if expiresAtUnixMs ≤ nowUnixMs then return none
      else return some ⟨key, ownerId, ownerEpoch, expiresAtUnixMs⟩

def newLease (request : LeaseAcquireRequest) (name : String) : LeaseResult Lease := do
  let seconds ← ttlSeconds request.ttlMs
  let now ← microTimeFromUnixMs request.nowUnixMs
  return setPartitionAnnotations
    { name := some name
      nameSpace := some request.key.nameSpace
      resourceVersion := none
      annotations := none
      spec := some
        { acquireTime := some now
          holderIdentity := some request.ownerId
          leaseDurationSeconds := some seconds
          leaseTransitions := some 1
          renewTime := some now } } request.key

/-- The epoch of the holder: it grows whenever nobody holds the lease any more. -/
def nextEpoch (request : LeaseAcquireRequest) (previous : Option PartitionLeaseGrant)
    (previousEpoch : UInt64) : LeaseResult UInt64 :=
  match previous with
  | some current =>
    if current.ownerId ≠ request.ownerId then .error (.lease (.conflict current))
    else .ok current.ownerEpoch
  | none => orInvalidBody "spec.leaseTransitions" (previousEpoch.checkedAdd 1)

def renewOrReacquireLease (request : LeaseAcquireRequest) (lease : Lease) : LeaseResult Lease := do
  validateLeaseKey lease request.key
  let previous ← currentGrantFromLease request.key lease request.nowUnixMs
  let previousEpoch ← leaseEpoch lease
  let ownerEpoch ← nextEpoch request previous previousEpoch
  let spec ← leaseSpec lease
  let seconds ← ttlSeconds request.ttlMs
  let transitions ← orInvalidBody "spec.leaseTransitions" (toInt32 ownerEpoch)
  let now ← microTimeFromUnixMs request.nowUnixMs
  let spec : LeaseSpec :=
    { acquireTime := if spec.acquireTime.isNone || previous.isNone then some now
        else spec.acquireTime
      holderIdentity := some request.ownerId
      leaseDurationSeconds := some seconds
      leaseTransitions := some transitions
      renewTime := some now }
  return { lease with spec := some spec }

end Velorix.Worker
