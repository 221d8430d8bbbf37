import Velorix.Control.RelationPublisher

/-! Publishers at work: any number of them over one metadata store and one create-only object
store. A reply may be lost after the request took effect, or the request may fail. -/
namespace Velorix.Control

open Meta Storage Program

/-- A publisher, and the memory that its tasks share. The lock around the token is left out, so
the tasks of one publisher interleave more freely than they can. -/
structure Publisher where
  config : RelationIngestPublisherConfig
  valid : validateConfig config = .ok ()
  token : Option AuthorityToken := none
  restartReacquireAttempted : Bool := false
  capabilityValidated : Bool := false

/-- `requests` lists the requests that changed the metadata store or could have, in the order
they took effect. -/
structure World where
  capability : RelationIngestCapability
  metadata : InMemoryMetaState := {}
  requests : List Event := []
  objects : HashMap ObjectKey Bytes := ∅
  publishers : ℕ → Option Publisher := fun _ => none

namespace World

def record (world : World) (metadata : InMemoryMetaState) (event : Event) : World :=
  { world with metadata, requests := world.requests ++ [event] }

def update (world : World) (publisher : ℕ) (change : Publisher → Publisher) : World :=
  { world with
    publishers :=
      Function.update world.publishers publisher ((world.publishers publisher).map change) }

/-- What a call does when nothing goes wrong. -/
def answer (world : World) : (op : Op) → Reply op × World
  | .readMetaStoreCapabilities => (.ok world.capability, world)
  | .readRelationPartitionAuthority key =>
    (world.metadata.readRelationPartitionAuthority key, world)
  | .acquireRelationPartitionAuthority request explicitReacquire =>
    let answered := world.metadata.acquireRelationPartitionAuthority request explicitReacquire
    (answered.2, world.record answered.1
      (.acquireRelationPartitionAuthority request explicitReacquire answered.2))
  | .reserveRelationAuthoritativeIngestRange request =>
    let answered := world.metadata.reserveRelationAuthoritativeIngestRange request
    (answered.2, world.record answered.1
      (.reserveRelationAuthoritativeIngestRange request answered.2))
  | .publishRelationIngestReservation request =>
    let answered := world.metadata.publishRelationIngestReservation request
    (answered.2, world.record answered.1 (.publishRelationIngestReservation request answered.2))
  | .readRelationAuthoritativeIngestPublication requestId =>
    (world.metadata.readRelationAuthoritativeIngestPublication requestId, world)
  | .put key payload =>
    match world.objects.lookup key with
    | some _ => (.error .alreadyExists, world)
    | none => (.ok (), { world with objects := world.objects.insert key payload })
  | .get key =>
    match world.objects.lookup key with
    | some payload => (.ok payload, world)
    | none => (.error .notFound, world)
  | .loadCapabilityValidated publisher =>
    ((world.publishers publisher).any (·.capabilityValidated), world)
  | .storeCapabilityValidated publisher =>
    ((), world.update publisher fun p => { p with capabilityValidated := true })
  | .swapRestartReacquireAttempted publisher =>
    ((world.publishers publisher).any (·.restartReacquireAttempted),
      world.update publisher fun p => { p with restartReacquireAttempted := true })
  | .loadToken publisher => ((world.publishers publisher).bind (·.token), world)
  | .storeToken publisher token => ((), world.update publisher fun p => { p with token })

end World

def Op.Fault : (op : Op) → Reply op → Prop
  | .readMetaStoreCapabilities, reply => ∃ error, reply = .error error
  | .readRelationPartitionAuthority _, reply => ∃ error, reply = .error error
  | .acquireRelationPartitionAuthority _ _, reply => ∃ error, reply = .error error
  | .reserveRelationAuthoritativeIngestRange _, reply => ∃ error, reply = .error error
  | .publishRelationIngestReservation _, reply => ∃ error, reply = .error error
  | .readRelationAuthoritativeIngestPublication _, reply => ∃ error, reply = .error error
  | .put _ _, reply => ∃ error, reply = .error error ∧ error ≠ .alreadyExists
  | .get _, reply => ∃ error, reply = .error error ∧ error ≠ .notFound
  | .loadCapabilityValidated _, _ => False
  | .storeCapabilityValidated _, _ => False
  | .swapRestartReacquireAttempted _, _ => False
  | .loadToken _, _ => False
  | .storeToken _ _, _ => False

abbrev Calls : World → (op : Op) → Reply op → World → Prop := Unreliable World.answer Op.Fault

inductive PublisherCall
  | start
  | startAfterRestart
  | renew
  | publish (startOffsetInclusive endOffsetExclusive : UInt64) (payload : Bytes)

structure Invocation where
  publisher : ℕ
  config : RelationIngestPublisherConfig
  call : PublisherCall

inductive Outcome
  | authority (result : Fallible AuthorityToken)
  | published (result : Fallible PublishedRelationIngest)
  deriving DecidableEq

def Invocation.body (hash : Hash) (invocation : Invocation) : Program Op Reply Outcome :=
  match invocation.call with
  | .start => do return .authority (← start invocation.publisher invocation.config)
  | .startAfterRestart => do
    return .authority (← startAfterRestart invocation.publisher invocation.config)
  | .renew => do return .authority (← renew invocation.publisher invocation.config)
  | .publish startOffset endOffset payload => do
    return .published
      (← publish hash invocation.publisher invocation.config startOffset endOffset payload)

/-- The requests about relation ingest, which only publishers make. -/
def isRelationIngest : Event → Bool
  | .acquireRelationPartitionAuthority .. => true
  | .reserveRelationAuthoritativeIngestRange .. => true
  | .publishRelationIngestReservation .. => true
  | _ => false

/-- A publisher is created, or somebody else uses the metadata store. -/
inductive Move
  | created (publisher : ℕ) (config : RelationIngestPublisherConfig)
  | metadata (event : Event)

inductive Moves (external : External) : World → Move → World → Prop
  | created {world publisher config} (hfree : world.publishers publisher = none)
      (hvalid : validateConfig config = .ok ()) :
      Moves external world (.created publisher config)
        { world with
          publishers := Function.update world.publishers publisher (some ⟨config, hvalid, none,
            false, false⟩) }
  | metadata {world event next} (hforeign : isRelationIngest event = false)
      (h : Step external world.metadata event next) :
      Moves external world (.metadata event) (world.record next event)

def publisherSystem (external : External) (hash : Hash) :
    System Invocation Op Reply Outcome Move World where
  body := Invocation.body hash
  accepts world invocation := ∃ publisher, world.publishers invocation.publisher = some publisher ∧
    publisher.config = invocation.config
  calls := Calls
  moves := Moves external

/-- Every call is answered; only publishers are created from outside. -/
def publisherDriver (external : External) (hash : Hash) :
    Pool.Driver (publisherSystem external hash) where
  answer := World.answer
  admits world invocation :=
    (world.publishers invocation.publisher).any fun publisher =>
      publisher.config = invocation.config
  perform world
    | .created publisher config =>
      if hvalid : validateConfig config = .ok () then
        match world.publishers publisher with
        | none => some { world with
            publishers := Function.update world.publishers publisher (some ⟨config, hvalid, none,
              false, false⟩) }
        | some _ => none
      else none
    | .metadata _ => none
  calls := .delivered
  accepts {world invocation} h := by
    cases hlookup : world.publishers invocation.publisher with
    | none => simp [hlookup] at h
    | some publisher =>
      rw [hlookup] at h
      exact ⟨publisher, hlookup, of_decide_eq_true h⟩
  moves {world move later} h := by
    cases move with
    | created publisher config =>
      dsimp only at h
      split_ifs at h with hvalid
      split at h
      · rename_i hfree
        cases h
        exact .created hfree hvalid
      · cases h
    | metadata event => cases h

def orders : RelationIngestPublisherConfig :=
  ⟨"ns", "r", "1", "f", "s", 0, "o", 100⟩

def durable : RelationIngestCapability := ⟨"b", true, true, true⟩

end Velorix.Control
