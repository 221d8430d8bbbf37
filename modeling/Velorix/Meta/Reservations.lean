import Velorix.Meta.Effects
import Mathlib.Order.CompletePartialOrder

/-! The reservations of the three ingest paths: what their tables hold, and when the accepted
ranges share neither offsets nor batch keys. -/
namespace Velorix.Meta

open InMemoryMetaState HashMap List

variable {rs : List IngestRangeReservation}

namespace IngestRangeReservation

variable {a b : IngestRangeReservation}

def offsets (reservation : IngestRangeReservation) : Set UInt64 :=
  Set.Ico reservation.startOffsetInclusive reservation.endOffsetExclusive

theorem overlaps_iff : a.overlaps b = true ↔ a.startOffsetInclusive < b.endOffsetExclusive ∧
      b.startOffsetInclusive < a.endOffsetExclusive := by
  simp only [overlaps, Bool.and_eq_true, decide_eq_true_eq]

theorem not_overlaps_iff : a.overlaps b = false ↔ ¬ (a.startOffsetInclusive < b.endOffsetExclusive ∧
      b.startOffsetInclusive < a.endOffsetExclusive) := by
  rw [Bool.eq_false_iff, ne_eq, overlaps_iff]

theorem overlaps_comm : a.overlaps b = b.overlaps a := by
  rw [Bool.eq_iff_iff, overlaps_iff, overlaps_iff, and_comm]

theorem disjoint_of_not_overlaps (h : a.overlaps b = false) : Disjoint a.offsets b.offsets := by
  rw [Set.disjoint_left]
  intro offset ha hb
  exact not_overlaps_iff.mp h ⟨lt_of_le_of_lt ha.1 hb.2, lt_of_le_of_lt hb.1 ha.2⟩

theorem start_lt_end_of_valid (h : a.validate = .ok ()) :
    a.startOffsetInclusive < a.endOffsetExclusive := by
  unfold validate at h
  simp only [checks_ok] at h
  obtain ⟨-, -, -, -, -, -, hr⟩ := h
  have hr := require_ok hr
  rwa [decide_eq_true_eq] at hr

theorem overlaps_self_of_valid (h : a.validate = .ok ()) : a.overlaps a = true :=
  overlaps_iff.mpr ⟨start_lt_end_of_valid h, start_lt_end_of_valid h⟩

end IngestRangeReservation

/-- Reservations of one partition that do not overlap. -/
def Apart (a b : IngestRangeReservation) : Prop := a.slot = b.slot → a.overlaps b = false

theorem Apart.symm {a b : IngestRangeReservation} (h : Apart a b) : Apart b a := by
  intro hs
  rw [IngestRangeReservation.overlaps_comm]
  exact h hs.symm

/-- A table files valid ranges under their partition, and no two of a partition overlap. -/
structure TableFiled (ranges : String × UInt32 → List IngestRangeReservation) : Prop where
  valid : ∀ slot, ∀ held ∈ ranges slot, held.slot = slot ∧ held.validate = .ok ()
  apart : ∀ slot, (ranges slot).Pairwise Apart

/-- What holds of the tables and their indexes after any run. -/
structure Filed (state : InMemoryMetaState) : Prop where
  legacy : TableFiled state.reservationsAt
  relation : TableFiled state.relationReservationsAt
  legacyIndexed : ∀ slot, ∀ held ∈ state.reservationsAt slot,
    (state.legacyBatchKeys.lookup held.batchKey).isSome
  legacyHeld : ∀ key held, state.legacyBatchKeys.lookup key = some held →
    held ∈ state.reservationsAt held.slot
  relationIndexed : ∀ slot, ∀ held ∈ state.relationReservationsAt slot,
    state.relationBatchKeys.lookup held.batchKey = some held

section Tables
variable {table : HashMap (String × UInt32) (List IngestRangeReservation)}

variable {external : External} {state next : InMemoryMetaState} {event : Event}
  {r held : IngestRangeReservation} {i : String × UInt32}

theorem filed_empty : Filed {} := by
  constructor
  iterate 2
    exact ⟨fun _ _ hm => absurd hm not_mem_nil, fun _ => List.Pairwise.nil⟩
  · exact fun _ _ hm => absurd hm not_mem_nil
  · intro key held hl
    cases hl
  · exact fun _ _ hm => absurd hm not_mem_nil

/-- The ranges that a table has of a partition. -/
def rangesAt (table : HashMap (String × UInt32) (List IngestRangeReservation))
    (slot : String × UInt32) : List IngestRangeReservation :=
  (table.lookup slot).getD []

@[simp]
theorem rangesAt_insert : rangesAt (table.insert r.slot rs) i =
    if i = r.slot then rs else rangesAt table i := by
  unfold rangesAt
  rw [lookup_insert_eq]
  split_ifs <;> rfl

theorem mem_rangesAt_push (hp : rs.Perm (rangesAt table r.slot ++ [r])) :
    held ∈ rangesAt (table.insert r.slot rs) i ↔
      held ∈ rangesAt table i ∨ (held = r ∧ i = r.slot) := by
  rw [rangesAt_insert]
  split_ifs with hs
  · rw [hp.mem_iff, mem_append, mem_singleton, ← hs]
    simp only [and_true]
  · simp only [hs, and_false, or_false]

theorem TableFiled.push (h : TableFiled (rangesAt table)) (hv : r.validate = .ok ())
    (hf : (rangesAt table r.slot).any (·.overlaps r) = false)
    (hp : rs.Perm (rangesAt table r.slot ++ [r])) :
    TableFiled (rangesAt (table.insert r.slot rs)) := by
  constructor
  · intro i held hm
    rcases (mem_rangesAt_push hp).mp hm with hold | ⟨rfl, rfl⟩
    · exact h.valid i held hold
    · exact ⟨rfl, hv⟩
  · intro i
    rw [rangesAt_insert]
    split_ifs with hs
    · rw [hp.pairwise_iff Apart.symm, pairwise_append]
      refine ⟨h.apart _, pairwise_singleton _ _, ?_⟩
      intro held hm new hn
      rw [mem_singleton.mp hn]
      intro _
      exact Bool.eq_false_iff.mpr (any_eq_false.mp hf held hm)
    · exact h.apart i

theorem mem_flatten_values : held ∈ table.values.flatten ↔ ∃ i, held ∈ rangesAt table i := by
  rw [mem_flatten]
  unfold rangesAt
  constructor
  · rintro ⟨rs, hr, hh⟩
    obtain ⟨i, hs⟩ := mem_values_iff.mp hr
    refine ⟨i, ?_⟩
    rw [hs]
    exact hh
  · rintro ⟨i, hh⟩
    cases hs : table.lookup i with
    | none =>
      rw [hs] at hh
      cases hh
    | some rs =>
      rw [hs] at hh
      exact ⟨rs, mem_values_iff.mpr ⟨i, hs⟩, hh⟩

theorem apart_flatten_values (h : TableFiled (rangesAt table)) :
    table.values.flatten.Pairwise Apart := by
  have he (i : String × UInt32) (rs : List IngestRangeReservation)
      (hm : ⟨i, rs⟩ ∈ table.entries) : rangesAt table i = rs := by
    unfold rangesAt
    rw [AList.mem_lookup_iff.mpr hm, Option.getD_some]
  rw [pairwise_flatten]
  constructor
  · intro rs hr
    obtain ⟨⟨i, _⟩, hm, rfl⟩ := mem_map.mp hr
    have hapart := h.apart i
    rwa [he i _ hm] at hapart
  · unfold HashMap.values
    rw [pairwise_map]
    apply (nodupKeys_iff_pairwise.mp table.nodupKeys).imp_of_mem
    rintro ⟨i, rs⟩ ⟨i', rs'⟩ hm hm' hne a ha b hb hs
    -- ranges of different entries are of different partitions
    rw [← he i rs hm] at ha
    rw [← he i' rs' hm'] at hb
    exact absurd (((h.valid i a ha).1.symm.trans hs).trans (h.valid i' b hb).1) hne

theorem not_mem_of_fresh (hv : r.validate = .ok ())
    (hf : rs.any (·.overlaps r) = false) : r ∉ rs := by
  intro hm
  exact any_eq_false.mp hf r hm
    (IngestRangeReservation.overlaps_self_of_valid hv)

theorem mem_reservationsAt_push :
    held ∈ (state.pushReservation r).reservationsAt i ↔
      held ∈ state.reservationsAt i ∨ (held = r ∧ i = r.slot) :=
  mem_rangesAt_push (perm_insertionSort _ _)

theorem Filed.push (h : Filed state) (hv : r.validate = .ok ())
    (hf : (state.reservationsAt r.slot).any (·.overlaps r) = false) :
    Filed (state.pushReservation r) := by
  refine ⟨h.legacy.push hv hf (perm_insertionSort _ _), h.relation, ?_, ?_, h.relationIndexed⟩
  · intro i held hm
    show ((state.legacyBatchKeys.insert r.batchKey r).lookup _).isSome
    rw [lookup_insert_eq]
    split_ifs with hkey
    · rfl
    · rcases mem_reservationsAt_push.mp hm with hold | ⟨rfl, -⟩
      · exact h.legacyIndexed i held hold
      · exact absurd rfl hkey
  · intro key held hl
    apply mem_reservationsAt_push.mpr
    rcases of_lookup_insert hl with ⟨-, rfl⟩ | hl
    · exact .inr ⟨rfl, rfl⟩
    · exact .inl (h.legacyHeld key held hl)

theorem reservationsAt_rehashed (h : Rehashed state next) :
    next.reservationsAt = state.reservationsAt := by
  funext i
  unfold reservationsAt
  rw [h.ingestReservations.lookup_eq]

theorem relationReservationsAt_rehashed (h : Rehashed state next) :
    next.relationReservationsAt = state.relationReservationsAt := by
  funext i
  unfold relationReservationsAt
  rw [h.relationIngestReservations.lookup_eq]

theorem Filed.rehashed (h : Filed state) (hr : Rehashed state next) : Filed next := by
  have hlk : next.legacyBatchKeys = state.legacyBatchKeys := by rw [hr.rest]
  have hrk : next.relationBatchKeys = state.relationBatchKeys := by rw [hr.rest]
  constructor
  · rw [reservationsAt_rehashed hr]
    exact h.legacy
  · rw [relationReservationsAt_rehashed hr]
    exact h.relation
  · rw [reservationsAt_rehashed hr, hlk]
    exact h.legacyIndexed
  · rw [reservationsAt_rehashed hr, hlk]
    exact h.legacyHeld
  · rw [relationReservationsAt_rehashed hr, hrk]
    exact h.relationIndexed

/-- The tables of the relation path with one more range. -/
def withRelationReservation (state : InMemoryMetaState) (reservation : IngestRangeReservation) :
    InMemoryMetaState :=
  { state with
    relationBatchKeys := state.relationBatchKeys.insert reservation.batchKey reservation
    relationIngestReservations := state.relationIngestReservations.insert reservation.slot
      (state.relationReservationsAt reservation.slot ++ [reservation]) }

theorem mem_relationReservationsAt_push :
    held ∈ (withRelationReservation state r).relationReservationsAt i ↔
      held ∈ state.relationReservationsAt i ∨ (held = r ∧ i = r.slot) :=
  mem_rangesAt_push (.refl _)

theorem Filed.pushRelation (h : Filed state) (hv : r.validate = .ok ())
    (hf : (state.relationReservationsAt r.slot).any (·.overlaps r) = false)
    (hkey : state.relationBatchKeys.lookup r.batchKey = none) :
    Filed (withRelationReservation state r) := by
  refine ⟨h.legacy, h.relation.push hv hf (.refl _), h.legacyIndexed, h.legacyHeld, ?_⟩
  intro i held hm
  rcases mem_relationReservationsAt_push.mp hm with hold | ⟨rfl, -⟩
  · exact lookup_insert_of_some hkey (h.relationIndexed i held hold)
  · exact AList.lookup_insert _

theorem valid_of_validateRelation {q : ReserveAuthoritativeRequest}
    (h : q.validateRelation = .ok ()) : q.reservation.validate = .ok () :=
  (checks_ok.mp h).1

theorem Filed.step (h : Filed state) (he : Effect external state event next) : Filed next := by
  cases he with
  | reserved hv hs hf hepoch | reservedAuthoritative hv hf =>
    exact { h.push hv hf with }
  | overflowed hv hs hf hepoch => exact h.push hv hf
  | reservedRelation hv hc hlive hn hl hrel hlk hrk =>
    exact { h.pushRelation (valid_of_validateRelation hv) hrel hrk with }
  | rehashed hr => exact h.rehashed hr
  | _ => exact { h with }

end Tables

/-- The reservation that an event was answered to have reserved. -/
def Event.accepted : Event → Option IngestRangeReservation
  | .reserveIngestRange reservation (.ok .reserved) => some reservation
  | .reserveAuthoritativeIngestRange request (.ok .reserved) => some request.reservation
  | .reserveRelationAuthoritativeIngestRange request (.ok .reserved) => some request.reservation
  | _ => none

def accepted (log : List Event) : List IngestRangeReservation := log.filterMap Event.accepted

/-- No two different ranges of a partition share an offset, or any two a batch key. -/
structure RangesApart (ranges : List IngestRangeReservation) : Prop where
  disjoint : ∀ a ∈ ranges, ∀ b ∈ ranges, a ≠ b → a.slot = b.slot → Disjoint a.offsets b.offsets
  batchKeys : ∀ a ∈ ranges, ∀ b ∈ ranges, a.batchKey = b.batchKey → a = b

/-- The relation path has reserved offsets of the range for another one, or another
reservation has its batch key. -/
def InMemoryMetaState.clashes (state : InMemoryMetaState)
    (reservation : IngestRangeReservation) : Bool :=
  (state.relationReservationsAt reservation.slot).any
      (fun held => held.overlaps reservation && held != reservation) ||
    (state.legacyBatchKeys.lookup reservation.batchKey).any (· != reservation) ||
    (state.relationBatchKeys.lookup reservation.batchKey).any (· != reservation)

/-- A range that is free in the table of the two older paths does not clash elsewhere. -/
def InMemoryMetaState.Admits (state : InMemoryMetaState)
    (reservation : IngestRangeReservation) : Prop :=
  (state.reservationsAt reservation.slot).any (·.overlaps reservation) = false →
    state.clashes reservation = false

/-- The range that a request of the two older paths asks for. -/
def Event.asked : Event → Option IngestRangeReservation
  | .reserveIngestRange reservation _ => some reservation
  | .reserveAuthoritativeIngestRange request _ => some request.reservation
  | _ => none

/-- The older paths are asked only for ranges and batch keys that no one else holds. -/
def Unclashing (state : InMemoryMetaState) (event : Event) : Prop :=
  ∀ reservation ∈ event.asked, state.Admits reservation

section Accepted
variable {external : External} {state next : InMemoryMetaState} {event : Event}
  {r held : IngestRangeReservation} {log : List Event}

@[simp]
theorem accepted_snoc (log : List Event) (event : Event) :
    accepted (log ++ [event]) = accepted log ++ event.accepted.toList := by
  rw [accepted, filterMap_append]
  cases h : event.accepted <;> simp [accepted, h]

/-- Accepted ranges are in one of the two tables. -/
def InMemoryMetaState.holds (state : InMemoryMetaState) (held : IngestRangeReservation) : Prop :=
  held ∈ state.reservationsAt held.slot ∨ held ∈ state.relationReservationsAt held.slot

theorem holds_step (h : Effect external state event next) (hh : state.holds held) :
    next.holds held := by
  cases h with
  | reserved hv hs hf hepoch | overflowed hv hs hf hepoch
  | reservedAuthoritative hv hf =>
    exact hh.imp (fun hm => mem_reservationsAt_push.mpr (.inl hm)) id
  | reservedRelation hv hc hlive hn hl hrel hlk hrk =>
    exact hh.imp id fun hm => mem_relationReservationsAt_push.mpr (.inl hm)
  | rehashed hr =>
    unfold InMemoryMetaState.holds
    rw [reservationsAt_rehashed hr, relationReservationsAt_rehashed hr]
    exact hh
  | _ => exact hh

/-- What was checked of a range that is accepted, and where it is filed. -/
inductive Acceptance (state next : InMemoryMetaState) (event : Event)
    (reservation : IngestRangeReservation) : Prop
  | older (hasked : event.asked = some reservation) (hvalid : reservation.validate = .ok ())
      (hfresh : (state.reservationsAt reservation.slot).any (·.overlaps reservation) = false)
      (hfiled : reservation ∈ next.reservationsAt reservation.slot)
  | relation
      (hlegacy : (state.reservationsAt reservation.slot).any (·.overlaps reservation) = false)
      (hrelation : (state.relationReservationsAt reservation.slot).any
        (·.overlaps reservation) = false)
      (hlegacyKey : state.legacyBatchKeys.lookup reservation.batchKey = none)
      (hrelationKey : state.relationBatchKeys.lookup reservation.batchKey = none)
      (hfiled : reservation ∈ next.relationReservationsAt reservation.slot)

theorem acceptance_of_effect (h : Effect external state event next) (ha : event.accepted = some r) :
    Acceptance state next event r := by
  cases h with
  | refused hr =>
    unfold Event.accepted at ha
    split at ha
    · exact absurd rfl hr
    · exact absurd rfl hr
    · exact absurd rfl hr
    · cases ha
  | reserved hv hs hf hepoch | reservedAuthoritative hv hf =>
    cases ha
    exact .older rfl hv hf (mem_reservationsAt_push.mpr (.inr ⟨rfl, rfl⟩))
  | reservedRelation hv hc hlive hn hl hrel hlk hrk =>
    cases ha
    exact .relation hl hrel hlk hrk
      (mem_relationReservationsAt_push.mpr (.inr ⟨rfl, rfl⟩))
  | owned he hscope hm | activated control he hold hsame =>
    cases event <;> first | cases ha | cases he
  | _ => cases ha

theorem Acceptance.holds (h : Acceptance state next event r) : next.holds r := by
  cases h with
  | older ha hv hf hfiled => exact .inl hfiled
  | relation hl hrel hlk hrk hfiled => exact .inr hfiled

theorem disjoint_of_free (hf : rs.any (·.overlaps r) = false) (hm : held ∈ rs) :
    Disjoint held.offsets r.offsets :=
  IngestRangeReservation.disjoint_of_not_overlaps
    (Bool.eq_false_iff.mpr (any_eq_false.mp hf held hm))

theorem Acceptance.disjoint (h : Acceptance state next event r)
    (hclash : Unclashing state event) (hh : state.holds held) (hne : held ≠ r)
    (hs : held.slot = r.slot) : Disjoint held.offsets r.offsets := by
  unfold InMemoryMetaState.holds at hh
  rw [hs] at hh
  cases h with
  | older ha hv hf hfiled =>
    rcases hh with hm | hm
    · exact disjoint_of_free hf hm
    · -- this path does not look into the other table
      have hc := hclash r ha hf
      simp only [InMemoryMetaState.clashes, Bool.or_eq_false_iff] at hc
      have hapart := any_eq_false.mp hc.1.1 held hm
      simp only [Bool.and_eq_true, bne_iff_ne, not_and, not_not] at hapart
      apply IngestRangeReservation.disjoint_of_not_overlaps
      rw [Bool.eq_false_iff]
      intro hb
      exact hne (hapart hb)
  | relation hl hrel hlk hrk hfiled =>
    rcases hh with hm | hm
    · exact disjoint_of_free hl hm
    · exact disjoint_of_free hrel hm

theorem legacyBatchKey_unused (hfiled : Filed state) (hv : r.validate = .ok ())
    (hf : (state.reservationsAt r.slot).any (·.overlaps r) = false)
    (hkey : (state.legacyBatchKeys.lookup r.batchKey).any (· != r) = false) :
    state.legacyBatchKeys.lookup r.batchKey = none := by
  cases hl : state.legacyBatchKeys.lookup r.batchKey with
  | none => rfl
  | some holder =>
    -- what the index names is in the table, so it cannot be the new range
    rw [hl, Option.any_some, bne_eq_false_iff_eq] at hkey
    have hm := hfiled.legacyHeld _ holder hl
    rw [hkey] at hm
    exact absurd hm (not_mem_of_fresh hv hf)

theorem Acceptance.batchKey (h : Acceptance state next event r) (hfiled : Filed state)
    (hclash : Unclashing state event) (hh : state.holds held)
    (hkey : held.batchKey = r.batchKey) : held = r := by
  cases h with
  | older ha hv hf _ =>
    have hc := hclash r ha hf
    simp only [InMemoryMetaState.clashes, Bool.or_eq_false_iff] at hc
    obtain ⟨⟨-, hlk⟩, hrk⟩ := hc
    rcases hh with hm | hm
    · have hi := hfiled.legacyIndexed _ held hm
      rw [hkey, legacyBatchKey_unused hfiled hv hf hlk] at hi
      cases hi
    · have hi := hfiled.relationIndexed _ held hm
      rw [hkey] at hi
      rwa [hi, Option.any_some, bne_eq_false_iff_eq] at hrk
  | relation hl hrel hlk hrk _ =>
    rcases hh with hm | hm
    · have hi := hfiled.legacyIndexed _ held hm
      rw [hkey, hlk] at hi
      cases hi
    · have hi := hfiled.relationIndexed _ held hm
      rw [hkey, hrk] at hi
      cases hi

theorem RangesApart.snoc (h : RangesApart rs)
    (hd : ∀ held ∈ rs, held ≠ r → held.slot = r.slot → Disjoint held.offsets r.offsets)
    (hk : ∀ held ∈ rs, held.batchKey = r.batchKey → held = r) : RangesApart (rs ++ [r]) := by
  constructor
  · intro a ha b hb hne hs
    rw [mem_append, mem_singleton] at ha hb
    rcases ha with ha | rfl
    · rcases hb with hb | rfl
      · exact h.disjoint a ha b hb hne hs
      · exact hd a ha hne hs
    · rcases hb with hb | rfl
      · exact (hd b hb hne.symm hs.symm).symm
      · exact absurd rfl hne
  · intro a ha b hb hkey
    rw [mem_append, mem_singleton] at ha hb
    rcases ha with ha | rfl
    · rcases hb with hb | rfl
      · exact h.batchKeys a ha b hb hkey
      · exact hk a ha hkey
    · rcases hb with hb | rfl
      · exact (hk b hb hkey.symm).symm
      · rfl

/-- What is known of the accepted ranges after a run. -/
structure AcceptedApart (log : List Event) (state : InMemoryMetaState) : Prop where
  filed : Filed state
  held : ∀ range ∈ accepted log, state.holds range
  apart : RangesApart (accepted log)

theorem AcceptedApart.step (h : AcceptedApart log state)
    (he : Effect external state event next) (hclash : Unclashing state event) :
    AcceptedApart (log ++ [event]) next := by
  refine ⟨h.filed.step he, ?_, ?_⟩
  · intro range hm
    rw [accepted_snoc, mem_append] at hm
    rcases hm with hm | hm
    · exact holds_step he (h.held range hm)
    · exact (acceptance_of_effect he (Option.mem_toList.mp hm)).holds
  · rw [accepted_snoc]
    cases ha : event.accepted with
    | none => simpa using h.apart
    | some r =>
      have hacceptance := acceptance_of_effect he ha
      apply h.apart.snoc
      · intro held hm
        exact hacceptance.disjoint hclash (h.held held hm)
      · intro held hm
        exact hacceptance.batchKey h.filed hclash (h.held held hm)

theorem reservations_apart
    (h : Trace (fun state event next => Step external state event next ∧ Unclashing state event)
      {} log state) : RangesApart (accepted log) := by
  have hrun : AcceptedApart log state := by
    apply h.invariant (P := AcceptedApart)
    · exact ⟨filed_empty, fun _ hmem => absurd hmem not_mem_nil, by
        constructor <;> intro a ha <;> exact absurd ha not_mem_nil⟩
    · intro log state event next hrun hstep
      exact hrun.step (effect_of_step hstep.1) hstep.2
  exact hrun.apart

end Accepted

section Paths

def rangeOf (startOffsetInclusive endOffsetExclusive : UInt64) (batchKey : String) :
    IngestRangeReservation :=
  ⟨"s", 0, startOffsetInclusive, endOffsetExclusive, batchKey, "d", "r", "1", "f", 1⟩

def writerKey : AuthorityKey := ⟨"n", "r", "s", 0⟩

def writerToken : AuthorityToken := ⟨writerKey, "w", 1, 10⟩

def writerRequest : AcquireAuthorityRequest := ⟨writerKey, "w", none, 10⟩

def writerAcquired : Answer AcquireAuthorityOutcome :=
  acquireRelationPartitionAuthority {} writerRequest false

def relationReserved : Answer ReserveIngestRangeOutcome :=
  writerAcquired.1.reserveRelationAuthoritativeIngestRange ⟨rangeOf 0 10 "k", writerToken⟩

/-- An older path is asked for a range after the relation path has reserved one. -/
def olderReserved (reservation : IngestRangeReservation) : Answer ReserveIngestRangeOutcome :=
  relationReserved.1.reserveIngestRange reservation

def pathsLog (reservation : IngestRangeReservation) : List Event :=
  [.acquireRelationPartitionAuthority writerRequest false writerAcquired.2,
    .reserveRelationAuthoritativeIngestRange ⟨rangeOf 0 10 "k", writerToken⟩ relationReserved.2,
    .reserveIngestRange reservation (olderReserved reservation).2]

/-- `reserve_ingest_range` takes offsets and a batch key that the relation path has given out. -/
theorem olderPath_overlaps :
    Trace (Step plainExternal) {} (pathsLog (rangeOf 5 15 "k"))
        (olderReserved (rangeOf 5 15 "k")).1 ∧
      accepted (pathsLog (rangeOf 5 15 "k")) = [rangeOf 0 10 "k", rangeOf 5 15 "k"] ∧
      ¬ RangesApart (accepted (pathsLog (rangeOf 5 15 "k"))) := by
  have haccepted :
      accepted (pathsLog (rangeOf 5 15 "k")) = [rangeOf 0 10 "k", rangeOf 5 15 "k"] := by
    decide +kernel
  refine ⟨?_, haccepted, ?_⟩
  · exact ((Trace.nil.snoc (.acquireRelationPartitionAuthority
      (Prod.mk.eta (p := writerAcquired)).symm)).snoc (.reserveRelationAuthoritativeIngestRange
      (Prod.mk.eta (p := relationReserved)).symm)).snoc (.reserveIngestRange
      (Prod.mk.eta (p := olderReserved _)).symm)
  · rw [haccepted]
    intro h
    have hkey := h.batchKeys (rangeOf 0 10 "k") (by simp) (rangeOf 5 15 "k") (by simp) rfl
    exact absurd hkey (by decide)

theorem pathsLog_apart :
    accepted (pathsLog (rangeOf 10 15 "l")) = [rangeOf 0 10 "k", rangeOf 10 15 "l"] ∧
      RangesApart (accepted (pathsLog (rangeOf 10 15 "l"))) := by
  refine ⟨by decide +kernel, ?_⟩
  have hlast : Unclashing relationReserved.1
      (.reserveIngestRange (rangeOf 10 15 "l") (olderReserved (rangeOf 10 15 "l")).2) := by
    intro reservation hasked
    cases hasked
    intro _
    decide +kernel
  have htrace : Trace (fun state event next =>
      Step plainExternal state event next ∧ Unclashing state event) {}
      (pathsLog (rangeOf 10 15 "l")) (olderReserved (rangeOf 10 15 "l")).1 :=
    ((Trace.nil.snoc ⟨.acquireRelationPartitionAuthority
      (Prod.mk.eta (p := writerAcquired)).symm, by intro _ h; cases h⟩).snoc
      ⟨.reserveRelationAuthoritativeIngestRange (Prod.mk.eta (p := relationReserved)).symm,
        by intro _ h; cases h⟩).snoc
      ⟨.reserveIngestRange (Prod.mk.eta (p := olderReserved _)).symm, hlast⟩
  exact reservations_apart htrace

end Paths

end Velorix.Meta
