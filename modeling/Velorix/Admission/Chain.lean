import Velorix.Admission.World

/-! The chain of the admission index: the transitions of a partition, in the order they were
created, lead through the digests of the states they pass. -/
namespace Velorix.Admission

open List

section Sorting
variable {rs rs' : List AdmissionRecord} {a b : AdmissionRecord}

theorem range_of_rank (h : a.rank = b.rank) : a.range = b.range := by
  simp only [AdmissionRecord.rank, EmbeddingLike.apply_eq_iff_eq, Prod.mk.injEq] at h
  obtain ⟨hs, hp, hstart, he⟩ := h
  cases hra : a.range
  cases hrb : b.range
  rw [hra, hrb] at hs hp hstart he
  simp only [IngestRange.mk.injEq]
  exact ⟨hs, UInt32.toNat_inj.mp hp, UInt64.toNat_inj.mp hstart, UInt64.toNat_inj.mp he⟩

theorem sortAdmissionRecords_perm (rs : List AdmissionRecord) :
    (sortAdmissionRecords rs).Perm rs := perm_insertionSort _ _

def Distinct (records : List AdmissionRecord) : Prop := records.Pairwise (·.range ≠ ·.range)

theorem Distinct.perm (h : Distinct rs) (hp : rs.Perm rs') : Distinct rs' :=
  (hp.pairwise_iff fun hne => hne.symm).mp h

theorem Distinct.eq_of_range (h : Distinct rs) (ha : a ∈ rs) (hb : b ∈ rs)
    (hr : a.range = b.range) : a = b := by
  by_contra hne
  have : Std.Symm fun a b : AdmissionRecord => a.range ≠ b.range := ⟨fun _ _ h => h.symm⟩
  exact List.Pairwise.forall h ha hb hne hr

theorem sortAdmissionRecords_congr (hd : Distinct rs) (hp : rs.Perm rs') :
    sortAdmissionRecords rs = sortAdmissionRecords rs' := by
  have : Std.Total fun left right : AdmissionRecord => left.rank ≤ right.rank :=
    ⟨fun a b => le_total a.rank b.rank⟩
  have : IsTrans AdmissionRecord fun left right => left.rank ≤ right.rank :=
    ⟨fun _ _ _ => le_trans⟩
  have hboth := ((sortAdmissionRecords_perm rs).trans hp).trans
    (sortAdmissionRecords_perm rs').symm
  refine List.Perm.eq_of_pairwise ?_ (pairwise_insertionSort _ _)
    (pairwise_insertionSort _ _) hboth
  intro a b ha hb hab hba
  have ha' := (sortAdmissionRecords_perm rs).mem_iff.mp ha
  have hb' := hp.mem_iff.mpr ((sortAdmissionRecords_perm rs').mem_iff.mp hb)
  exact hd.eq_of_range ha' hb' (range_of_rank (le_antisymm hab hba))

end Sorting

theorem IngestRange.meets_comm (a b : IngestRange) : a.meets b = b.meets a := by
  unfold IngestRange.meets
  rw [show decide (a.slot = b.slot) = decide (b.slot = a.slot) from decide_eq_decide.mpr eq_comm,
    Bool.and_right_comm]

/-- The records that the transitions of the partition admitted, in order. -/
def World.slotRecords (world : World) (slot : String × UInt32) : List AdmissionRecord :=
  world.admitted.filter (·.range.slot = slot)

/-- The state of the index after the first transitions. -/
def World.chainState (world : World) (slot : String × UInt32) (n : ℕ) : List AdmissionRecord :=
  sortAdmissionRecords ((world.slotRecords slot).take n)

def chainDigest (formats : Formats) (world : World) (slot : String × UInt32) (n : ℕ) : String :=
  formats.stateDigest slot (world.chainState slot n)

/-- The states that the index of the partition passed through. -/
def World.indexStates (world : World) (slot : String × UInt32) : Set (List AdmissionRecord) :=
  { state | ∃ n ≤ (world.slotRecords slot).length, state = world.chainState slot n }

/-- No two states that the index of a partition passed through have one digest. -/
def CollisionFree (formats : Formats) (world : World) : Prop :=
  ∀ slot, Set.InjOn (formats.stateDigest slot) (world.indexStates slot)

/-- The records that two admissions of one partition may have. -/
def Apart (a b : AdmissionRecord) : Prop := a.range ≠ b.range ∧ a.range.meets b.range = false

/-- What holds of the store while no admission is expired and records appear in the order of
their transitions. -/
structure IndexInv (formats : Formats) (world : World) : Prop where
  free : CollisionFree formats world
  linked : ∀ slot digest transition, world.transitions.lookup (slot, digest) = some transition →
    ∃ n : ℕ, (world.slotRecords slot)[n]? = some transition.admitted ∧
      digest = chainDigest formats world slot n ∧ transition.previousStateDigest = digest
  chained : ∀ slot n, n < (world.slotRecords slot).length →
    (world.transitions.lookup (slot, chainDigest formats world slot n)).isSome
  apart : world.admitted.Pairwise Apart
  materialized : ∀ range record, world.admissions.lookup range = some record →
    record ∈ world.admitted ∧ record.range = range
  ordered : ∀ slot (m n : ℕ) record record', (world.slotRecords slot)[m]? = some record →
    (world.slotRecords slot)[n]? = some record' → m ≤ n →
    world.admissions.lookup record'.range = some record' →
      world.admissions.lookup record.range = some record
  committed : ∀ range payload, world.batches.lookup range = some payload →
    ∃ record ∈ world.admitted, record.range = range
  undecided : world.decisions = ∅

structure WorldGrows (world later : World) : Prop where
  admitted : world.admitted <+: later.admitted
  admissions : ∀ range record, world.admissions.lookup range = some record →
    later.admissions.lookup range = some record
  transitions : ∀ key transition, world.transitions.lookup key = some transition →
    later.transitions.lookup key = some transition
  batches : ∀ range payload, world.batches.lookup range = some payload →
    later.batches.lookup range = some payload
  decisions : ∀ key decision, world.decisions.lookup key = some decision →
    later.decisions.lookup key = some decision

section Growth
variable {f : Formats} {w later last : World} {i : String × UInt32} {n : ℕ}

theorem WorldGrows.refl (w : World) : WorldGrows w w :=
  ⟨prefix_rfl, fun _ _ h => h, fun _ _ h => h, fun _ _ h => h, fun _ _ h => h⟩

theorem WorldGrows.trans (h : WorldGrows w later) (h' : WorldGrows later last) :
    WorldGrows w last :=
  ⟨h.admitted.trans h'.admitted, fun _ _ hl => h'.admissions _ _ (h.admissions _ _ hl),
    fun _ _ hl => h'.transitions _ _ (h.transitions _ _ hl),
    fun _ _ hl => h'.batches _ _ (h.batches _ _ hl),
    fun _ _ hl => h'.decisions _ _ (h.decisions _ _ hl)⟩

theorem WorldGrows.slotRecords (h : WorldGrows w later) (i : String × UInt32) :
    w.slotRecords i <+: later.slotRecords i := h.admitted.filter _

theorem WorldGrows.length_le (h : WorldGrows w later) (i : String × UInt32) :
    (w.slotRecords i).length ≤ (later.slotRecords i).length :=
  (h.slotRecords i).length_le

theorem WorldGrows.take_eq (h : WorldGrows w later) (hn : n ≤ (w.slotRecords i).length) :
    (later.slotRecords i).take n = (w.slotRecords i).take n := by
  obtain ⟨rest, hr⟩ := h.slotRecords i
  rw [← hr, take_append_of_le_length hn]

theorem WorldGrows.chainState_eq (h : WorldGrows w later) (hn : n ≤ (w.slotRecords i).length) :
    later.chainState i n = w.chainState i n := by
  unfold World.chainState
  rw [h.take_eq hn]

theorem WorldGrows.chainDigest_eq (h : WorldGrows w later) (hn : n ≤ (w.slotRecords i).length) :
    chainDigest f later i n = chainDigest f w i n := by
  unfold chainDigest
  rw [h.chainState_eq hn]

theorem WorldGrows.mem_admitted (h : WorldGrows w later) {r : AdmissionRecord}
    (hmem : r ∈ w.admitted) : r ∈ later.admitted := h.admitted.subset hmem

theorem length_chainState (hn : n ≤ (w.slotRecords i).length) : (w.chainState i n).length = n := by
  unfold World.chainState
  rw [(sortAdmissionRecords_perm _).length_eq, length_take, Nat.min_eq_left hn]

theorem chainDigest_inj (hf : CollisionFree f w) {m : ℕ}
    (hm : m ≤ (w.slotRecords i).length) (hn : n ≤ (w.slotRecords i).length)
    (h : chainDigest f w i m = chainDigest f w i n) : m = n := by
  have hmem : w.chainState i m ∈ w.indexStates i := ⟨m, hm, rfl⟩
  have hmem' : w.chainState i n ∈ w.indexStates i := ⟨n, hn, rfl⟩
  have hl := congrArg List.length (hf i hmem hmem' h)
  rwa [length_chainState hm, length_chainState hn] at hl

theorem mem_slotRecords {r : AdmissionRecord} :
    r ∈ w.slotRecords i ↔ r ∈ w.admitted ∧ r.range.slot = i := by
  simp [World.slotRecords]

theorem IndexInv.distinct (h : IndexInv f w) : Distinct w.admitted :=
  h.apart.imp fun ha => ha.1

theorem IndexInv.distinct_slot (h : IndexInv f w) (i : String × UInt32) :
    Distinct (w.slotRecords i) := h.distinct.sublist filter_sublist

end Growth

end Velorix.Admission
