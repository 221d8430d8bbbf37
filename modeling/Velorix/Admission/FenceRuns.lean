import Velorix.Admission.Fence

/-! Runs of coordinators: the fence holds when records appear in the order of their transitions,
and a writer that is slow to materialise its record breaks it. -/
namespace Velorix.Admission

open IngestRange List

abbrev Coordinators := Pool Invocation Op Reply Outcome World

abbrev Event := PoolEvent Invocation Op Reply Outcome Empty

def Invocation.Admits : Invocation → Prop
  | .expire _ _ _ _ => False
  | _ => True

instance : DecidablePred Invocation.Admits
  | .append _ _ => .isTrue trivial
  | .reserve _ _ => .isTrue trivial
  | .expire _ _ _ _ => .isFalse id

/-- The ranges for which `reserve_range_admission_index` returned that they are admitted. -/
def admittedRanges (log : List Event) : List IngestRange :=
  log.filterMap fun
    | .called _ (.putTransition transition) (.ok ()) => some transition.admitted.range
    | _ => none

/-- No two ranges that were admitted share an offset, nor do two batches, so committed ranges can
be listed. -/
structure AdmissionFence (log : List Event) (world : World) : Prop where
  admitted : ∀ a ∈ admittedRanges log, ∀ b ∈ admittedRanges log, a ≠ b → a.meets b = false
  committed : ∀ a ∈ world.batches.keys, ∀ b ∈ world.batches.keys, a ≠ b → a.meets b = false
  listed : validateNonOverlappingRanges (sortByLocation world.batches.keys) = .ok ()

section Runs
variable {formats : Formats} {catalogs : String → String → Option RelationCatalog}
  {w later : World} {log : List Event} {pool next : Coordinators} {event : Event}

theorem start_le_of_location_le {a b : IngestRange} (hs : a.slot = b.slot)
    (h : a.location ≤ b.location) : a.startOffsetInclusive ≤ b.startOffsetInclusive := by
  obtain ⟨hstream, hp⟩ := Prod.mk.inj hs
  unfold IngestRange.location at h
  simp only [Prod.Lex.toLex_le_toLex, hstream, hp, lt_self_iff_false, true_and, false_or] at h
  rw [UInt64.le_iff_toNat_le]
  omega

theorem validateNonOverlappingRanges_ok {rs : List IngestRange}
    (hsort : rs.Pairwise (·.location ≤ ·.location))
    (hapart : rs.Pairwise fun a b => a.meets b = false) :
    validateNonOverlappingRanges rs = .ok () := by
  induction rs with
  | nil => rfl
  | cons previous rest ih =>
    obtain ⟨hle, hsort'⟩ := pairwise_cons.mp hsort
    obtain ⟨hm, hapart'⟩ := pairwise_cons.mp hapart
    cases rest with
    | nil => rfl
    | cons current rest =>
      rw [validateNonOverlappingRanges, if_neg, ih hsort' hapart']
      rintro ⟨hs, hlt⟩
      have hmeet := hm current mem_cons_self
      have hstart := start_le_of_location_le hs (hle current mem_cons_self)
      have hb := UInt64.lt_of_le_of_lt hstart current.lt
      simp [IngestRange.meets, hs, hlt, hb] at hmeet

theorem sortByLocation_ok {rs : List IngestRange} (hn : rs.Nodup)
    (hapart : ∀ a ∈ rs, ∀ b ∈ rs, a ≠ b → a.meets b = false) :
    validateNonOverlappingRanges (sortByLocation rs) = .ok () := by
  have : Std.Total fun left right : IngestRange => left.location ≤ right.location :=
    ⟨fun a b => le_total a.location b.location⟩
  have : IsTrans IngestRange fun left right => left.location ≤ right.location :=
    ⟨fun _ _ _ => le_trans⟩
  have hp : (sortByLocation rs).Perm rs := perm_insertionSort _ _
  refine validateNonOverlappingRanges_ok (pairwise_insertionSort _ _) ?_
  refine List.Pairwise.imp_of_mem ?_ (hp.nodup_iff.mpr hn)
  intro a b ha hb
  exact hapart a (hp.mem_iff.mp ha) b (hp.mem_iff.mp hb)

theorem IndexInv.meets_eq_false (h : IndexInv formats w) {a b : AdmissionRecord}
    (ha : a ∈ w.admitted) (hb : b ∈ w.admitted) (hne : a.range ≠ b.range) :
    a.range.meets b.range = false := by
  have : Std.Symm Apart :=
    ⟨fun a b h => ⟨h.1.symm, (meets_comm b.range a.range).trans h.2⟩⟩
  exact (List.Pairwise.forall h.apart ha hb (ne_of_apply_ne _ hne)).2

theorem CollisionFree.of_prefix (h : CollisionFree formats later)
    (hl : w.admitted <+: later.admitted) : CollisionFree formats w := by
  intro i
  refine (h i).mono ?_
  rintro s ⟨n, hn, rfl⟩
  obtain ⟨rest, hr⟩ := hl.filter fun r => r.range.slot = i
  have hs : later.slotRecords i = w.slotRecords i ++ rest := hr.symm
  refine ⟨n, ?_, ?_⟩
  · rw [hs, length_append]
    omega
  · unfold World.chainState
    rw [hs, take_append_of_le_length hn]

/-- Coordinators whose records appear in order. -/
abbrev orderedSystem (formats : Formats) : System Invocation Op Reply Outcome Empty World :=
  (admissionSystem formats Invocation.Admits).restrict InOrder

theorem orderedSystem_respects (formats : Formats) :
    Pool.Respects (indexSetting formats) (fun _ _ _ _ => True)
      ((orderedSystem formats).restrict fun _ _ later => CollisionFree formats later) where
  calls h := ⟨h.1.1, h.1.2, h.2⟩
  moves _ h := h.elim
  body {w call} hi ha := by
    cases call with
    | append coordinator b =>
      refine Setting.Safe.bind hi (Setting.Safe.weaken
        (keeps_appendCatalogValidatedEnvelope hi coordinator b) ?_)
      exact fun _ _ _ _ _ => Setting.safe_done fun _ _ _ => trivial
    | reserve coordinator fields =>
      refine Setting.Safe.bind hi (Setting.Safe.weaken
        (keeps_reserveExternalIngestRangeAdmission hi coordinator fields) ?_)
      exact fun _ _ _ _ _ => Setting.safe_done fun _ _ _ => trivial
    | expire range decisionId expiredReason operatorId => exact ha.elim

theorem indexInv_start (formats : Formats) : IndexInv formats { catalogs } where
  free := by
    rintro i _ ⟨m, hm, rfl⟩ _ ⟨n, hn, rfl⟩ -
    rw [Nat.le_zero.mp hm, Nat.le_zero.mp hn]
  linked _ _ _ h := nomatch h
  chained _ _ h := nomatch h
  apart := .nil
  materialized _ _ h := nomatch h
  ordered _ _ _ _ _ h := nomatch h
  committed _ _ h := nomatch h
  undecided := rfl

theorem grows_step (h : Pool.Step (orderedSystem formats) pool event next) :
    WorldGrows pool.shared next.shared := by
  cases h with
  | called _ hc => exact hc.1.grows
  | moved hm => exact hm.elim
  | _ => exact .refl _

theorem admitted_of_step {range : IngestRange}
    (h : Pool.Step (orderedSystem formats) pool event next) (hr : range ∈ admittedRanges [event]) :
    ∃ r ∈ next.shared.admitted, r.range = range := by
  simp only [admittedRanges, mem_filterMap, mem_singleton] at hr
  obtain ⟨_, rfl, hr⟩ := hr
  split at hr
  · rename_i t
    cases hr
    cases h with
    | called _ hc => exact ⟨t.admitted, calls_putTransition hc.1, rfl⟩
  · cases hr

theorem admission_fence
    (htrace : Trace (Pool.Step (orderedSystem formats)) (Pool.idle { catalogs }) log pool)
    (hfree : CollisionFree formats pool.shared) : AdmissionFence log pool.shared := by
  have hstrong := htrace.strengthen (P := fun pool => CollisionFree formats pool.shared) hfree
    fun hstep hnext => hnext.of_prefix (grows_step hstep).admitted
  have hrun : Pool.Sound (indexSetting formats) (fun _ _ _ _ => True) pool ∧
      ∀ range ∈ admittedRanges log, ∃ record ∈ pool.shared.admitted, record.range = range := by
    refine hstrong.invariant (P := fun log pool =>
      Pool.Sound (indexSetting formats) (fun _ _ _ _ => True) pool ∧
        ∀ range ∈ admittedRanges log, ∃ record ∈ pool.shared.admitted, record.range = range)
      ⟨Pool.sound_idle (indexInv_start formats), nofun⟩ ?_
    rintro log pool event next ⟨hsound, hadmitted⟩ ⟨hstep, hnext⟩
    refine ⟨(hsound.step (orderedSystem_respects formats)
      (hstep.restrict fun _ _ _ _ => hnext)).1, ?_⟩
    intro range hrange
    rw [admittedRanges, filterMap_append, mem_append] at hrange
    rcases hrange with hrange | hrange
    · obtain ⟨record, hrecord, hrange⟩ := hadmitted range hrange
      exact ⟨record, (grows_step hstep).mem_admitted hrecord, hrange⟩
    · exact admitted_of_step hstep hrange
  have hinv : IndexInv formats pool.shared := hrun.1.inv
  have hcommitted : ∀ a ∈ pool.shared.batches.keys, ∀ b ∈ pool.shared.batches.keys, a ≠ b →
      a.meets b = false := by
    intro a ha b hb hne
    obtain ⟨payload, hlookup⟩ := HashMap.exists_lookup_of_mem_keys ha
    obtain ⟨payload', hlookup'⟩ := HashMap.exists_lookup_of_mem_keys hb
    obtain ⟨record, hrecord, rfl⟩ := hinv.committed a payload hlookup
    obtain ⟨record', hrecord', rfl⟩ := hinv.committed b payload' hlookup'
    exact hinv.meets_eq_false hrecord hrecord' hne
  refine ⟨?_, hcommitted, sortByLocation_ok (AList.keys_nodup _) hcommitted⟩
  intro a ha b hb hne
  obtain ⟨record, hrecord, rfl⟩ := hrun.2 a ha
  obtain ⟨record', hrecord', rfl⟩ := hrun.2 b hb
  exact hinv.meets_eq_false hrecord hrecord' hne

end Runs

/-- Every call is answered, except that records which come out of order are refused. -/
def orderedDriver (formats : Formats) : Pool.Driver (orderedSystem formats) where
  answer world
    | .putAdmission record =>
      if world.Preceded record then world.answer (.putAdmission record)
      else (.error (.other "out of order"), world)
    | op => world.answer op
  admits _ call := decide call.Admits
  perform _ _ := none
  calls world op := by
    cases op with
    | putAdmission record =>
      dsimp only
      split_ifs with hpreceded
      · exact ⟨.delivered _ _, fun _ _ => hpreceded⟩
      · refine ⟨.failed ⟨_, rfl, nofun⟩, fun hnone hsome => ?_⟩
        rw [hnone] at hsome
        cases hsome
    | _ => exact ⟨.delivered _ _, trivial⟩
  accepts {_ call} h := of_decide_eq_true (p := call.Admits) h
  moves h := nomatch h

/-- Three appends that take turns. The second one overlaps the first, which is faster. -/
def undisturbed : List (Pool.Command Invocation Empty) :=
  [.start 0 (.append 0 [0, 2]), .start 1 (.append 1 [1, 3]), .start 2 (.append 2 [4, 8]),
    .advance 1 9, .advance 0 60, .advance 2 9, .advance 1 60, .advance 2 60,
    .finish 0, .finish 1, .finish 2]

/-- The offsets that an append wrote, if it did. -/
def Outcome.written : Outcome → Option (UInt64 × UInt64)
  | .appended (.ok (.appended range)) =>
    some (range.startOffsetInclusive, range.endOffsetExclusive)
  | _ => none

/-- A writer stops after its transition and before its record. Another one continues the index and
materialises its record first, so a third one finds a state of the index that nobody continued. -/
def overtaken : List (Pool.Command Invocation Empty) :=
  [.start 0 (.append 0 [0, 2]), .advance 0 14,
    .start 1 (.append 1 [4, 8]), .advance 1 60, .finish 1,
    .start 2 (.append 2 [1, 3]), .advance 2 60, .finish 2,
    .advance 0 60, .finish 0]

/-- The states of the index that the records can make have different digests. -/
def DigestsDiffer (formats : Formats) (slot : String × UInt32) (records : List AdmissionRecord) :
    Prop :=
  (∀ record ∈ records, record.range.slot = slot) ∧
    (records.sublists.map fun state =>
      formats.stateDigest slot (sortAdmissionRecords state)).Nodup

instance (formats : Formats) (slot : String × UInt32) (records : List AdmissionRecord) :
    Decidable (DigestsDiffer formats slot records) := by
  unfold DigestsDiffer
  infer_instance

theorem DigestsDiffer.collisionFree {formats : Formats} {i : String × UInt32} {w : World}
    (h : DigestsDiffer formats i w.admitted) : CollisionFree formats w := by
  rintro i' _ ⟨m, hm, rfl⟩ _ ⟨n, hn, rfl⟩ hd
  by_cases hs : i' = i
  · subst hs
    have ha : w.slotRecords i' = w.admitted :=
      filter_eq_self.mpr fun r hr => decide_eq_true (h.1 r hr)
    unfold World.chainState at hd ⊢
    rw [ha] at hd ⊢
    have hmem (k : ℕ) : w.admitted.take k ∈ w.admitted.sublists :=
      mem_sublists.mpr (take_sublist k _)
    rw [inj_on_of_nodup_map h.2 (hmem m) (hmem n) hd]
  · have hnone : w.slotRecords i' = [] := by
      refine filter_eq_nil_iff.mpr fun r hr hsame => hs ?_
      rw [← of_decide_eq_true hsame, h.1 r hr]
    unfold World.chainState
    rw [hnone, take_nil, take_nil]

theorem undisturbed_commits :
    ((orderedDriver plainFormats).follow undisturbed (Pool.idle { catalogs := plainCatalogs })).any
      (fun result => result.1.map (fun out => (out.1, out.2.written)) =
          [(0, some (0, 2)), (1, none), (2, some (4, 8))] ∧
        DigestsDiffer plainFormats ("s", 0) result.2.shared.admitted) = true := by
  decide +kernel

/-- Interleaved coordinators that meet the conditions of the fence: of two that overlap one
writes, and a third one beside them. -/
theorem undisturbed_fence : ∃ log pool,
    Trace (Pool.Step (orderedSystem plainFormats)) (Pool.idle { catalogs := plainCatalogs })
      log pool ∧
    CollisionFree plainFormats pool.shared ∧
    (Pool.returns log).map (fun out => (out.1, out.2.written)) =
      [(0, some (0, 2)), (1, none), (2, some (4, 8))] ∧
    AdmissionFence log pool.shared := by
  obtain ⟨⟨outs, pool⟩, hfollow, hresult⟩ := (Option.any_eq_true _ _).mp undisturbed_commits
  obtain ⟨houts, hdiffer⟩ := of_decide_eq_true hresult
  obtain ⟨log, hreturns, htrace⟩ := Pool.Driver.trace_of_follow hfollow
  exact ⟨log, pool, htrace, hdiffer.collisionFree, hreturns ▸ houts,
    admission_fence htrace hdiffer.collisionFree⟩

theorem overtaken_overlaps :
    ((admissionDriver plainFormats Invocation.Admits).follow overtaken
      (Pool.idle { catalogs := plainCatalogs })).any (fun result =>
        (∃ a ∈ result.2.shared.batches.keys, ∃ b ∈ result.2.shared.batches.keys,
          a ≠ b ∧ a.meets b = true) ∧
        validateNonOverlappingRanges
          (sortByLocation result.2.shared.batches.keys) ≠ .ok () ∧
        DigestsDiffer plainFormats ("s", 0) result.2.shared.admitted) = true := by
  decide +kernel

/-- A record that appears late lets two batches overlap, and committed ranges can no longer be
listed. -/
theorem overtaken_breaks_fence : ∃ log pool,
    Trace (Pool.Step (admissionSystem plainFormats Invocation.Admits))
      (Pool.idle { catalogs := plainCatalogs }) log pool ∧
    DigestsDiffer plainFormats ("s", 0) pool.shared.admitted ∧
    (∃ a ∈ pool.shared.batches.keys, ∃ b ∈ pool.shared.batches.keys, a ≠ b ∧ a.meets b = true) ∧
    validateNonOverlappingRanges (sortByLocation pool.shared.batches.keys) ≠
      .ok () := by
  obtain ⟨⟨outs, pool⟩, hfollow, hresult⟩ := (Option.any_eq_true _ _).mp overtaken_overlaps
  obtain ⟨hoverlap, hlisted, hdiffer⟩ := of_decide_eq_true hresult
  obtain ⟨log, -, htrace⟩ := Pool.Driver.trace_of_follow hfollow
  exact ⟨log, pool, htrace, hdiffer, hoverlap, hlisted⟩

end Velorix.Admission
