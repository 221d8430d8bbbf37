import Velorix.Admission.Loads

/-! As long as records appear in the order of their transitions, the admission index is a fence:
whatever a coordinator loads is a state that the index passed through, so only one writer can
continue from it. -/
namespace Velorix.Admission

open Storage FallibleProgram Setting List

variable {n : ℕ} {t : Transition}

section Load
variable {f : Formats} {w later : World} {i : String × UInt32}
  {s next : RangeAdmissionIndexState} {record : AdmissionRecord}

/-- A state that the index passed through, whose admissions are all active. -/
structure LoadedAt (formats : Formats) (world : World) (slot : String × UInt32) (n : ℕ)
    (state : RangeAdmissionIndexState) : Prop where
  bound : n ≤ (world.slotRecords slot).length
  digest : state.stateDigest = chainDigest formats world slot n
  indexed : state.indexedAdmissions = world.chainState slot n
  active : ∀ record ∈ (world.slotRecords slot).take n, record ∈ state.activeAdmissions
  known : ∀ record ∈ state.activeAdmissions, record ∈ world.admitted
  unexpired : state.indexedExpiredAdmissionKeys = []

theorem LoadedAt.grow (h : LoadedAt f w i n s) (hg : WorldGrows w later) :
    LoadedAt f later i n s := by
  refine ⟨h.bound.trans (hg.length_le i), ?_, ?_, ?_, ?_, h.unexpired⟩
  · rw [hg.chainDigest_eq h.bound, h.digest]
  · rw [hg.chainState_eq h.bound, h.indexed]
  · rw [hg.take_eq h.bound]
    exact h.active
  · intro record hr
    exact hg.mem_admitted (h.known record hr)

theorem not_mem_take (hd : Distinct (w.slotRecords i)) (hn : (w.slotRecords i)[n]? = some record) :
    ∀ earlier ∈ (w.slotRecords i).take n, earlier.range ≠ record.range := by
  intro earlier he
  obtain ⟨hlt, hr⟩ := List.getElem?_eq_some_iff.mp hn
  obtain ⟨m, hm, rfl⟩ := mem_iff_getElem.mp he
  rw [length_take] at hm
  rw [getElem_take, ← hr]
  exact pairwise_iff_getElem.mp hd m n (by omega) hlt (by omega)

theorem applyTransition_ok (h : s.applyTransition f t = .ok next) :
    t.previousStateDigest = s.stateDigest ∧ (next.indexedAdmissions =
        if s.indexedAdmissions.any fun indexed => indexed.range = t.admitted.range then
          s.indexedAdmissions
        else sortAdmissionRecords (s.indexedAdmissions ++ [t.admitted])) ∧
      next.stateDigest = f.stateDigest t.slot next.indexedAdmissions ∧ (next.activeAdmissions =
        if !s.indexedExpiredAdmissionKeys.contains t.admitted.range &&
            !s.activeAdmissions.any fun active => active.range = t.admitted.range then
          sortAdmissionRecords (s.activeAdmissions ++ [t.admitted])
        else s.activeAdmissions) ∧
      next.indexedExpiredAdmissionKeys = s.indexedExpiredAdmissionKeys := by
  unfold RangeAdmissionIndexState.applyTransition at h
  dsimp only at h
  split at h
  · cases h
  rename_i hdigest
  split at h
  · cases h
  generalize (if s.indexedAdmissions.any fun indexed =>
    indexed.range = t.admitted.range then s.indexedAdmissions
    else sortAdmissionRecords (s.indexedAdmissions ++ [t.admitted])) = indexed at h ⊢
  split at h
  · cases h
  cases h
  exact ⟨not_not.mp hdigest, rfl, rfl, rfl, rfl⟩

theorem LoadedAt.applyTransition (hinv : IndexInv f w)
    (h : LoadedAt f w i n s) (hlinked : LinkedAt f w i t)
    (happly : s.applyTransition f t = .ok next) : LoadedAt f w i (n + 1) next := by
  obtain ⟨m, hm, hp⟩ := hlinked
  obtain ⟨hdigest, hi, hn, ha, hexpired⟩ := applyTransition_ok happly
  have hlt := (List.getElem?_eq_some_iff.mp hm).1
  obtain ⟨hk, hs⟩ := mem_slotRecords.mp (mem_of_getElem? hm)
  have hd := hinv.distinct_slot i
  obtain rfl : m = n := chainDigest_inj hinv.free hlt.le h.bound
    (hp.symm.trans (hdigest.trans h.digest))
  have ht : (w.slotRecords i).take (m + 1) = (w.slotRecords i).take m ++ [t.admitted] := by
    rw [take_add_one, hm]
    rfl
  have hi' : next.indexedAdmissions = w.chainState i (m + 1) := by
    rw [hi, if_neg, h.indexed]
    · unfold World.chainState
      rw [ht]
      refine sortAdmissionRecords_congr ?_ ((sortAdmissionRecords_perm _).append_right _)
      refine Distinct.perm ?_ ((sortAdmissionRecords_perm _).append_right _).symm
      rw [← ht]
      exact hd.sublist (take_sublist _ _)
    · rw [h.indexed]
      simp only [any_eq_true, decide_eq_true_eq, not_exists, not_and]
      intro earlier he
      exact not_mem_take hd hm earlier
        ((sortAdmissionRecords_perm _).mem_iff.mp he)
  refine ⟨hlt, ?_, hi', ?_, ?_, hexpired.trans h.unexpired⟩
  · rw [hn, hi', Transition.slot, hs]
    rfl
  · intro record hr
    rw [ht, mem_append, mem_singleton] at hr
    rw [ha]
    split_ifs with hnew
    · rw [(sortAdmissionRecords_perm _).mem_iff, mem_append, mem_singleton]
      exact hr.imp_left (h.active record)
    · rcases hr with hr | rfl
      · exact h.active record hr
      -- Somebody materialised the record after the state was listed.
      · rw [h.unexpired] at hnew
        simp only [contains_nil, Bool.not_false, Bool.true_and, Bool.not_eq_true',
          Bool.not_eq_false, any_eq_true, decide_eq_true_eq] at hnew
        obtain ⟨active, hmem, hrange⟩ := hnew
        rwa [← hinv.distinct.eq_of_range (h.known active hmem) hk hrange]
  · intro record hr
    rw [ha] at hr
    split_ifs at hr
    · rw [(sortAdmissionRecords_perm _).mem_iff, mem_append, mem_singleton] at hr
      rcases hr with hr | rfl
      · exact h.known record hr
      · exact hk
    · exact h.known record hr

theorem LoadedAt.advance (hinv : IndexInv f w) {fuel : ℕ} {transitions : List Transition}
    (hlinked : ∀ t ∈ transitions, LinkedAt f w i t) (h : LoadedAt f w i n s)
    (ha : s.advance f i fuel transitions = .ok next) : ∃ m, LoadedAt f w i m next := by
  induction fuel generalizing transitions s n with
  | zero =>
    cases ha
    exact ⟨n, h⟩
  | succ fuel ih =>
    rw [RangeAdmissionIndexState.advance] at ha
    split at ha
    · cases ha
      exact ⟨n, h⟩
    · rename_i t ho
      have hmem : t ∈ transitions :=
        (mem_filter.mp (ho ▸ mem_singleton_self t)).1
      obtain ⟨middle, happly, hr⟩ := Result.bind_eq_ok.mp ha
      exact ih (fun t ht =>
        hlinked t (mem_filter.mp ht).1)
        (h.applyTransition hinv (hlinked t hmem) happly) hr
    · cases ha

theorem exists_filter_eq_take {α : Type} {P : α → Prop} [DecidablePred P] {xs : List α}
    (h : ∀ (m n : ℕ) a b, xs[m]? = some a → xs[n]? = some b → m ≤ n → P b → P a) :
    ∃ n ≤ xs.length, xs.filter P = xs.take n := by
  induction xs with
  | nil => exact ⟨0, le_rfl, rfl⟩
  | cons a xs ih =>
    by_cases ha : P a
    · obtain ⟨n, hn, hf⟩ := ih fun m n a b ha hb hmn =>
        h (m + 1) (n + 1) a b ha hb (Nat.succ_le_succ hmn)
      refine ⟨n + 1, Nat.succ_le_succ hn, ?_⟩
      rw [filter_cons_of_pos (by simpa using ha), hf, take_succ_cons]
    · refine ⟨0, Nat.zero_le _, ?_⟩
      rw [take_zero, filter_eq_nil_iff]
      intro b hb
      obtain ⟨n, hn⟩ := mem_iff_getElem?.mp hb
      simpa using fun hPb => ha (h 0 n a b rfl hn n.zero_le hPb)

theorem Snapshot.exists_perm_take (hinv : IndexInv f w) {bodies : List AdmissionRecord}
    (h : Snapshot w bodies) (i : String × UInt32) :
    ∃ n ≤ (w.slotRecords i).length,
      (bodies.filter (·.range.slot = i)).Perm ((w.slotRecords i).take n) := by
  obtain ⟨n, hn, hf⟩ := exists_filter_eq_take
    (P := fun record => w.admissions.lookup record.range = some record)
    fun m n a b => hinv.ordered i m n a b
  refine ⟨n, hn, ?_⟩
  rw [← hf]
  have hnodup {rs : List AdmissionRecord} (hd : Distinct rs) : rs.Nodup :=
    hd.imp fun hne heq => hne (congrArg _ heq)
  refine (perm_ext_iff_of_nodup ((hnodup h.distinct).filter _)
    ((hnodup (hinv.distinct_slot i)).filter _)).mpr fun record => ?_
  simp only [mem_filter, decide_eq_true_eq, h.mem, mem_slotRecords]
  constructor
  · rintro ⟨hl, hs⟩
    exact ⟨⟨(hinv.materialized _ _ hl).1, hs⟩, hl⟩
  · rintro ⟨⟨-, hs⟩, hl⟩
    exact ⟨hl, hs⟩

/-- The state that a load starts from: the records at one moment, and the active ones later. -/
theorem loadedAt_of_snapshots (hinv : IndexInv f w) (hinv' : IndexInv f later)
    (hg : WorldGrows w later) {bodies active : List AdmissionRecord}
    (hb : Snapshot w bodies) (ha : Snapshot later active) :
    ∃ n, LoadedAt f later i n
      { indexedAdmissions := sortAdmissionRecords (bodies.filter (·.range.slot = i))
        activeAdmissions := sortAdmissionRecords (active.filter (·.range.slot = i))
        indexedExpiredAdmissionKeys := []
        stateDigest := f.stateDigest i
          (sortAdmissionRecords (bodies.filter (·.range.slot = i))) } := by
  obtain ⟨n, hn, hp⟩ := hb.exists_perm_take hinv i
  have hi : sortAdmissionRecords (bodies.filter (·.range.slot = i)) = later.chainState i n := by
    rw [hg.chainState_eq hn]
    exact sortAdmissionRecords_congr (hb.distinct.sublist filter_sublist) hp
  refine ⟨n, hn.trans (hg.length_le i), ?_, hi, ?_, ?_, rfl⟩
  · rw [hi]
    rfl
  · intro record hr
    rw [hg.take_eq hn] at hr
    have hbody := mem_filter.mp (hp.mem_iff.mpr hr)
    have hl := hg.admissions _ _ ((hb.mem record).mp hbody.1)
    rw [(sortAdmissionRecords_perm _).mem_iff]
    exact mem_filter.mpr ⟨(ha.mem record).mpr hl, hbody.2⟩
  · intro record hr
    rw [(sortAdmissionRecords_perm _).mem_iff] at hr
    have hl := (ha.mem record).mp (mem_filter.mp hr).1
    exact (hinv'.materialized _ _ hl).1

theorem keeps_loadRangeAdmissionIndexStateForPartition (hinv : IndexInv f w)
    {requireMaterialized : Bool} :
    Keeps f (fun s later => ∃ n, LoadedAt f later i n s)
      (loadRangeAdmissionIndexStateForPartition f i requireMaterialized) w := by
  refine Returns.bind hinv (keeps_listRangeAdmissionIndexTransitions.weaken ?_)
  intro transitions first _ hinv₁ hlinked
  refine Returns.bind hinv₁ ((overStore_index f).returns_listAdmissionRecordBodies.weaken ?_)
  rintro bodies second hsecond hinv₂ ⟨middle, -, hm, hinvm, hs⟩
  refine Returns.bind hinv₂ ((keeps_listExpiredOrphanAdmissionKeys hinv₂).weaken ?_)
  intro expired third hthird hinv₃ hexpired
  subst hexpired
  refine Returns.bind hinv₃ ((keeps_listActiveAdmissionRecords hinv₃).weaken ?_)
  rintro active fourth hf hinv₄ ⟨middle', hm', ha, hinvm', hs'⟩
  refine returns_fromExcept fun s hstate later hl hi => ?_
  obtain ⟨n, hloaded⟩ := loadedAt_of_snapshots hinvm hinvm'
    (hm.trans (hthird.trans hm')) hs hs'
  refine LoadedAt.advance hi (fun t ht => ?_)
    (hloaded.grow (ha.trans hl)) hstate
  exact (hlinked t ht).grow
    (hsecond.trans (hthird.trans (hf.trans hl)))

end Load

section Reserve
variable {f : Formats} {w later : World} {s : RangeAdmissionIndexState}
  {record : AdmissionRecord} {active : List AdmissionRecord}

theorem apart_of_admissionConflict (h : admissionConflict active record = .admitted) :
    ∀ candidate ∈ active, Apart candidate record := by
  induction active with
  | nil => exact fun _ hmem => nomatch hmem
  | cons first rest ih =>
    rw [admissionConflict] at h
    split_ifs at h with hrange hs hm
    intro candidate hmem
    rcases mem_cons.mp hmem with rfl | hmem
    · exact ⟨hrange, Bool.not_eq_true _ ▸ hm⟩
    · exact ih h candidate hmem

theorem mem_of_admissionConflict (h : admissionConflict active record = .duplicate) :
    record ∈ active := by
  induction active with
  | nil => cases h
  | cons first rest ih =>
    rw [admissionConflict] at h
    split_ifs at h with hrange hs hm
    · rw [hs]
      exact mem_cons_self
    · exact mem_cons_of_mem _ (ih h)

theorem LoadedAt.allowed (h : LoadedAt f w record.range.slot n s)
    (hc : admissionConflict s.activeAdmissions record = .admitted) :
    (Op.putTransition (rangeAdmissionIndexTransition f record s)).Allowed f w :=
  ⟨n, h.bound, h.digest, fun earlier he =>
    apart_of_admissionConflict hc earlier (h.active earlier he)⟩

theorem calls_putTransition (h : Calls w (.putTransition t) (.ok ()) later) :
    t.admitted ∈ later.admitted := by
  rcases Unreliable.calls_cases h with ⟨hr, rfl⟩ | ⟨⟨error, he, -⟩, -⟩
  · have hc := (createOnly_ok hr.symm).2
    exact (congrArg (fun later => t.admitted ∈ later.admitted) hc).mpr
      (mem_append_right _ (mem_singleton_self _))
  · cases he

/-- A record that was reserved, or was there already, has its transition. -/
def Reserved (record : AdmissionRecord) (outcome : AdmissionReservationOutcome)
    (world : World) : Prop :=
  (∃ objectKey reason, outcome = .conflict objectKey reason) ∨ record ∈ world.admitted

theorem keeps_reserveAdvances (hinv : IndexInv f w) (advances : ℕ) :
    Keeps f (Reserved record) (reserveAdvances f record advances) w := by
  induction advances generalizing w with
  | zero => exact returns_throw
  | succ advances ih =>
    refine Returns.bind hinv ((keeps_loadRangeAdmissionIndexStateForPartition hinv).weaken ?_)
    rintro s first - - ⟨n, hloaded⟩
    split
    · rename_i hc
      refine keeps_call (fun later hl _ => (hloaded.grow hl).allowed hc) ?_
      intro middle _ _ reply last hcall _ hi
      split
      · exact returns_pure fun later hl _ =>
          .inr (hl.mem_admitted (calls_putTransition hcall))
      · exact ih hi
      · exact returns_throw
    · refine returns_pure fun later hl _ => ?_
      cases hc : admissionConflict s.activeAdmissions record with
      | admitted => contradiction
      | duplicate =>
        have hk := hloaded.known record (mem_of_admissionConflict hc)
        exact .inr (hl.mem_admitted hk)
      | conflict objectKey reason => exact .inl ⟨objectKey, reason, rfl⟩

theorem keeps_materializeAdmissionRecord (hr : record ∈ w.admitted) :
    Keeps f (fun _ _ => True) (materializeAdmissionRecord f record) w := by
  refine keeps_call (fun later hl _ => hl.mem_admitted hr) ?_
  intro middle _ _ reply last _ _ hi
  split
  · exact returns_pure fun _ _ _ => trivial
  · refine keeps_of_reads (only_call trivial fun reply => (only_orFail reply).bind fun existing =>
      reads_listAdmissionExpiryDecisions.bind fun decisions => ?_)
    dsimp only
    split
    · refine (reads_objectExists _).bind fun present => (only_pure _).bind fun missing => ?_
      split_ifs <;> trivial
    · refine (only_pure false).bind fun missing => ?_
      split_ifs <;> trivial
  · exact returns_throw

theorem keeps_expiredMaterializedAdmissionConflict (hinv : IndexInv f w) :
    Keeps f (fun conflict _ => conflict = none)
      (expiredMaterializedAdmissionConflict f record) w := by
  refine Returns.bind hinv (keeps_listAdmissionExpiryDecisions.weaken ?_)
  intro decisions first _ hinv₁ hd
  subst hd
  refine Returns.bind hinv₁ ((keeps_of_reads reads_listAdmissionRecordBodies).weaken ?_)
  intro bodies second _ _ _
  split <;> exact returns_pure fun _ _ _ => rfl

theorem keeps_reserveThenMaterializeAdmissionRecord (hinv : IndexInv f w) :
    Keeps f (Reserved record) (reserveThenMaterializeAdmissionRecord f record) w := by
  refine Returns.bind hinv ((keeps_expiredMaterializedAdmissionConflict hinv).weaken ?_)
  intro expired first _ hinv₁ hexpired
  subst hexpired
  refine Returns.bind hinv₁ ((keeps_reserveAdvances hinv₁ _).weaken ?_)
  intro reserved second _ hinv₂ hresv
  split
  · exact returns_pure fun _ _ _ => .inl ⟨_, _, rfl⟩
  · rename_i hn
    have hr : record ∈ second.admitted := by
      rcases hresv with ⟨objectKey, reason, heq⟩ | hr
      · exact absurd heq (hn objectKey reason)
      · exact hr
    refine Returns.bind hinv₂ ((keeps_materializeAdmissionRecord hr).weaken ?_)
    intro materialized third hthird _ _
    split
    · exact returns_pure fun _ _ _ => .inl ⟨_, _, rfl⟩
    · have hthird' := hthird.mem_admitted hr
      split_ifs
      all_goals exact returns_pure fun _ hl _ => .inr (hl.mem_admitted hthird')

end Reserve

section Calls
variable {f : Formats} {w : World} {b : IngestBatch}

theorem keeps_appendValidatedBatch (hb : ∃ record ∈ w.admitted, record.range = b.descriptor) :
    Keeps f (fun _ _ => True) (appendValidatedBatch f b) w := by
  refine keeps_call (fun later hl _ => ?_) ?_
  · obtain ⟨record, hr, hrange⟩ := hb
    exact ⟨record, hl.mem_admitted hr, hrange⟩
  intro middle _ _ reply last _ _ _
  split
  · exact returns_pure fun _ _ _ => trivial
  · exact keeps_of_reads (only_call trivial fun reply => (only_orFail reply).bind fun existing =>
      reads_compareWithExisting f b existing)
  · exact returns_throw

theorem keeps_commitBatch {coordinator : ℕ}
    (hb : ∃ record ∈ w.admitted, record.range = b.descriptor) (hinv : IndexInv f w) :
    Keeps f (fun _ _ => True) (commitBatch f coordinator b) w := by
  refine Returns.bind hinv ((keeps_appendValidatedBatch hb).weaken ?_)
  intro outcome first _ _ _
  split
  · exact keeps_of_reads (only_call trivial fun _ => only_pure _)
  · exact returns_pure fun _ _ _ => trivial

theorem keeps_appendCatalogValidatedEnvelope (hinv : IndexInv f w) (coordinator : ℕ)
    (payload : Bytes) : Keeps f (fun _ _ => True)
      (appendCatalogValidatedEnvelope f coordinator payload) w := by
  refine Returns.bind hinv ((keeps_of_reads (reads_catalogValidatedBatch _ _)).weaken ?_)
  intro b first _ hinv₁ _
  refine Returns.bind hinv₁ ((keeps_of_reads (reads_existingBatchConflict _ _)).weaken ?_)
  intro existing second _ hinv₂ _
  split
  · exact returns_pure fun _ _ _ => trivial
  refine Returns.bind hinv₂
    ((keeps_of_reads (reads_indexedOrCommittedOverlapConflict _ _ _)).weaken ?_)
  intro conflict third _ hinv₃ _
  split
  · exact returns_pure fun _ _ _ => trivial
  refine Returns.bind hinv₃ (returns_fromExcept fun record hr fourth _ hinv₄ => ?_)
  refine Returns.bind hinv₄ ((keeps_reserveThenMaterializeAdmissionRecord hinv₄).weaken ?_)
  intro outcome fifth _ hinv₅ hresv
  split
  · exact returns_pure fun _ _ _ => trivial
  · rename_i hn
    refine Returns.bind hinv₅
      ((keeps_of_reads (reads_indexedOrCommittedOverlapConflict _ _ _)).weaken ?_)
    intro conflict sixth hs hinv₆ _
    split
    · exact returns_pure fun _ _ _ => trivial
    · refine keeps_commitBatch ?_ hinv₆
      rcases hresv with ⟨objectKey, reason, heq⟩ | ha
      · exact absurd heq (hn objectKey reason)
      · exact ⟨record, hs.mem_admitted ha, range_of_admissionRecordForBatch hr⟩

theorem keeps_reserveExternalIngestRangeAdmission (hinv : IndexInv f w)
    (coordinator : ℕ) (fields : DurableIngestAdmissionRecordV1) :
    Keeps f (fun _ _ => True) (reserveExternalIngestRangeAdmission f coordinator fields) w := by
  refine Returns.bind hinv (returns_fromExcept fun record _ first _ hinv₁ => ?_)
  refine Returns.bind hinv₁ ((keeps_of_reads (reads_committedOverlapConflict _ _)).weaken ?_)
  intro conflict second _ hinv₂ _
  split
  · exact returns_pure fun _ _ _ => trivial
  · exact (keeps_reserveThenMaterializeAdmissionRecord hinv₂).weaken fun _ _ _ _ _ => trivial

end Calls

end Velorix.Admission
