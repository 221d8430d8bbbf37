import Velorix.Admission.Chain

/-! What the calls of coordinators keep of the chain, as long as records appear in the order of
their transitions. -/
namespace Velorix.Admission

open Storage List HashMap

/-- The records whose transitions came first in the partition of the record are there. -/
def World.Preceded (world : World) (record : AdmissionRecord) : Prop :=
  ∀ n < world.admitted.length, world.admitted[n]? = some record →
    ∀ earlier ∈ world.admitted.take n, earlier.range.slot = record.range.slot →
      (world.admissions.lookup earlier.range).isSome

instance (world : World) (record : AdmissionRecord) : Decidable (world.Preceded record) := by
  unfold World.Preceded
  infer_instance

/-- A record is created only after those before it. -/
def InOrder (world : World) (op : Op) (later : World) : Prop :=
  match op with
  | .putAdmission record => world.admissions.lookup record.range = none →
    (later.admissions.lookup record.range).isSome → world.Preceded record
  | _ => True

/-- What a call relies on to keep the chain. -/
def Op.Allowed (formats : Formats) (world : World) : Op → Prop
  | .putTransition transition => ∃ n ≤ (world.slotRecords transition.slot).length,
    transition.previousStateDigest = chainDigest formats world transition.slot n ∧
      ∀ record ∈ (world.slotRecords transition.slot).take n, Apart record transition.admitted
  | .putAdmission record => record ∈ world.admitted
  | .putBatch range _ => ∃ record ∈ world.admitted, record.range = range
  | .putDecision _ => False
  | _ => True

section Puts
variable {f : Formats} {w : World} {r : AdmissionRecord} {t : Transition}

theorem apart_of_slot {a b : AdmissionRecord} (h : a.range.slot ≠ b.range.slot) : Apart a b := by
  constructor
  · intro hr
    rw [hr] at h
    exact h rfl
  · simp [IngestRange.meets, h]

def World.withTransition (world : World) (transition : Transition) : World :=
  { world with
    transitions := world.transitions.insert
      (transition.slot, transition.previousStateDigest) transition
    admitted := world.admitted ++ [transition.admitted] }

@[simp]
theorem slotRecords_withTransition (i : String × UInt32) :
    (w.withTransition t).slotRecords i =
      w.slotRecords i ++ if t.slot = i then [t.admitted] else [] := by
  show (w.admitted ++ [t.admitted]).filter _ = _
  rw [filter_append]
  congr 1
  by_cases h : t.slot = i
  · rw [if_pos h]
    exact filter_cons_of_pos (decide_eq_true h)
  · rw [if_neg h]
    exact filter_cons_of_neg (by simpa [Transition.slot] using h)

theorem grows_withTransition (hnew : w.transitions.lookup (t.slot, t.previousStateDigest) = none) :
    WorldGrows w (w.withTransition t) :=
  ⟨prefix_append _ _, fun _ _ h => h, fun _ _ => lookup_insert_of_some hnew, fun _ _ h => h,
    fun _ _ h => h⟩

theorem IndexInv.withTransition (h : IndexInv f w) (hallowed : (Op.putTransition t).Allowed f w)
    (hnew : w.transitions.lookup (t.slot, t.previousStateDigest) = none)
    (hfree : CollisionFree f (w.withTransition t)) : IndexInv f (w.withTransition t) := by
  have hg := grows_withTransition hnew
  obtain ⟨n, hn, hp, hapart⟩ := hallowed
  -- The digest is free, so the transition continues the chain at its end.
  have he : n = (w.slotRecords t.slot).length := by
    refine hn.eq_of_not_lt fun hlt => ?_
    have hsome := h.chained t.slot n hlt
    rw [← hp, hnew] at hsome
    cases hsome
  subst he
  rw [take_length] at hapart
  have hapart' : ∀ a ∈ w.admitted, Apart a t.admitted := by
    intro a ha
    by_cases hs : a.range.slot = t.slot
    · exact hapart a (mem_slotRecords.mpr ⟨ha, hs⟩)
    · exact apart_of_slot hs
  have hl' (key) : (w.withTransition t).transitions.lookup key =
      if key = (t.slot, t.previousStateDigest) then some t
      else w.transitions.lookup key := lookup_insert_eq _ _ _ _
  refine ⟨hfree, ?_, ?_, ?_, ?_, ?_, ?_, h.undecided⟩
  · intro i digest found hf
    rw [hl'] at hf
    split_ifs at hf with hkey
    · cases hf
      obtain ⟨rfl, rfl⟩ := Prod.mk.inj hkey
      refine ⟨(w.slotRecords t.slot).length, ?_, ?_, rfl⟩
      · rw [slotRecords_withTransition, if_pos rfl, getElem?_append_right le_rfl]
        simp
      · rw [hg.chainDigest_eq le_rfl, hp]
    · obtain ⟨m, hm, hd, hp'⟩ := h.linked i digest found hf
      have hlt := (List.getElem?_eq_some_iff.mp hm).1
      refine ⟨m, ?_, ?_, hp'⟩
      · rw [slotRecords_withTransition, getElem?_append_left hlt, hm]
      · rw [hg.chainDigest_eq hlt.le, hd]
  · intro i m hm
    rw [slotRecords_withTransition, length_append] at hm
    by_cases hlt : m < (w.slotRecords i).length
    · obtain ⟨found, hf⟩ := Option.isSome_iff_exists.mp (h.chained i m hlt)
      rw [hg.chainDigest_eq hlt.le, hg.transitions _ _ hf]
      rfl
    · have hs : t.slot = i := by
        by_contra hne
        rw [if_neg hne] at hm
        exact hlt (by simpa using hm)
      subst hs
      have hm' : m = (w.slotRecords t.slot).length := by
        rw [if_pos rfl, length_singleton] at hm
        omega
      subst hm'
      rw [hg.chainDigest_eq le_rfl, ← hp, hl', if_pos rfl]
      rfl
  · exact pairwise_append.mpr ⟨h.apart, pairwise_singleton _ _, by simpa using hapart'⟩
  · intro range found hf
    obtain ⟨hmem, hr⟩ := h.materialized range found hf
    exact ⟨mem_append_left _ hmem, hr⟩
  · intro i m k a b ha hb hmk hf
    rw [slotRecords_withTransition] at ha hb
    have hk : k < (w.slotRecords i).length := by
      by_contra hge
      rw [getElem?_append_right (not_lt.mp hge)] at hb
      have hmem := mem_of_getElem? hb
      split_ifs at hmem
      · cases mem_singleton.mp hmem
        exact (hapart' _ (h.materialized _ _ hf).1).1 rfl
      · cases hmem
    rw [getElem?_append_left hk] at hb
    rw [getElem?_append_left (hmk.trans_lt hk)] at ha
    exact h.ordered i m k a b ha hb hmk hf
  · intro range payload hf
    obtain ⟨found, hmem, hr⟩ := h.committed range payload hf
    exact ⟨found, mem_append_left _ hmem, hr⟩

theorem mem_before_of_slotRecords (hd : Distinct w.admitted)
    {before after : List AdmissionRecord} (hsplit : w.admitted = before ++ r :: after)
    {i : String × UInt32} {m n : ℕ} {a : AdmissionRecord} (ha : (w.slotRecords i)[m]? = some a)
    (hrec : (w.slotRecords i)[n]? = some r) (hmn : m ≤ n) (hne : a ≠ r) : a ∈ before := by
  have hs := (mem_slotRecords.mp (mem_of_getElem? hrec)).2
  have hsr : w.slotRecords i =
      before.filter (·.range.slot = i) ++ r :: after.filter (·.range.slot = i) := by
    unfold World.slotRecords
    rw [hsplit, filter_append, filter_cons_of_pos (by simpa using hs)]
  have hafter : ∀ b ∈ after, b.range ≠ r.range := by
    intro b hb hr
    rw [hsplit] at hd
    exact (pairwise_cons.mp (pairwise_append.mp hd).2.1).1 b hb hr.symm
  rw [hsr] at ha hrec
  by_cases hm : m < (before.filter (·.range.slot = i)).length
  · rw [getElem?_append_left hm] at ha
    exact (mem_filter.mp (mem_of_getElem? ha)).1
  · rw [getElem?_append_right (not_lt.mp hm)] at ha
    rw [getElem?_append_right ((not_lt.mp hm).trans hmn)] at hrec
    rcases hk : n - (before.filter (·.range.slot = i)).length with _ | k
    · rw [show m - (before.filter (·.range.slot = i)).length = 0 by omega] at ha
      exact absurd (Option.some.inj ha).symm hne
    · rw [hk, getElem?_cons_succ] at hrec
      exact absurd rfl (hafter r (mem_filter.mp (mem_of_getElem? hrec)).1)

theorem IndexInv.withAdmission (h : IndexInv f w) (hmem : r ∈ w.admitted)
    (hnew : w.admissions.lookup r.range = none) (hp : w.Preceded r) :
    IndexInv f { w with admissions := w.admissions.insert r.range r } := by
  refine ⟨h.free, h.linked, h.chained, h.apart, ?_, ?_, h.committed, h.undecided⟩
  · intro range found hf
    rcases of_lookup_insert hf with ⟨rfl, rfl⟩ | hf
    · exact ⟨hmem, rfl⟩
    · exact h.materialized range found hf
  · intro i m n a b ha hb hmn hf
    have hma : a ∈ w.admitted := (mem_slotRecords.mp (mem_of_getElem? ha)).1
    have hmb : b ∈ w.admitted := (mem_slotRecords.mp (mem_of_getElem? hb)).1
    have hl (range) : (w.admissions.insert r.range r).lookup range =
        if range = r.range then some r else w.admissions.lookup range :=
      lookup_insert_eq _ _ _ _
    show (w.admissions.insert r.range r).lookup a.range = some a
    have hf : (w.admissions.insert r.range r).lookup b.range = some b := hf
    rw [hl] at hf ⊢
    by_cases harecord : a.range = r.range
    · rw [if_pos harecord, h.distinct.eq_of_range hma hmem harecord]
    rw [if_neg harecord]
    split_ifs at hf with hbrecord
    · -- The records before the new one are there.
      cases hf
      obtain ⟨before, after, hsplit⟩ := append_of_mem hmem
      have hbefore := mem_before_of_slotRecords h.distinct hsplit ha hb hmn
        (by rintro rfl; exact harecord rfl)
      have hs : a.range.slot = r.range.slot :=
        ((mem_slotRecords.mp (mem_of_getElem? ha)).2).trans
          (mem_slotRecords.mp (mem_of_getElem? hb)).2.symm
      have hg : w.admitted[before.length]? = some r := by
        rw [hsplit, getElem?_append_right le_rfl, Nat.sub_self, getElem?_cons_zero]
      have ht : a ∈ w.admitted.take before.length := by
        rwa [hsplit, take_left]
      obtain ⟨found, hf⟩ := Option.isSome_iff_exists.mp
        (hp _ (List.getElem?_eq_some_iff.mp hg).1 hg a ht hs)
      obtain ⟨hmem', hr⟩ := h.materialized _ _ hf
      rw [hf, h.distinct.eq_of_range hmem' hma hr]
    · exact h.ordered i m n a b ha hb hmn hf

theorem grows_answer (w : World) (op : Op) : WorldGrows w (w.answer op).2 := by
  have hs := WorldGrows.refl w
  cases op with
  | putTransition t =>
    exact createOnly_keeps hs fun hnew => grows_withTransition hnew
  | putAdmission r =>
    exact createOnly_keeps hs fun hnew => ⟨prefix_rfl, fun _ _ => lookup_insert_of_some hnew,
      fun _ _ h => h, fun _ _ h => h, fun _ _ h => h⟩
  | putBatch range payload =>
    exact createOnly_keeps hs fun hnew => ⟨prefix_rfl, fun _ _ h => h, fun _ _ h => h,
      fun _ _ => lookup_insert_of_some hnew, fun _ _ h => h⟩
  | putDecision decision =>
    exact createOnly_keeps hs fun hnew => ⟨prefix_rfl, fun _ _ h => h, fun _ _ h => h,
      fun _ _ h => h, fun _ _ => lookup_insert_of_some hnew⟩
  | fillCommittedCache coordinator committed | extendCommittedCache coordinator descriptor =>
    exact ⟨prefix_rfl, fun _ _ h => h, fun _ _ h => h, fun _ _ h => h, fun _ _ h => h⟩
  | _ => exact hs

theorem Calls.grows {op : Op} {reply : Reply op} {later : World}
    (h : Calls w op reply later) : WorldGrows w later := by
  rcases Unreliable.calls_cases h with ⟨-, rfl⟩ | ⟨-, rfl | rfl⟩
  · exact grows_answer w op
  · exact grows_answer w op
  · exact .refl later

theorem IndexInv.answer (h : IndexInv f w) {op : Op}
    (hallowed : op.Allowed f w) (ho : InOrder w op (w.answer op).2)
    (hfree : CollisionFree f (w.answer op).2) : IndexInv f (w.answer op).2 := by
  cases op with
  | putTransition t =>
    exact createOnly_keeps (P := fun later => CollisionFree f later →
      IndexInv f later) (fun _ => h) (fun hnew => h.withTransition hallowed hnew) hfree
  | putAdmission r =>
    refine createOnly_keeps (P := fun later => InOrder w (.putAdmission r) later →
      IndexInv f later) (fun _ => h) (fun hnew ho => ?_) ho
    exact h.withAdmission hallowed hnew
      (ho hnew (Option.isSome_of_eq_some (AList.lookup_insert _)))
  | putBatch range payload =>
    refine createOnly_keeps h fun _ =>
      ⟨h.free, h.linked, h.chained, h.apart, h.materialized, h.ordered, ?_, h.undecided⟩
    intro range' payload' hl
    rcases of_lookup_insert hl with ⟨hr, -⟩ | hl
    · obtain ⟨r, hmem, hrec⟩ := hallowed
      exact ⟨r, hmem, hrec.trans hr.symm⟩
    · exact h.committed range' payload' hl
  | putDecision decision => exact hallowed.elim
  | fillCommittedCache coordinator committed | extendCommittedCache coordinator descriptor =>
    exact ⟨h.free, h.linked, h.chained, h.apart, h.materialized, h.ordered, h.committed,
      h.undecided⟩
  | _ => exact h

end Puts

end Velorix.Admission
