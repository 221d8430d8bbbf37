import Velorix.Delta.NetRows

/-! Consolidated batches. Net rows are consolidated, and a consolidated batch is its own
net rows; a batch without a negative sum has net rows without a negative weight. -/
namespace Velorix.Delta.DeltaBatch

open List

variable {batch : DeltaBatch} {rows : List DeltaRecord}

/-- Rows in strictly ascending order of their encodings, none of weight zero. -/
structure Consolidated (rows : List DeltaRecord) : Prop where
  ascending : rows.Pairwise fun a b => a.encoding < b.encoding
  nonzero : ∀ r ∈ rows, r.weight.val ≠ 0

theorem consolidated_nil : Consolidated [] := ⟨List.Pairwise.nil, by simp⟩

theorem consolidated_netRows (h : batch.netRows = .ok rows) : Consolidated rows :=
  ⟨netRows_sorted h, fun _ hr => ((mem_netRows h).mp hr).2.2⟩

section
variable (h : rows.Pairwise fun a b => a.encoding ≠ b.encoding)
include h

theorem encodedWeight_of_distinct
    {r : DeltaRecord} (hr : r ∈ rows) : encodedWeight r.encoding rows = r.weight.val := by
  induction rows with
  | nil => cases hr
  | cons a rest ih =>
    obtain ⟨hne, hrest⟩ := pairwise_cons.mp h
    rw [encodedWeight, weightAt_cons]
    rcases mem_cons.mp hr with rfl | hr
    · have hn : weightAt DeltaRecord.encoding (fun r => r.weight.val) r.encoding rest = 0 :=
        weightAt_eq_zero fun b hb => (hne b hb).symm
      rw [if_pos rfl, hn, add_zero]
    · rw [if_neg (hne r hr), zero_add]
      exact ih hrest hr

private theorem firstPair_of_distinct
    {r : DeltaRecord} (hr : r ∈ rows) : firstPair r.encoding rows = some r.pair := by
  induction rows with
  | nil => cases hr
  | cons a rest ih =>
    obtain ⟨hne, hrest⟩ := pairwise_cons.mp h
    rcases mem_cons.mp hr with rfl | hr
    · simp [firstPair]
    · rw [firstPair, find?_cons_of_neg (by simpa using hne r hr)]
      exact ih hrest hr

private theorem fits_of_distinct (code : List Char) : SInt.Fits 64 (encodedWeight code rows) := by
  by_cases hc : ∃ r ∈ rows, r.encoding = code
  · obtain ⟨r, hr, rfl⟩ := hc
    rw [encodedWeight_of_distinct h hr]
    exact r.weight.val_fits
  · push Not at hc
    rw [encodedWeight_eq_zero hc]
    decide

end

theorem fits128_of_fits64 {x : ℤ} (h : SInt.Fits 64 x) : SInt.Fits 128 x := by
  rw [SInt.fits64_iff] at h
  rw [SInt.fits128_iff]
  omega

private theorem consolidate_of_distinct
    (h : batch.records.Pairwise fun a b => a.encoding ≠ b.encoding) :
    ∃ net, batch.consolidate = .ok net ∧ Represents batch.records net := by
  refine Result.foldlM_total represents_nil fun {seen net r rest} hsplit hs => ?_
  refine (consolidateRecord_cases hs r).resolve_left fun ho => ho.1 ?_
  have hseen : (seen ++ [r]).Pairwise fun a b => a.encoding ≠ b.encoding := by
    refine h.sublist ?_
    have ha : batch.records = (seen ++ [r]) ++ rest := by simp [hsplit]
    rw [ha]
    exact sublist_append_left ..
  exact fits128_of_fits64 (fits_of_distinct hseen _)

private theorem eq_of_mem_iff {rows' : List DeltaRecord}
    (h : rows.Pairwise fun a b => a.encoding < b.encoding)
    (h' : rows'.Pairwise fun a b => a.encoding < b.encoding) (hm : ∀ r, r ∈ rows ↔ r ∈ rows') :
    rows = rows' := by
  have hn {l : List DeltaRecord} (hl : l.Pairwise fun a b => a.encoding < b.encoding) :
      l.Nodup := hl.imp fun hab heq => absurd (heq ▸ hab) (lt_irrefl _)
  refine List.Perm.eq_of_pairwise ?_ h h' ((perm_ext_iff_of_nodup (hn h) (hn h')).mpr hm)
  intro a b _ _ hab hba
  exact absurd (hab.trans hba) (lt_irrefl _)

theorem netRows_of_distinct (h : batch.records.Pairwise fun a b => a.encoding ≠ b.encoding) :
    ∃ rows, batch.netRows = .ok rows := by
  obtain ⟨net, hn, -⟩ := consolidate_of_distinct h
  rcases hrows : batch.netRows with e | rows
  · obtain ⟨code, hc⟩ := (netRows_eq_error_of_consolidate hn).mp hrows
    exact absurd (fits_of_distinct h code) hc
  · exact ⟨rows, rfl⟩

theorem Consolidated.distinct (h : Consolidated rows) :
    rows.Pairwise fun a b => a.encoding ≠ b.encoding := h.ascending.imp ne_of_lt

theorem Consolidated.netRows (h : Consolidated rows) : (DeltaBatch.mk rows).netRows = .ok rows := by
  obtain ⟨rows', hrows⟩ : ∃ rows', (DeltaBatch.mk rows).netRows = .ok rows' :=
    netRows_of_distinct h.distinct
  rw [hrows]
  refine congrArg Except.ok (eq_of_mem_iff (netRows_sorted hrows) h.ascending fun r => ?_)
  rw [mem_netRows hrows]
  constructor
  · rintro ⟨hp, hs, -⟩
    obtain ⟨a, ha, hap⟩ := Option.map_eq_some_iff.mp hp
    have hm := mem_of_find?_eq_some ha
    have hc : a.encoding = r.encoding := by simpa using find?_some ha
    have hw : a.weight = r.weight := by
      rw [← hc, encodedWeight_of_distinct h.distinct hm] at hs
      exact SInt.val_inj.mp hs
    have har : a = r := by
      obtain ⟨_, _, _⟩ := a
      obtain ⟨_, _, _⟩ := r
      simp_all [DeltaRecord.pair]
    exact har ▸ hm
  · intro hr
    exact ⟨firstPair_of_distinct h.distinct hr, encodedWeight_of_distinct h.distinct hr,
      h.nonzero r hr⟩

/-- The net rows are fine and none is negative exactly when every sum is a non-negative
`i64`. -/
theorem netRows_nonNegative_iff (hl : batch.records.length < 2 ^ 63) :
    (∃ rows, batch.netRows = .ok rows ∧ ∀ r ∈ rows, 0 ≤ r.weight.val) ↔
      ∀ code, 0 ≤ encodedWeight code batch.records ∧ encodedWeight code batch.records < 2 ^ 63 := by
  have he := netRows_eq_error_iff hl
  constructor
  · rintro ⟨rows, hrows, hnonneg⟩ code
    have hfits : SInt.Fits 64 (encodedWeight code batch.records) := by
      by_contra ho
      have := he.mpr ⟨code, ho⟩
      rw [hrows] at this
      cases this
    refine ⟨?_, (SInt.fits64_iff.mp hfits).2⟩
    by_contra hneg
    obtain ⟨a, ha, hc⟩ : ∃ a ∈ batch.records, a.encoding = code := by
      by_contra hn
      push Not at hn
      rw [encodedWeight_eq_zero hn] at hneg
      exact hneg le_rfl
    obtain ⟨w, hw⟩ : ∃ w : I64, w.val = encodedWeight code batch.records := ⟨.ofFits _ hfits, rfl⟩
    rcases hf : firstPair code batch.records with _ | p
    · rw [firstPair, Option.map_eq_none_iff, find?_eq_none] at hf
      exact hf a ha (by simpa using hc)
    · have hp := encoding_of_firstPair hf
      have hm : (⟨p.1, p.2, w⟩ : DeltaRecord) ∈ rows := by
        rw [mem_netRows hrows, DeltaRecord.encoding, hp, hw]
        exact ⟨hf, rfl, by omega⟩
      have hr : 0 ≤ w.val := hnonneg _ hm
      omega
  · intro h
    rcases hrows : batch.netRows with e | rows
    · obtain ⟨code, hc⟩ := he.mp hrows
      exact absurd (SInt.fits64_iff.mpr ⟨by linarith [(h code).1], (h code).2⟩) hc
    · refine ⟨rows, rfl, fun r hr => ?_⟩
      rw [← ((mem_netRows hrows).mp hr).2.1]
      exact (h _).1

end Velorix.Delta.DeltaBatch
