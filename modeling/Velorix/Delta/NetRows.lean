import Velorix.Delta.Batch
import Velorix.Foundation.SignedSum

/-! What consolidation returns. The rows are the encodings whose weights do not
cancel, each with the pair first seen under it; this is the exact signed sum per
pair as long as no two different pairs share an encoding. -/
namespace Velorix.Delta

open Json Result Option List SInt

/-- The exact weight of all records with one encoding. -/
def encodedWeight (code : List Char) (records : List DeltaRecord) : ℤ :=
  weightAt DeltaRecord.encoding (fun r => r.weight.val) code records

/-- The exact weight of all records of one (key, value) pair. -/
def pairWeight (pair : Value × Value) (records : List DeltaRecord) : ℤ :=
  weightAt DeltaRecord.pair (fun r => r.weight.val) pair records

def firstPair (code : List Char) (records : List DeltaRecord) : Option (Value × Value) :=
  (records.find? fun r => r.encoding = code).map DeltaRecord.pair

theorem encoding_of_pair {a b : DeltaRecord} (h : a.pair = b.pair) : a.encoding = b.encoding :=
  congrArg (fun pair : Value × Value => encodeKvOrdered pair.1 pair.2) h

namespace DeltaBatch

variable {net : SortedMap (List Char) NetCell} {batch : DeltaBatch}
  {rs rows : List DeltaRecord} {pair : Value × Value} {r : DeltaRecord}

/-- The consolidation map after the records seen so far. -/
def Represents (seen : List DeltaRecord) (net : SortedMap (List Char) NetCell) : Prop :=
  ∀ code, (net.find? code).map (fun cell => (cell.key, cell.value)) = firstPair code seen ∧
    ((net.find? code).map fun cell => cell.weight.val).getD 0 = encodedWeight code seen

theorem represents_nil : Represents [] ∅ := fun _ => ⟨by simp [firstPair], by
  simp [encodedWeight]⟩

private theorem firstPair_append (code : List Char) (seen : List DeltaRecord)
    (rec : DeltaRecord) : firstPair code (seen ++ [rec]) =
      (firstPair code seen).or (if rec.encoding = code then some rec.pair else none) := by
  rw [firstPair, firstPair, find?_append]
  rcases hf : seen.find? fun r => decide (r.encoding = code) with _ | r
  · by_cases h : rec.encoding = code <;> simp [h]
  · simp [hf]

private theorem encodedWeight_append (code : List Char) (seen : List DeltaRecord)
    (rec : DeltaRecord) : encodedWeight code (seen ++ [rec]) =
      encodedWeight code seen + if rec.encoding = code then rec.weight.val else 0 := by
  rw [encodedWeight, weightAt_append, weightAt_cons, weightAt_nil, add_zero]
  rfl

/-- One record: either the sum of its encoding leaves `i128`, or the map is extended. -/
theorem consolidateRecord_cases {seen : List DeltaRecord} (h : Represents seen net)
    (rec : DeltaRecord) :
    (¬ SInt.Fits 128 (encodedWeight rec.encoding (seen ++ [rec])) ∧
      consolidateRecord net rec = .error .weightOverflow) ∨
    ∃ net', consolidateRecord net rec = .ok net' ∧ Represents (seen ++ [rec]) net' := by
  obtain ⟨hpair, hsum⟩ := h rec.encoding
  set cell := (net.find? rec.encoding).getD ⟨rec.key, rec.value, 0⟩ with hcell
  have hw : cell.weight.val = encodedWeight rec.encoding seen := by
    rw [← hsum, hcell]
    cases net.find? rec.encoding <;> rfl
  have hkv : (cell.key, cell.value) = (firstPair rec.encoding seen).getD rec.pair := by
    rw [← hpair, hcell]
    cases net.find? rec.encoding <;> rfl
  have hn : cell.weight.val + rec.weight.val = encodedWeight rec.encoding (seen ++ [rec]) := by
    rw [encodedWeight_append, if_pos rfl, hw]
  have ha : cell.weight.checkedAdd rec.weight.toI128 =
      SInt.ofInt? 128 (encodedWeight rec.encoding (seen ++ [rec])) := by
    rw [← hn]
    rfl
  simp only [consolidateRecord, ← hcell, ha]
  rcases hf : SInt.ofInt? 128 (encodedWeight rec.encoding (seen ++ [rec])) with _ | weight
  · exact Or.inl ⟨ofInt?_eq_none.mp hf, rfl⟩
  · refine Or.inr ⟨_, rfl, fun code => ?_⟩
    have hv := ofInt?_eq_some.mp hf
    rw [SortedMap.find?_insert, firstPair_append, encodedWeight_append]
    by_cases hc : rec.encoding = code
    · subst hc
      rw [if_pos rfl, if_pos rfl, if_pos rfl]
      refine ⟨?_, ?_⟩
      · simp only [map_some, hkv]
        cases firstPair rec.encoding seen <;> rfl
      · simp only [map_some, getD_some, hv, encodedWeight_append, if_pos]
    · rw [if_neg hc, if_neg hc, if_neg hc, or_none, add_zero]
      exact h code

theorem consolidate_represents (h : batch.consolidate = .ok net) :
    Represents batch.records net := by
  refine foldlM_ok_induct h represents_nil fun hs hstep => ?_
  rcases consolidateRecord_cases hs _ with ⟨-, he⟩ | ⟨net', hok, hrep⟩
  · rw [he] at hstep
    cases hstep
  · rw [hok] at hstep
    cases hstep
    exact hrep

theorem abs_encodedWeight_le (code : List Char) (rs : List DeltaRecord) :
    |encodedWeight code rs| ≤ rs.length * 2 ^ 63 := by
  refine abs_weightAt_le (fun r _ => ?_) (by norm_num)
  obtain ⟨hlo, hhi⟩ := fits64_iff.mp r.weight.val_fits
  rw [abs_le]
  omega

theorem consolidate_total (h : batch.records.length < 2 ^ 63) :
    ∃ net, batch.consolidate = .ok net ∧ Represents batch.records net := by
  refine foldlM_total represents_nil fun {seen net rec rest} hsplit hs => ?_
  rcases consolidateRecord_cases hs rec with ⟨ho, -⟩ | hok
  · exfalso
    have hb := abs_encodedWeight_le rec.encoding (seen ++ [rec])
    have hl : (seen ++ [rec]).length ≤ batch.records.length := by simp [hsplit]
    have hle : ((seen ++ [rec]).length : ℤ) * 2 ^ 63 < 2 ^ 127 := by
      have : ((seen ++ [rec]).length : ℤ) < 2 ^ 63 := by exact_mod_cast hl.trans_lt h
      nlinarith
    rw [abs_le] at hb
    exact ho (fits128_iff.mpr ⟨by linarith [hb.1], by linarith [hb.2]⟩)
  · exact hok

theorem encoding_of_firstPair {code : List Char} (h : firstPair code rs = some pair) :
    encodeKvOrdered pair.1 pair.2 = code := by
  obtain ⟨r, hr, rfl⟩ := map_eq_some_iff.mp h
  have hc := find?_some hr
  exact of_decide_eq_true hc

theorem row_eq_some_ok {cell : NetCell} :
    cell.row = some (.ok r) ↔
      cell.key = r.key ∧ cell.value = r.value ∧ cell.weight.val = r.weight.val ∧
        r.weight.val ≠ 0 := by
  unfold NetCell.row
  have hz : cell.weight = 0 ↔ cell.weight.val = 0 := by rw [← val_inj]; rfl
  split_ifs with h0
  · rw [hz] at h0
    simp only [h0, false_iff, not_and]
    intro _ _ h
    simp [← h]
  · rw [hz] at h0
    rcases h64 : cell.weight.toI64? with _ | w
    · simp only [Option.some.injEq, reduceCtorEq, false_iff, not_and]
      intro _ _ h
      rw [toI64?_eq_none, h] at h64
      exact absurd r.weight.val_fits h64
    · have hw := toI64?_eq_some.mp h64
      obtain ⟨key, value, weight⟩ := r
      simp only [Option.some.injEq, Except.ok.injEq, DeltaRecord.mk.injEq, ← hw, val_inj]
      constructor
      · rintro ⟨rfl, rfl, rfl⟩
        exact ⟨rfl, rfl, rfl, hw ▸ h0⟩
      · rintro ⟨rfl, rfl, rfl, -⟩
        exact ⟨rfl, rfl, rfl⟩

theorem row_eq_some_error {cell : NetCell} {e : DeltaError} :
    cell.row = some (.error e) ↔ ¬ SInt.Fits 64 cell.weight.val := by
  unfold NetCell.row
  split_ifs with h0
  · simp [h0, SInt.Fits]
  · rcases h64 : cell.weight.toI64? with _ | w
    · simpa using toI64?_eq_none.mp h64
    · have hw := toI64?_eq_some.mp h64
      simp only [Option.some.injEq, reduceCtorEq, false_iff, not_not, ← hw]
      exact w.val_fits

/-- A row of the result: an encoding with its first pair and its non-zero sum. -/
theorem mem_netRows (h : batch.netRows = .ok rows) :
    r ∈ rows ↔ firstPair r.encoding batch.records = some r.pair ∧
      encodedWeight r.encoding batch.records = r.weight.val ∧ r.weight.val ≠ 0 := by
  obtain ⟨net, hn, hrows⟩ := bind_eq_ok.mp h
  have hrep := consolidate_represents hn
  have hm : r ∈ rows ↔ ∃ code, ∃ cell, net.find? code = some cell ∧ cell.row = some (.ok r) := by
    have : r ∈ rows ↔ (.ok r : Except DeltaError DeltaRecord) ∈ rows.map .ok := by simp
    rw [this, ← mapM_id_eq_ok.mp hrows, mem_filterMap]
    constructor
    · rintro ⟨cell, hcell, hrow⟩
      obtain ⟨code, hc⟩ := SortedMap.mem_values_iff.mp hcell
      exact ⟨code, cell, hc, hrow⟩
    · rintro ⟨code, cell, hc, hrow⟩
      exact ⟨cell, SortedMap.mem_values_iff.mpr ⟨code, hc⟩, hrow⟩
  rw [hm]
  constructor
  · rintro ⟨code, cell, hf, hrow⟩
    obtain ⟨hk, hv, hw, hne⟩ := row_eq_some_ok.mp hrow
    obtain ⟨hpair, hsum⟩ := hrep code
    rw [hf] at hpair hsum
    simp only [map_some, getD_some, hk, hv, hw] at hpair hsum
    have hc : r.encoding = code := encoding_of_firstPair hpair.symm
    rw [hc]
    exact ⟨hpair.symm, hsum.symm, hne⟩
  · rintro ⟨hpair, hsum, hne⟩
    obtain ⟨hp, hs⟩ := hrep r.encoding
    rw [hpair] at hp
    obtain ⟨cell, hcell, hcp⟩ := map_eq_some_iff.mp hp
    rw [hcell, map_some, getD_some, hsum] at hs
    exact ⟨_, cell, hcell, row_eq_some_ok.mpr
      ⟨congrArg Prod.fst hcp, congrArg Prod.snd hcp, hs, hne⟩⟩

theorem netRows_sorted (h : batch.netRows = .ok rows) :
    rows.Pairwise fun a b => a.encoding < b.encoding := by
  obtain ⟨net, hn, hrows⟩ := bind_eq_ok.mp h
  have hrep := consolidate_represents hn
  have hc {e : List Char × NetCell} (he : e ∈ net.entries) {r : DeltaRecord}
      (hr : e.2.row = some (.ok r)) : r.encoding = e.1 := by
    obtain ⟨hk, hv, -⟩ := row_eq_some_ok.mp hr
    obtain ⟨hpair, -⟩ := hrep e.1
    rw [(SortedMap.mem_entries_iff (k := e.1) (v := e.2)).mp he, map_some, hk, hv] at hpair
    exact encoding_of_firstPair hpair.symm
  have hm := mapM_id_eq_ok.mp hrows
  rw [SortedMap.values, filterMap_map] at hm
  have hpw : (rows.map (Except.ok : DeltaRecord → Except DeltaError DeltaRecord)).Pairwise
      fun x y => ∀ a b, x = .ok a → y = .ok b → a.encoding < b.encoding := by
    rw [← hm, pairwise_filterMap]
    refine List.Pairwise.imp_of_mem ?_ net.sorted
    rintro e f he hf hlt x hx y hy a b rfl rfl
    rw [hc he hx, hc hf hy]
    exact hlt
  rw [pairwise_map] at hpw
  exact hpw.imp fun hab => hab _ _ rfl rfl

theorem netRows_nodup (h : batch.netRows = .ok rows) : rows.Nodup :=
  (netRows_sorted h).imp fun hab heq => absurd (heq ▸ hab) (lt_irrefl _)

theorem netRows_eq_error_of_consolidate (hn : batch.consolidate = .ok net) :
    batch.netRows = .error .weightOverflow ↔
      ∃ code, ¬ SInt.Fits 64 (encodedWeight code batch.records) := by
  have hrep := consolidate_represents hn
  have hsum {code : List Char} {cell : NetCell} (hf : net.find? code = some cell) :
      cell.weight.val = encodedWeight code batch.records := by
    rw [← (hrep code).2, hf]
    rfl
  rw [netRows, hn, ok_bind, mapM_eq_error_iff]
  simp only [id, exists_eq_right, mem_filterMap, row_eq_some_error]
  constructor
  · rintro ⟨cell, hcell, ho⟩
    obtain ⟨code, hc⟩ := SortedMap.mem_values_iff.mp hcell
    exact ⟨code, hsum hc ▸ ho⟩
  · rintro ⟨code, ho⟩
    rcases hf : net.find? code with _ | cell
    · rw [← (hrep code).2, hf] at ho
      exact absurd (by decide) ho
    · exact ⟨cell, SortedMap.mem_values_iff.mpr ⟨code, hf⟩, by rwa [hsum hf]⟩

theorem netRows_eq_error_iff (h : batch.records.length < 2 ^ 63) :
    batch.netRows = .error .weightOverflow ↔
      ∃ code, ¬ SInt.Fits 64 (encodedWeight code batch.records) := by
  obtain ⟨net, hn, -⟩ := consolidate_total h
  exact netRows_eq_error_of_consolidate hn

/-- Different pairs of the batch have different encodings. -/
def Separated (records : List DeltaRecord) : Prop :=
  ∀ a ∈ records, ∀ b ∈ records, a.encoding = b.encoding → a.pair = b.pair

theorem Separated.encodedWeight_eq (h : Separated rs) (hr : r ∈ rs) :
    encodedWeight r.encoding rs = pairWeight r.pair rs :=
  weightAt_congr fun a ha => ⟨h a ha r hr, encoding_of_pair⟩

theorem Separated.firstPair_eq (h : Separated rs) (hr : r ∈ rs) :
    firstPair r.encoding rs = some r.pair := by
  rcases hf : rs.find? fun a => decide (a.encoding = r.encoding) with _ | a
  · simpa using find?_eq_none.mp hf r hr
  · have hc := find?_some hf
    rw [firstPair, hf, map_some,
      h a (mem_of_find?_eq_some hf) r hr (of_decide_eq_true hc)]

theorem pairWeight_eq_zero (h : ∀ r ∈ rs, r.pair ≠ pair) : pairWeight pair rs = 0 :=
  weightAt_eq_zero h

theorem encodedWeight_eq_zero {code : List Char} (h : ∀ r ∈ rs, r.encoding ≠ code) :
    encodedWeight code rs = 0 := weightAt_eq_zero h

theorem Separated.mem_netRows (hsep : Separated batch.records) (h : batch.netRows = .ok rows) :
    r ∈ rows ↔ pairWeight r.pair batch.records = r.weight.val ∧ r.weight.val ≠ 0 := by
  rw [DeltaBatch.mem_netRows h]
  constructor
  · rintro ⟨hpair, hsum, hne⟩
    obtain ⟨a, ha, hap⟩ := map_eq_some_iff.mp hpair
    have hm := mem_of_find?_eq_some ha
    have hc : a.encoding = r.encoding := of_decide_eq_true (by simpa using find?_some ha)
    rw [← hap, ← hsep.encodedWeight_eq hm, hc]
    exact ⟨hsum, hne⟩
  · rintro ⟨hsum, hne⟩
    obtain ⟨a, ha, hap⟩ : ∃ a ∈ batch.records, a.pair = r.pair := by
      by_contra hn
      push Not at hn
      rw [pairWeight_eq_zero hn] at hsum
      exact hne hsum.symm
    rw [← encoding_of_pair hap, hsep.firstPair_eq ha, hap, hsep.encodedWeight_eq ha, hap]
    exact ⟨rfl, hsum, hne⟩

/-- Consolidation is exact on a batch: the rows are the pairs whose weights do not
cancel, once each and with the exact sum; no record lands in the cell of another
pair; and it fails exactly when the sum of some pair leaves `i64`. -/
structure ConsolidatesExactly (batch : DeltaBatch) : Prop where
  rows : ∀ rows, batch.netRows = .ok rows → ∀ pair,
    ((rows.filter fun r => r.pair = pair).map fun r => r.weight.val) =
      if pairWeight pair batch.records = 0 then [] else [pairWeight pair batch.records]
  unmerged : ∀ net, batch.consolidate = .ok net → ∀ r ∈ batch.records,
    (net.find? r.encoding).map (fun cell => (cell.key, cell.value)) = some r.pair
  overflow : batch.netRows = .error .weightOverflow ↔
    ∃ pair, ¬ SInt.Fits 64 (pairWeight pair batch.records)

/-- Two number pairs whose printed key and value run together into one text. -/
def NumbersRunTogether (a b : Value × Value) : Prop :=
  ∃ m n m' n' : Number, a = (.number m, .number n) ∧ b = (.number m', .number n') ∧
    m.text ++ n.text = m'.text ++ n'.text

/-- Different pairs of numbers whose digits run together. -/
def Ambiguous (a b : Value × Value) : Prop := a ≠ b ∧ NumbersRunTogether a b

/-- No field name anywhere in the records has a double quote. -/
def PlainNames (records : List DeltaRecord) : Prop :=
  ∀ r ∈ records, r.key.plainNames = true ∧ r.value.plainNames = true

theorem eq_number_of_isNumber {v : Value} (h : v.isNumber = true) : ∃ n, v = Value.number n := by
  obtain ⟨tree, hv⟩ := v
  cases tree with
  | number n => exact ⟨n, rfl⟩
  | bool b => cases b <;> cases h
  | _ => cases h

theorem PlainNames.ambiguous_iff (hp : PlainNames rs) {a b : DeltaRecord} (ha : a ∈ rs)
    (hb : b ∈ rs) : Ambiguous a.pair b.pair ↔ a.pair ≠ b.pair ∧ a.encoding = b.encoding := by
  constructor
  · rintro ⟨hne, m, n, m', n', ha, hb, h⟩
    refine ⟨hne, ?_⟩
    show encodeKvOrdered a.pair.1 a.pair.2 = encodeKvOrdered b.pair.1 b.pair.2
    rw [ha, hb]
    exact h
  · rintro ⟨hne, h⟩
    have hnum : a.key.isNumber = true ∧ b.key.isNumber = true ∧ a.value.isNumber = true ∧
        b.value.isNumber = true := by
      by_contra hnot
      obtain ⟨hk, hv⟩ := encodeKvOrdered_inj (hp a ha).1 (hp b hb).1 (hp a ha).2 (hp b hb).2 hnot h
      exact hne (Prod.ext hk hv)
    obtain ⟨m, hm⟩ := eq_number_of_isNumber hnum.1
    obtain ⟨m', hm'⟩ := eq_number_of_isNumber hnum.2.1
    obtain ⟨n, hn⟩ := eq_number_of_isNumber hnum.2.2.1
    obtain ⟨n', hn'⟩ := eq_number_of_isNumber hnum.2.2.2
    refine ⟨hne, m, n, m', n', Prod.ext hm hn, Prod.ext hm' hn', ?_⟩
    rw [DeltaRecord.encoding, DeltaRecord.encoding, hm, hn, hm', hn'] at h
    exact h

theorem PlainNames.separated_iff (hp : PlainNames rs) :
    Separated rs ↔ ∀ a ∈ rs, ∀ b ∈ rs, ¬ Ambiguous a.pair b.pair := by
  refine forall₂_congr fun a ha => forall₂_congr fun b hb => ?_
  rw [hp.ambiguous_iff ha hb, not_and, not_imp_comm, not_not]

private theorem exists_record_of_weight_ne_zero (h : pairWeight pair rs ≠ 0) :
    ∃ r ∈ rs, r.pair = pair := by
  by_contra hn
  push Not at hn
  exact h (pairWeight_eq_zero hn)

theorem Separated.fits_iff (h : Separated rs) :
    (∃ code, ¬ SInt.Fits 64 (encodedWeight code rs)) ↔
      ∃ pair, ¬ SInt.Fits 64 (pairWeight pair rs) := by
  have hf : SInt.Fits 64 0 := by decide
  constructor
  · rintro ⟨code, ho⟩
    obtain ⟨r, hr, rfl⟩ : ∃ r ∈ rs, r.encoding = code := by
      by_contra hn
      push Not at hn
      exact ho (encodedWeight_eq_zero hn ▸ hf)
    exact ⟨r.pair, h.encodedWeight_eq hr ▸ ho⟩
  · rintro ⟨pair, ho⟩
    have hne : pairWeight pair rs ≠ 0 := fun h0 => ho (h0 ▸ hf)
    obtain ⟨r, hr, rfl⟩ := exists_record_of_weight_ne_zero hne
    exact ⟨r.encoding, by rwa [h.encodedWeight_eq hr]⟩

theorem Separated.rows_exact (hsep : Separated batch.records) (hl : batch.records.length < 2 ^ 63)
    (h : batch.netRows = .ok rows) (pair : Value × Value) :
    ((rows.filter fun r => r.pair = pair).map fun r => r.weight.val) =
      if pairWeight pair batch.records = 0 then [] else [pairWeight pair batch.records] := by
  have hm {r : DeltaRecord} : r ∈ (rows.filter fun r => r.pair = pair) ↔
      r.pair = pair ∧ pairWeight pair batch.records = r.weight.val ∧ r.weight.val ≠ 0 := by
    rw [mem_filter, hsep.mem_netRows h, decide_eq_true_eq]
    constructor
    · rintro ⟨hr, rfl⟩
      exact ⟨rfl, hr⟩
    · rintro ⟨rfl, hr⟩
      exact ⟨hr, rfl⟩
  split_ifs with h0
  · rw [map_eq_nil_iff, eq_nil_iff_forall_not_mem]
    intro r hr
    obtain ⟨-, hw, hne⟩ := hm.mp hr
    exact hne (hw ▸ h0)
  · -- The sum fits, since consolidation succeeded, so the pair has its one row.
    have hf : SInt.Fits 64 (pairWeight pair batch.records) := by
      by_contra ho
      have he := (netRows_eq_error_iff hl).mpr (hsep.fits_iff.mpr ⟨pair, ho⟩)
      rw [h] at he
      cases he
    set row : DeltaRecord := ⟨pair.1, pair.2, SInt.ofFits _ hf⟩ with hrow
    have hs : (rows.filter fun r => r.pair = pair) = [row] := by
      rw [← perm_singleton, perm_ext_iff_of_nodup
        ((netRows_nodup h).filter _) (nodup_singleton _)]
      intro r
      rw [hm, mem_singleton]
      constructor
      · rintro ⟨hp, hw, -⟩
        obtain ⟨key, value, weight⟩ := r
        cases hp
        rw [hrow, DeltaRecord.mk.injEq]
        exact ⟨rfl, rfl, val_inj.mp hw.symm⟩
      · rintro rfl
        exact ⟨rfl, rfl, h0⟩
    rw [hs]
    rfl

/-- Consolidation of a list that fits in memory and has no field name with a double quote is
exact if and only if no two of its records are pairs of numbers whose digits run together. -/
theorem consolidatesExactly_iff_unambiguous (batch : DeltaBatch)
    (hlen : batch.records.length < 2 ^ 63) (hplain : PlainNames batch.records) :
    batch.ConsolidatesExactly ↔
      ∀ a ∈ batch.records, ∀ b ∈ batch.records, ¬ Ambiguous a.pair b.pair := by
  rw [← hplain.separated_iff]
  constructor
  · intro h a ha b hb hab
    obtain ⟨net, hnet, -⟩ := consolidate_total hlen
    have hcell := h.unmerged net hnet a ha
    rw [hab, h.unmerged net hnet b hb] at hcell
    exact (Option.some.inj hcell).symm
  · intro hsep
    refine ⟨fun rows h => hsep.rows_exact hlen h, fun net hnet r hr => ?_, ?_⟩
    · rw [(consolidate_represents hnet r.encoding).1, hsep.firstPair_eq hr]
    · rw [netRows_eq_error_iff hlen, hsep.fits_iff]

/-- An insertion and a partial retraction of a row with a field, and the pair (1, 23). -/
def insertAndRetract : DeltaBatch :=
  ⟨[⟨.string "a", ⟨.object [("v", .null)], rfl⟩, ⟨2, by decide, by decide⟩⟩,
    ⟨.number (.int 1 (by decide) (by decide)), .number (.int 23 (by decide) (by decide)), 1⟩,
    ⟨.string "a", ⟨.object [("v", .null)], rfl⟩, ⟨-1, by decide, by decide⟩⟩]⟩

theorem insertAndRetract_exact : insertAndRetract.records.length < 2 ^ 63 ∧
    PlainNames insertAndRetract.records ∧ insertAndRetract.ConsolidatesExactly := by
  have hplain : PlainNames insertAndRetract.records := by
    unfold PlainNames
    decide
  refine ⟨by decide, hplain,
    (consolidatesExactly_iff_unambiguous _ (by decide) hplain).mpr ?_⟩
  rintro a ha b hb hab
  have hsame : ∀ a ∈ insertAndRetract.records, ∀ b ∈ insertAndRetract.records,
      a.key.isNumber = true → b.key.isNumber = true → a.pair = b.pair := by
    decide
  obtain ⟨hne, m, n, m', n', hm, hn, -⟩ := hab
  refine hne (hsame a ha b hb ?_ ?_)
  · rw [show a.key = .number m from congrArg Prod.fst hm]
    rfl
  · rw [show b.key = .number m' from congrArg Prod.fst hn]
    rfl

/-- The pairs (1, 23) and (12, 3), each with weight one. -/
def runTogether : DeltaBatch :=
  ⟨[⟨.number (.int 1 (by decide) (by decide)), .number (.int 23 (by decide) (by decide)), 1⟩,
    ⟨.number (.int 12 (by decide) (by decide)), .number (.int 3 (by decide) (by decide)), 1⟩]⟩

theorem runTogether_not_exact : ¬ runTogether.ConsolidatesExactly := by
  intro h
  have hrows := h.rows [⟨.number (.int 1 (by decide) (by decide)),
    .number (.int 23 (by decide) (by decide)), ⟨2, by decide, by decide⟩⟩] (by decide)
    (.number (.int 1 (by decide) (by decide)), .number (.int 23 (by decide) (by decide)))
  exact absurd hrows (by decide)

end DeltaBatch
end Velorix.Delta
