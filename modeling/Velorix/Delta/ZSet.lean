import Velorix.Delta.Consolidated
import Velorix.Foundation.WeightedSet

/-! The signed multiset of (key, value) pairs that a batch stands for. -/
namespace Velorix.Delta

open Json WeightedSet List

variable {rs : List DeltaRecord} {f : Value × Value → Option (Value × Value)}

/-- Signed multisets of (key, value) pairs. -/
abbrev ZSet := Value × Value →₀ ℤ

noncomputable def zset (records : List DeltaRecord) : ZSet :=
  ofItems DeltaRecord.pair (fun r => r.weight.val) records

@[simp]
theorem zset_nil : zset [] = 0 := rfl

@[simp]
theorem zset_cons (r : DeltaRecord) (rs : List DeltaRecord) :
    zset (r :: rs) = Finsupp.single r.pair r.weight.val + zset rs := rfl

@[simp]
theorem zset_append (rs others : List DeltaRecord) :
    zset (rs ++ others) = zset rs + zset others := ofItems_append _ _ _ _

@[simp]
theorem zset_flatten (bs : List (List DeltaRecord)) : zset bs.flatten = (bs.map zset).sum := by
  induction bs with
  | nil => rfl
  | cons batch rest ih => rw [flatten_cons, zset_append, ih, map_cons, sum_cons]

theorem zset_apply (rs : List DeltaRecord) (pair : Value × Value) :
    zset rs pair = pairWeight pair rs := ofItems_apply _ _ rs pair

theorem eq_sum_of_additive {M : Type*} [AddCommMonoid M] {f : ZSet → M} (hz : f 0 = 0)
    (ha : ∀ a b, f (a + b) = f a + f b) (rs : List DeltaRecord) :
    f (zset rs) = (rs.map fun r => f (Finsupp.single r.pair r.weight.val)).sum := by
  induction rs with
  | nil => exact hz
  | cons r rs ih => rw [zset_cons, ha, ih, map_cons, sum_cons]

theorem weighted_zset (quantity : Value × Value → ℤ) (rs : List DeltaRecord) :
    weighted quantity (zset rs) = (rs.map fun r => quantity r.pair * r.weight.val).sum := by
  rw [eq_sum_of_additive (weighted_zero quantity) (weighted_add quantity)]
  simp only [weighted_single]

theorem keyWeight_zset (rs : List DeltaRecord) (key : Value) :
    keyWeight (zset rs) key = weightAt DeltaRecord.key (fun r => r.weight.val) key rs := by
  rw [keyWeight, weighted_zset, weightAt_eq_sum]
  congr 2
  funext r
  show (if r.key = key then 1 else 0) * r.weight.val = _
  split_ifs <;> simp

theorem zset_filter (keep : Value → Prop) {test : DeltaRecord → Bool}
    (h : ∀ r ∈ rs, test r = true ↔ keep r.key) : zset (rs.filter test) = kept keep (zset rs) := by
  induction rs with
  | nil => exact (kept_zero keep).symm
  | cons r rs ih =>
    have hrest := ih fun a ha => h a (mem_cons_of_mem _ ha)
    have hh := h r (mem_cons_self ..)
    rw [zset_cons, kept_add, ← hrest]
    by_cases hk : keep r.key
    · rw [filter_cons_of_pos (hh.mpr hk), zset_cons, kept_single_of_pos]
      exact hk
    · rw [filter_cons_of_neg (fun ht => hk (hh.mp ht)), kept_single_of_neg, zero_add]
      exact hk

theorem zset_filter_eq_mapped {test : DeltaRecord → Bool}
    (h : ∀ r ∈ rs, f r.pair = if test r then some r.pair else none) :
    zset (rs.filter test) = mapped f (zset rs) := by
  induction rs with
  | nil => exact (mapped_zero f).symm
  | cons r rs ih =>
    have hrest := ih fun a ha => h a (mem_cons_of_mem _ ha)
    have hh := h r (mem_cons_self ..)
    rw [zset_cons, mapped_add, mapped_single, hh, ← hrest]
    by_cases ht : test r = true
    · rw [filter_cons_of_pos ht, zset_cons, if_pos ht]
      rfl
    · rw [filter_cons_of_neg ht, if_neg ht]
      exact (zero_add _).symm

theorem zset_eq_mapped {images : List DeltaRecord}
    (h : List.Forall₂ (fun r image => f r.pair = some image.pair ∧ image.weight = r.weight)
      rs images) : zset images = mapped f (zset rs) := by
  induction h with
  | nil => exact (mapped_zero f).symm
  | cons hh hrest ih =>
    rw [zset_cons, zset_cons, mapped_add, mapped_single, hh.1, hh.2, ih]
    rfl

namespace DeltaBatch

/-- Consolidation keeps the multiset of a separated batch. -/
theorem Separated.zset_netRows {batch : DeltaBatch} (hs : Separated batch.records)
    {rows : List DeltaRecord} (h : batch.netRows = .ok rows) : zset rows = zset batch.records := by
  ext pair
  rw [zset_apply, zset_apply]
  have hn : (rows.map DeltaRecord.pair).Nodup := by
    apply (netRows_nodup h).map_on
    intro a ha b hb hp
    have hw : a.weight = b.weight := by
      rw [← SInt.val_inj, ← ((hs.mem_netRows h).mp ha).1, ← ((hs.mem_netRows h).mp hb).1, hp]
    have hsame := Prod.ext_iff.mp hp
    obtain ⟨ka, va, wa⟩ := a
    obtain ⟨kb, vb, wb⟩ := b
    exact congr (congr (congrArg DeltaRecord.mk hsame.1) hsame.2) hw
  by_cases hrow : ∃ r ∈ rows, r.pair = pair
  · obtain ⟨r, hr, hp⟩ := hrow
    rw [← hp, ((hs.mem_netRows h).mp hr).1]
    exact weightAt_of_nodup hn hr
  · -- without a row the sum is zero: otherwise the pair with its sum would be one
    have hnone : pairWeight pair rows = 0 :=
      pairWeight_eq_zero fun r hr heq => hrow ⟨r, hr, heq⟩
    rw [hnone]
    by_contra hne
    obtain ⟨net, hnet, -⟩ := Result.bind_eq_ok.mp h
    have hf : SInt.Fits 64 (pairWeight pair batch.records) := by
      by_contra ho
      have he := (netRows_eq_error_of_consolidate hnet).mpr (hs.fits_iff.mpr ⟨pair, ho⟩)
      rw [h] at he
      cases he
    have hm : (⟨pair.1, pair.2, .ofFits _ hf⟩ : DeltaRecord) ∈ rows := by
      rw [hs.mem_netRows h]
      exact ⟨rfl, Ne.symm hne⟩
    exact hrow ⟨_, hm, rfl⟩

section Once
variable {rows others : List DeltaRecord} {r : DeltaRecord}

theorem Consolidated.pairs_nodup (h : Consolidated rows) : (rows.map DeltaRecord.pair).Nodup := by
  rw [List.Nodup, pairwise_map]
  exact h.ascending.imp fun hlt hp => hlt.ne (encoding_of_pair hp)

theorem le_pairWeight (hpos : ∀ r ∈ rows, 0 < r.weight.val) (hr : r ∈ rows) :
    r.weight.val ≤ pairWeight r.pair rows := by
  induction rows with
  | nil => cases hr
  | cons a rows ih =>
    have hrest : 0 ≤ pairWeight r.pair rows := by
      rw [pairWeight, weightAt]
      refine sum_nonneg fun w hw => ?_
      obtain ⟨b, hb, rfl⟩ := mem_map.mp hw
      exact (hpos b (mem_cons_of_mem a (mem_filter.mp hb).1)).le
    rw [pairWeight, weightAt_cons, ← pairWeight]
    rcases mem_cons.mp hr with rfl | hr
    · rw [if_pos rfl]
      omega
    · have hle := ih (fun b hb => hpos b (mem_cons_of_mem a hb)) hr
      have ha := hpos a mem_cons_self
      split_ifs <;> omega

theorem count_le_pairWeight (hpos : ∀ r ∈ rows, 0 < r.weight.val) (r : DeltaRecord) :
    (rows.count r : ℤ) ≤ pairWeight r.pair rows := by
  induction rows with
  | nil => exact le_rfl
  | cons a rows ih =>
    have hle := ih fun b hb => hpos b (mem_cons_of_mem a hb)
    have ha := hpos a mem_cons_self
    rw [pairWeight, weightAt_cons, ← pairWeight, count_cons]
    by_cases har : a = r
    · subst har
      rw [if_pos rfl, if_pos (beq_self_eq_true a)]
      push_cast
      omega
    · rw [if_neg (by simpa using har)]
      split_ifs <;> push_cast <;> omega

/-- A list with positive weights is a rearrangement of one with weights one, if both stand for the
same multiset. -/
theorem perm_of_zset_eq (hpos : ∀ r ∈ rows, 0 < r.weight.val)
    (hn : (others.map DeltaRecord.pair).Nodup) (ho : ∀ r ∈ others, r.weight.val = 1)
    (hzset : zset rows = zset others) : rows.Perm others := by
  have hsame (pair : Value × Value) : pairWeight pair rows = pairWeight pair others := by
    rw [← zset_apply, ← zset_apply, hzset]
  have hone {r : DeltaRecord} (hr : r ∈ others) : pairWeight r.pair others = 1 :=
    (weightAt_of_nodup hn hr).trans (ho r hr)
  have hm {a b : DeltaRecord} (hp : a.pair = b.pair) (ha : a.weight.val = 1)
      (hb : b.weight.val = 1) : a = b := by
    obtain ⟨ka, va, wa⟩ := a
    obtain ⟨kb, vb, wb⟩ := b
    cases hp
    exact congrArg (DeltaRecord.mk ka va) (SInt.val_inj.mp (ha.trans hb.symm))
  -- every row is one of the others, with the same weight
  have hrows : ∀ r ∈ rows, r ∈ others ∧ pairWeight r.pair rows = 1 := by
    intro r hr
    have hle := le_pairWeight hpos hr
    have hr0 := hpos r hr
    obtain ⟨s, hs, hp⟩ : ∃ s ∈ others, s.pair = r.pair := by
      by_contra hnone
      push Not at hnone
      rw [hsame, pairWeight_eq_zero hnone] at hle
      omega
    have ht : pairWeight r.pair rows = 1 := by rw [hsame, ← hp, hone hs]
    have hw : r.weight.val = 1 := by omega
    rw [← hm hp (ho s hs) hw]
    exact ⟨hs, by rw [hsame, hone hs]⟩
  have hn' : rows.Nodup := by
    rw [nodup_iff_count_le_one]
    intro r
    by_cases hr : r ∈ rows
    · have hle := count_le_pairWeight hpos r
      rw [(hrows r hr).2] at hle
      exact_mod_cast hle
    · rw [count_eq_zero_of_not_mem hr]
      exact Nat.zero_le 1
  refine (perm_ext_iff_of_nodup hn' hn.of_map).mpr fun r => ?_
  refine ⟨fun hr => (hrows r hr).1, fun hr => ?_⟩
  obtain ⟨s, hs, hp⟩ : ∃ s ∈ rows, s.pair = r.pair := by
    by_contra hnone
    push Not at hnone
    have hz := hsame r.pair
    rw [hone hr, pairWeight_eq_zero hnone] at hz
    omega
  have hin := (hrows s hs).1
  rw [← hm hp (ho s hin) (ho r hr)]
  exact hs

end Once

end DeltaBatch
end Velorix.Delta
