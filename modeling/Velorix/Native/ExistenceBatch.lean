import Velorix.Delta.ZSet
import Velorix.Native.Evolution

/-! Semi and anti join as functions of everything received: the left rows whose key has, or
has not, a partner on the right. A call emits the difference it makes to that, provided that
`==` tells the keys apart that the multisets tell apart. -/
namespace Velorix.Native

open Json Delta WeightedSet Result List

/-- Keys of a set that are `==` are the same. -/
def KeysApart (keys : Set Value) : Prop :=
  ∀ a ∈ keys, ∀ b ∈ keys, a.eq b = true → a = b

/-- Pairs of a set that have one encoding are the same. -/
def PairsApart (pairs : Set (Value × Value)) : Prop :=
  ∀ a ∈ pairs, ∀ b ∈ pairs, encodeKvOrdered a.1 a.2 = encodeKvOrdered b.1 b.2 → a = b

/-- The keys of the records are in one set, their pairs in another. -/
def RecordsIn (keys : Set Value) (pairs : Set (Value × Value)) (records : List DeltaRecord) :
    Prop :=
  ∀ r ∈ records, r.key ∈ keys ∧ r.pair ∈ pairs

section
variable {keys : Set Value} {ps : Set (Value × Value)}

theorem recordsIn_nil : RecordsIn keys ps [] := by
  intro r hr
  cases hr

variable {rs : List DeltaRecord}

theorem RecordsIn.append {others : List DeltaRecord} (h : RecordsIn keys ps rs)
    (h' : RecordsIn keys ps others) : RecordsIn keys ps (rs ++ others) := by
  intro r hr
  rcases mem_append.mp hr with hr | hr
  · exact h r hr
  · exact h' r hr

theorem RecordsIn.separated (h : RecordsIn keys ps rs)
    (hp : PairsApart ps) : DeltaBatch.Separated rs :=
  fun a ha b hb hc => hp _ (h a ha).2 _ (h b hb).2 hc

theorem RecordsIn.netRows {b : DeltaBatch} {rows : List DeltaRecord}
    (h : RecordsIn keys ps b.records) (hrows : b.netRows = .ok rows) : RecordsIn keys ps rows := by
  intro r hr
  obtain ⟨hf, -, -⟩ := (DeltaBatch.mem_netRows hrows).mp hr
  obtain ⟨a, ha, hp⟩ := Option.map_eq_some_iff.mp hf
  have hm := h a (mem_of_find?_eq_some ha)
  have hkey : a.key = r.key := (Prod.ext_iff.mp hp).1
  rw [← hp, ← hkey]
  exact hm

theorem KeysApart.eq_iff (h : KeysApart keys) {a b : Value} (ha : a ∈ keys) (hb : b ∈ keys) :
    a.eq b = true ↔ a = b := by
  constructor
  · exact h a ha b hb
  · intro hab
    rw [hab, Value.eq_self]

end

variable {negative : NativeOperatorError}

theorem addCount_ok {count next : I64} {row : DeltaRecord}
    (h : addCount negative count row = .ok next) :
    0 ≤ row.weight.val ∧ next.val = count.val + row.weight.val := by
  unfold addCount at h
  split_ifs at h with hn
  split at h
  · rename_i sum hsum
    cases h
    exact ⟨not_lt.mp hn, SInt.ofInt?_eq_some.mp hsum⟩
  · cases h

theorem countForKey_ok {keys : Set Value} (hk : KeysApart keys) {s : DeltaBatch}
    {rows : List DeltaRecord} (hrows : netRows s = .ok rows) (hin : ∀ r ∈ rows, r.key ∈ keys)
    {key : Value} (hkey : key ∈ keys) {count : I64} (h : countForKey negative s key = .ok count) :
    0 ≤ count.val ∧ count.val = keyWeight (zset rows) key := by
  rw [countForKey, hrows, ok_bind] at h
  have hsum : 0 ≤ count.val ∧ count.val =
      ((rows.filter fun row => row.key.eq key).map fun r => r.weight.val).sum := by
    refine foldlM_ok_induct
      (P := fun (seen : List DeltaRecord) (count : I64) => 0 ≤ count.val ∧
        count.val = (seen.map fun r => r.weight.val).sum) h ?_ ?_
    · exact ⟨le_refl _, rfl⟩
    · intro seen before row after hs hstep
      obtain ⟨hw, ha⟩ := addCount_ok hstep
      obtain ⟨hn, hb⟩ := hs
      rw [map_append, sum_append, map_singleton, sum_singleton, ← hb]
      omega
  refine ⟨hsum.1, hsum.2.trans ?_⟩
  rw [keyWeight_zset, weightAt]
  have hf : (rows.filter fun row => row.key.eq key) =
      rows.filter fun row => decide (row.key = key) := by
    apply filter_congr
    intro r hr
    rw [Bool.eq_iff_iff, hk.eq_iff (hin r hr) hkey, decide_eq_true_eq]
  rw [hf]

namespace ExistenceJoin

variable (kind : ExistenceJoinKind)

/-- Whether a left row passes at a count of its key. -/
def Passes (count : ℤ) : Prop :=
  match kind.keepsMatched with
  | true => 0 < count
  | false => count = 0

instance (count : ℤ) : Decidable (Passes kind count) := by
  unfold Passes
  split <;> infer_instance

/-- One when a left row passes at a count, zero when it does not. -/
def passed (count : ℤ) : ℤ := if Passes kind count then 1 else 0

noncomputable def passing (left right : ZSet) : ZSet :=
  kept (fun key => Passes kind (keyWeight right key)) left

variable {kind}

theorem keeps_iff {count : I64} (h : 0 ≤ count.val) :
    keeps kind count = true ↔ Passes kind count.val := by
  have hzero : count = 0 ↔ count.val = 0 := by
    rw [← SInt.val_inj]
    rfl
  unfold keeps Passes
  rcases kind.keepsMatched with _ | _
  · simp [hzero]
  · simp only [beq_true, bne_iff_ne, ne_eq, hzero]
    omega

theorem passing_apply (left right : ZSet) (pair : Value × Value) :
    passing kind left right pair = passed kind (keyWeight right pair.1) * left pair := by
  rw [passing, kept_apply, passed]
  split_ifs <;> simp

/-- The join holds the net rows of what it has received. -/
structure Tracks (join : ExistenceJoin) (onLeft onRight : ZSet) : Prop where
  sound : Sound join
  leftRows : zset join.leftState.records = onLeft
  rightRows : zset join.rightState.records = onRight

/-- The rows of both sides are within the given keys and pairs. -/
structure Within (keys : Set Value) (pairs : Set (Value × Value)) (join : ExistenceJoin) :
    Prop where
  left : RecordsIn keys pairs join.leftState.records
  right : RecordsIn keys pairs join.rightState.records

variable {keys : Set Value} {ps : Set (Value × Value)} {join next : ExistenceJoin}
  {left right : ZSet} {i o : DeltaBatch}

variable {key : Value}

theorem Tracks.count (h : Tracks join left right) (hw : Within keys ps join)
    (hk : KeysApart keys) (hkey : key ∈ keys) {count : I64}
    (hc : countForKey kind.negative join.rightState key = .ok count) :
    0 ≤ count.val ∧ count.val = keyWeight right key := by
  rw [← h.rightRows]
  exact countForKey_ok hk h.sound.right.netRows (fun r hr => (hw.right r hr).1) hkey hc

variable {s : DeltaBatch} {rows : List DeltaRecord}

theorem combine_netRows
    (hs : RecordsIn keys ps s.records) (hi : RecordsIn keys ps i.records)
    (hp : PairsApart ps) (hrows : netRows (s.combine i) = .ok rows) :
    zset rows = zset s.records + zset i.records ∧ RecordsIn keys ps rows := by
  have hb : RecordsIn keys ps (s.combine i).records := hs.append hi
  have hnet := netRows_eq_ok.mp hrows
  exact ⟨((hb.separated hp).zset_netRows hnet).trans (zset_append _ _), hb.netRows hnet⟩

variable {row : DeltaRecord}

theorem selectRow_cases :
    (∃ error, selectRow kind s row = some (.error error)) ∨
      ∃ count, countForKey kind.negative s row.key = .ok count ∧
        selectRow kind s row = if keeps kind count then some (.ok row) else none := by
  unfold selectRow
  rcases countForKey kind.negative s row.key with error | count
  · exact .inl ⟨error, rfl⟩
  · exact .inr ⟨count, rfl, rfl⟩

/-- A left batch passes those of its rows that the counts on the right let pass. -/
theorem Tracks.applyLeft (h : Tracks join left right) (hw : Within keys ps join)
    (hk : KeysApart keys) (hp : PairsApart ps) (hi : RecordsIn keys ps i.records)
    (hcall : ExistenceJoin.applyLeft kind join i = .ok (o, next)) :
    Tracks next (left + zset i.records) right ∧ Within keys ps next ∧ zset o.records =
        passing kind (left + zset i.records) right - passing kind left right ∧
      RecordsIn keys ps o.records := by
  obtain ⟨net, leftRows, hnet, hl, hn, ho, rfl⟩ := applyLeft_ok hcall
  obtain ⟨hz, hin⟩ := combine_netRows hw.left hi hp hl
  have hni := hi.netRows (netRows_eq_ok.mp hnet)
  obtain ⟨hrows, hf⟩ := filterMap_mapM_ok (f := selectRow kind join.rightState) (by
    intro row row' hrow
    rcases selectRow_cases with ⟨error, he⟩ | ⟨count, -, hs⟩
    · rw [he] at hrow
      cases hrow
    · rw [hs] at hrow
      split_ifs at hrow
      cases hrow
      rfl) ho
  have hkeep : ∀ r ∈ net, (selectRow kind join.rightState r).isSome = true ↔
      Passes kind (keyWeight right r.key) := by
    intro r hr
    rcases selectRow_cases with ⟨error, he⟩ | ⟨count, hc, hs⟩
    · exact absurd he (hf r hr error)
    · obtain ⟨hpos, hv⟩ := h.count hw hk (hni r hr).1 hc
      rw [← hv, ← keeps_iff hpos, hs]
      split_ifs with hkeeps <;> simp [hkeeps]
  refine ⟨⟨⟨hn, h.sound.right⟩, ?_, h.rightRows⟩, ⟨hin, hw.right⟩, ?_, ?_⟩
  · rw [hz, h.leftRows]
  · rw [hrows, zset_filter (fun key => Passes kind (keyWeight right key)) hkeep,
      (hi.separated hp).zset_netRows (netRows_eq_ok.mp hnet), passing, kept_add]
    exact (add_sub_cancel_left _ _).symm
  · intro r hr
    rw [hrows] at hr
    exact hni r (mem_filter.mp hr).1

/-! A right batch changes the counts of the keys it touches. -/

theorem touchedKeys_eq (i : DeltaBatch) : touchedKeys i = (SortedMap.ofList
    ((i.records.map DeltaRecord.key).map fun key => (canonicalJson key, key))).values := by
  rw [map_map]
  rfl

theorem mem_touchedKeys :
    key ∈ touchedKeys i ↔ key ∈ i.records.map DeltaRecord.key := by
  rw [touchedKeys_eq, SortedMap.mem_values_ofList_keyed canonicalJson_injective]

theorem touchedKeys_nodup : (touchedKeys i).Nodup := by
  rw [touchedKeys_eq]
  exact SortedMap.nodup_values_ofList_keyed canonicalJson_injective _

theorem keyWeight_untouched (hkey : key ∉ touchedKeys i) :
    keyWeight (right + zset i.records) key = keyWeight right key := by
  have hn : keyWeight (zset i.records) key = 0 := by
    rw [keyWeight_zset]
    exact weightAt_eq_zero fun r hr heq =>
      hkey (mem_touchedKeys.mpr (heq ▸ mem_map_of_mem hr))
  rw [keyWeight, weighted_add, ← keyWeight, ← keyWeight, hn, add_zero]

variable {negative : NativeOperatorError} {sign : I64}

theorem signedRow_ok {signed : DeltaRecord}
    (h : signedRow negative .ok sign row = .ok signed) :
    signed.pair = row.pair ∧ signed.weight.val = sign.val * row.weight.val := by
  unfold signedRow at h
  split_ifs at h
  obtain ⟨value, hv, h⟩ := bind_eq_ok.mp h
  cases hv
  split at h
  · rename_i weight hw
    cases h
    exact ⟨rfl, (SInt.ofInt?_eq_some.mp hw).trans (mul_comm _ _)⟩
  · cases h

theorem signedRows_ok {signed : List DeltaRecord}
    (h : List.Forall₂ (fun row signed => signedRow negative .ok sign row = .ok signed)
      rows signed) : zset signed = sign.val • zset rows ∧
      signed.map DeltaRecord.pair = rows.map DeltaRecord.pair := by
  induction h with
  | nil => exact ⟨(smul_zero _).symm, rfl⟩
  | cons hrow hr ih =>
    obtain ⟨hp, hw⟩ := signedRow_ok hrow
    constructor
    · rw [zset_cons, zset_cons, ih.1, hp, hw, smul_add, Finsupp.smul_single, smul_eq_mul]
    · rw [map_cons, map_cons, hp, ih.2]

theorem signedRowsForKey_ok {rows : DeltaBatch}
    (hs : NonNegative s) (hin : RecordsIn keys ps s.records)
    (hk : KeysApart keys) (hkey : key ∈ keys)
    (h : signedRowsForKey negative .ok s key sign = .ok rows) :
    zset rows.records = sign.val • kept (fun other => other = key) (zset s.records) ∧
      rows.records.map DeltaRecord.pair =
        (s.records.filter fun row => row.key.eq key).map DeltaRecord.pair := by
  rw [signedRowsForKey, hs.netRows, ok_bind] at h
  obtain ⟨rs, hrecs, h⟩ := bind_eq_ok.mp h
  cases h
  have ht : ∀ r ∈ s.records, r.key.eq key = true ↔ r.key = key :=
    fun r hr => hk.eq_iff (hin r hr).1 hkey
  rw [← zset_filter (fun other => other = key) ht]
  exact signedRows_ok (mapM_eq_ok.mp hrecs)

theorem passed_zero (kind : ExistenceJoinKind) :
    passed kind 0 = if kind.keepsMatched then 0 else 1 := by
  have hi : Passes kind 0 ↔ kind.keepsMatched = false := by
    unfold Passes
    cases kind.keepsMatched <;> simp
  simp only [passed, hi]
  cases kind.keepsMatched <;> rfl

theorem passed_pos {count : ℤ} (h : 0 < count) :
    passed kind count = if kind.keepsMatched then 1 else 0 := by
  have hi : Passes kind count ↔ kind.keepsMatched = true := by
    unfold Passes
    cases kind.keepsMatched
    · simp [h.ne']
    · simp [h]
  simp only [passed, hi]

variable {changes : DeltaBatch}

/-- A touched key adds the difference that its new count makes. -/
theorem addTransition_ok {before after retained changes' : DeltaBatch}
    {onFirst onLast : I64} {countBefore countAfter : ℤ}
    (hof : onFirst.val = if kind.keepsMatched then 1 else -1)
    (hol : onLast.val = if kind.keepsMatched then -1 else 1)
    (hb : ∀ count, countForKey kind.negative before key = .ok count →
      0 ≤ count.val ∧ count.val = countBefore)
    (ha : ∀ count, countForKey kind.negative after key = .ok count →
      0 ≤ count.val ∧ count.val = countAfter)
    (hr : NonNegative retained) (hin : RecordsIn keys ps retained.records)
    (hk : KeysApart keys) (hkey : key ∈ keys)
    (h : addTransition kind.negative .ok before after retained onFirst onLast changes key =
      .ok changes') :
    zset changes'.records = zset changes.records +
        (passed kind countAfter - passed kind countBefore) •
          kept (fun other => other = key) (zset retained.records) ∧
      ∃ added, changes'.records = changes.records ++ added ∧ (added.map DeltaRecord.pair).Sublist
          ((retained.records.filter fun row => row.key.eq key).map DeltaRecord.pair) := by
  simp only [addTransition, bind_eq_ok] at h
  obtain ⟨count, hc, count', hc', h⟩ := h
  obtain ⟨hpos, hv⟩ := hb count hc
  obtain ⟨hpos', hv'⟩ := ha count' hc'
  subst hv hv'
  have hzero (c : I64) : c = 0 ↔ c.val = 0 := by
    rw [← SInt.val_inj]
    rfl
  have hrows {sign : I64} {rows : DeltaBatch}
      (hs : signedRowsForKey kind.negative .ok retained key sign = .ok rows)
      (hsign : sign.val = passed kind count'.val - passed kind count.val) :
      zset (changes.combine rows).records = zset changes.records +
          (passed kind count'.val - passed kind count.val) •
            kept (fun other => other = key) (zset retained.records) ∧
        ∃ added, (changes.combine rows).records = changes.records ++ added ∧
          (added.map DeltaRecord.pair).Sublist
            ((retained.records.filter fun row => row.key.eq key).map DeltaRecord.pair) := by
    obtain ⟨hz, hrecs⟩ := signedRowsForKey_ok hr hin hk hkey hs
    refine ⟨?_, rows.records, rfl, hrecs ▸ List.Sublist.refl _⟩
    rw [DeltaBatch.combine, zset_append, hz, hsign]
  split_ifs at h with hf hl
  · rw [ne_eq, hzero, hzero] at hf
    obtain ⟨rows, hs, h⟩ := bind_eq_ok.mp h
    cases h
    apply hrows hs
    rw [hof, hf.1, passed_zero, passed_pos (by omega)]
    split_ifs <;> rfl
  · rw [ne_eq, hzero, hzero] at hl
    obtain ⟨rows, hs, h⟩ := bind_eq_ok.mp h
    cases h
    apply hrows hs
    rw [hol, hl.2, passed_zero, passed_pos (by omega)]
    split_ifs <;> rfl
  · cases h
    rw [ne_eq, hzero, hzero] at hf hl
    -- both counts are zero or both are positive
    have hsame : passed kind count'.val = passed kind count.val := by
      by_cases hc : count.val = 0
      · have hc' : count'.val = 0 := by omega
        rw [hc, hc']
      · rw [passed_pos (show 0 < count.val by omega), passed_pos (show 0 < count'.val by omega)]
    rw [hsame, sub_self, zero_smul, add_zero]
    exact ⟨rfl, [], (append_nil _).symm, nil_sublist _⟩

/-- What the keys seen so far have changed, each row once. -/
structure Changed (kind : ExistenceJoinKind) (keys : Set Value) (pairs : Set (Value × Value))
    (left right after : ZSet) (seen : List Value) (changes : List DeltaRecord) : Prop where
  difference : ∀ pair, zset changes pair = if pair.1 ∈ seen then
    (passed kind (keyWeight after pair.1) - passed kind (keyWeight right pair.1)) * left pair else 0
  recordsIn : RecordsIn keys pairs changes
  touched : ∀ r ∈ changes, r.key ∈ seen
  nodup : (changes.map DeltaRecord.pair).Nodup

theorem Changed.add {after : ZSet} {seen : List Value}
    {changes added : List DeltaRecord} (h : Changed kind keys ps left right after seen changes)
    (hs : Sound join) (hw : Within keys ps join) (hk : KeysApart keys)
    (hkey : key ∈ keys) (hnew : key ∉ seen) (hl : zset join.leftState.records = left)
    (hz : zset (changes ++ added) = zset changes +
      (passed kind (keyWeight after key) - passed kind (keyWeight right key)) •
        kept (fun other => other = key) (zset join.leftState.records))
    (hadded : (added.map DeltaRecord.pair).Sublist
      ((join.leftState.records.filter fun row => row.key.eq key).map DeltaRecord.pair)) :
    Changed kind keys ps left right after (seen ++ [key]) (changes ++ added) := by
  have hrows : ∀ r ∈ added, r.key = key ∧ r.pair ∈ ps := by
    intro r hr
    obtain ⟨row, hrow, hp⟩ := mem_map.mp (hadded.subset (mem_map_of_mem hr))
    obtain ⟨hrow, heq⟩ := mem_filter.mp hrow
    have hin := hw.left row hrow
    rw [← hp]
    exact ⟨(congrArg Prod.fst hp).symm.trans ((hk.eq_iff hin.1 hkey).mp heq), hin.2⟩
  refine ⟨fun pair => ?_, h.recordsIn.append fun r hr => ?_, fun r hr => ?_, ?_⟩
  · rw [hz, Finsupp.add_apply, h.difference, Finsupp.smul_apply, kept_apply, hl, smul_eq_mul]
    by_cases hp : pair.1 = key
    · have hm : pair.1 ∉ seen := hp ▸ hnew
      rw [if_neg hm, if_pos hp, if_pos (by simp [hp]), zero_add, hp]
    · rw [if_neg hp, mul_zero, add_zero]
      simp [hp]
  · rw [(hrows r hr).1]
    exact ⟨hkey, (hrows r hr).2⟩
  · rcases mem_append.mp hr with hr | hr
    · exact mem_append_left _ (h.touched r hr)
    · exact mem_append_right _ (mem_singleton.mpr (hrows r hr).1)
  · rw [map_append, nodup_append]
    refine ⟨h.nodup, hadded.nodup ?_, ?_⟩
    · rw [List.Nodup, pairwise_map]
      exact (hs.left.consolidated.ascending.filter _).imp
        fun hlt heq => hlt.ne (encoding_of_pair heq)
    · rintro _ ha _ hb rfl
      obtain ⟨a, ha, hp⟩ := mem_map.mp ha
      obtain ⟨b, hb, hp'⟩ := mem_map.mp hb
      have hsame : a.key = b.key := congrArg Prod.fst (hp.trans hp'.symm)
      exact hnew ((hrows b hb).1 ▸ hsame ▸ h.touched a ha)

/-- The transitions of the touched keys. -/
theorem Tracks.transitions (h : Tracks join left right) (hw : Within keys ps join)
    (hk : KeysApart keys) (hi : RecordsIn keys ps i.records)
    {rightRows : List DeltaRecord} (hright : netRows (join.rightState.combine i) = .ok rightRows)
    (hz : zset rightRows = right + zset i.records) (hin : RecordsIn keys ps rightRows)
    (hchanges : (touchedKeys i).foldlM (addTransition kind.negative .ok
      join.rightState (join.rightState.combine i) join.leftState
      (if kind.keepsMatched then 1 else minusOne)
      (if kind.keepsMatched then minusOne else 1)) .empty = .ok changes) :
    Changed kind keys ps left right (right + zset i.records) (touchedKeys i) changes.records := by
  have ht : ∀ key ∈ touchedKeys i, key ∈ keys := by
    intro key hkey
    obtain ⟨r, hr, rfl⟩ := mem_map.mp (mem_touchedKeys.mp hkey)
    exact (hi r hr).1
  refine foldlM_ok_induct
    (P := fun seen (changes : DeltaBatch) => seen.Nodup → (∀ key ∈ seen, key ∈ keys) →
      Changed kind keys ps left right (right + zset i.records) seen changes.records)
    hchanges ?_ ?_ touchedKeys_nodup ht
  · intro _ _
    exact ⟨fun pair => by simp [DeltaBatch.empty], recordsIn_nil,
      fun _ hr => absurd hr not_mem_nil, nodup_nil⟩
  · intro seen changes key changes' hs hstep hn ha
    have hnew : key ∉ seen := fun hm =>
      (nodup_append.mp hn).2.2 key hm key (mem_singleton.mpr rfl) rfl
    have hkey : key ∈ keys := ha key (by simp)
    obtain ⟨hz', added, hadded, hsub⟩ := addTransition_ok
      (by split_ifs <;> rfl) (by split_ifs <;> rfl)
      (fun count hc => h.count hw hk hkey hc)
      (fun count hc => hz ▸ countForKey_ok hk hright (fun r hr => (hin r hr).1) hkey
        hc) h.sound.left hw.left hk hkey hstep
    rw [hadded] at hz' ⊢
    exact (hs (nodup_append.mp hn).1 fun other ho => ha other
      (by simp [ho])).add h.sound hw hk hkey hnew h.leftRows hz' hsub

theorem Tracks.applyRight (h : Tracks join left right) (hw : Within keys ps join)
    (hk : KeysApart keys) (hp : PairsApart ps) (hi : RecordsIn keys ps i.records)
    (hcall : ExistenceJoin.applyRight kind join i = (next, .ok o)) :
    Tracks next left (right + zset i.records) ∧ Within keys ps next ∧ zset o.records =
        passing kind left (right + zset i.records) - passing kind left right ∧
      RecordsIn keys ps o.records := by
  obtain ⟨rightRows, changes, hright, hn, hchanges, ho, rfl⟩ := applyRight_ok hcall
  obtain ⟨hz, hin⟩ := combine_netRows hw.right hi hp hright
  rw [h.rightRows] at hz
  have hc := h.transitions hw hk hi hright hz hin hchanges
  refine ⟨⟨⟨h.sound.left, hn⟩, h.leftRows, hz⟩, ⟨hw.left, hin⟩, ?_, ?_⟩
  · ext pair
    rw [(hc.recordsIn.separated hp).zset_netRows (netRows_eq_ok.mp ho),
      hc.difference, Finsupp.sub_apply, passing_apply, passing_apply, ← sub_mul]
    split_ifs with hm
    · rfl
    · rw [keyWeight_untouched hm, sub_self, zero_mul]
  · exact hc.recordsIn.netRows (netRows_eq_ok.mp ho)

noncomputable def arriving (side portId : String) (input : DeltaBatch) : ZSet :=
  if portId = side then zset input.records else 0

theorem Tracks.apply {portId : String} (h : Tracks join left right)
    (hw : Within keys ps join) (hk : KeysApart keys) (hp : PairsApart ps)
    (hi : RecordsIn keys ps i.records) (hcall : join.apply kind portId i = (next, .ok o)) :
    Tracks next (left + arriving "left" portId i) (right + arriving "right" portId i) ∧
      Within keys ps next ∧ zset o.records = passing kind (left + arriving "left" portId i)
        (right + arriving "right" portId i) - passing kind left right ∧
      RecordsIn keys ps o.records := by
  rcases apply_ok hcall with ⟨rfl, ha⟩ | ⟨rfl, ha⟩
  · rw [arriving, if_pos rfl, arriving, if_neg (by decide), add_zero]
    exact h.applyLeft hw hk hp hi ha
  · rw [arriving, if_neg (by decide), arriving, if_pos rfl, add_zero]
    exact h.applyRight hw hk hp hi ha

end ExistenceJoin
end Velorix.Native
