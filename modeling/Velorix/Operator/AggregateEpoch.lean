import Velorix.Delta.NetRows
import Velorix.Operator.AggregateState

/-! One epoch of the aggregate, key by key: what the collected changes add up to, what a
change makes of an entry, and that every entry stays valid. -/
namespace Velorix.Operator

open Json Delta Result SortedMap List SInt

variable {amount : I128} {values : SortedMap I128 AggregateValueEntry} {change : AggregateChange}
  {a : KeyedSumCountAggregate} {i : DeltaBatch} {before : Option AggregateEntry} {track : Bool}

/-- The amount a value stands for; zero where it is not an amount. -/
def amountOf (mode : AggregateValueMode) (value : Value) : ℤ :=
  ((mode.parseInput value).toOption.map SInt.val).getD 0

section Totals
variable (mode : AggregateValueMode) (text : List Char) (records : List DeltaRecord)

/-- The weighted sum of the amounts of a key. -/
def keySum : ℤ :=
  weightAt (fun r => canonicalJson r.key) (fun r => amountOf mode r.value * r.weight.val) text
    records

def keyCount : ℤ := weightAt (fun r => canonicalJson r.key) (fun r => r.weight.val) text records

def keyValueWeight (orderValue : I128) : ℤ :=
  weightAt (fun r => (canonicalJson r.key, (mode.parseInput r.value).toOption))
    (fun r => r.weight.val) (text, some orderValue) records

end Totals

theorem amountOf_eq {mode : AggregateValueMode} {value : Value}
    (h : mode.parseInput value = .ok amount) : amountOf mode value = amount.val := by
  rw [amountOf, h]
  rfl

theorem valueWeight_set (values : SortedMap I128 AggregateValueEntry) (orderValue order : I128)
    (value : Value) (next : I128) :
    valueWeight (values.set orderValue (if next = 0 then none else some ⟨value, next⟩)) order =
      if orderValue = order then next.val else valueWeight values order := by
  unfold valueWeight
  rw [find?_set]
  by_cases ho : orderValue = order
  · rw [if_pos ho, if_pos ho]
    split_ifs with hz
    · rw [hz]
      rfl
    · rfl
  · rw [if_neg ho, if_neg ho]

theorem weightAt_entries (values : SortedMap I128 AggregateValueEntry) (order : I128) :
    weightAt Prod.fst (fun e => e.2.weight.val) order values.entries =
      valueWeight values order := by
  rcases hf : values.find? order with _ | v
  · rw [valueWeight, hf]
    refine weightAt_eq_zero fun e he heq => ?_
    have hs : values.find? order = some e.2 := heq ▸ mem_entries_iff.mp he
    rw [hf] at hs
    cases hs
  · have hm := mem_entries_iff.mpr hf
    have ho : (values.entries.filter fun e => decide (e.1 = order)) = [(order, v)] :=
      filter_key_eq hm fun e => decide_eq_true_iff
    rw [weightAt, ho, valueWeight, hf]
    simp

/-- Every value of the map parses to the order it is stored under. -/
def ValuesParsed (mode : AggregateValueMode) (values : SortedMap I128 AggregateValueEntry) : Prop :=
  ∀ order v, values.find? order = some v → mode.parseStateSum v.value = .ok order

theorem ValuesParsed.set {mode : AggregateValueMode} (h : ValuesParsed mode values)
    {orderValue : I128} {value : Value} (hv : mode.parseStateSum value = .ok orderValue)
    (next : I128) :
    ValuesParsed mode (values.set orderValue (if next = 0 then none else some ⟨value, next⟩)) := by
  intro order v hf
  rw [find?_set] at hf
  split_ifs at hf with ho hz
  · cases hf
    exact ho ▸ hv
  · exact h order v hf

section Collecting
variable {rec : DeltaRecord} {seen : List DeltaRecord}
  {changes : SortedMap (List Char) AggregateChange}

variable {mode : AggregateValueMode}

/-- The change collected for a key adds up the records of the key. -/
structure CollectedFor (mode : AggregateValueMode) (text : List Char) (seen : List DeltaRecord)
    (change : AggregateChange) : Prop where
  key : canonicalJson change.key = text
  sum : change.sumDelta.val = keySum mode text seen
  count : change.countDelta.val = keyCount text seen
  values : ∀ order, valueWeight change.valueDeltas order = keyValueWeight mode text seen order
  parsed : ValuesParsed mode change.valueDeltas

/-- The changes collected from the records seen so far. -/
structure Collected (mode : AggregateValueMode) (seen : List DeltaRecord)
    (changes : SortedMap (List Char) AggregateChange) : Prop where
  absent : ∀ text, changes.find? text = none → ∀ r ∈ seen, canonicalJson r.key ≠ text
  present : ∀ text change, changes.find? text = some change → CollectedFor mode text seen change
  scalable : ∀ text change, changes.find? text = some change → mode.Scalable
  amounts : ∀ r ∈ seen, ∃ amount, mode.parseInput r.value = .ok amount

theorem keySum_append (text : List Char) (seen : List DeltaRecord) (rec : DeltaRecord) :
    keySum mode text (seen ++ [rec]) = keySum mode text seen +
      if canonicalJson rec.key = text then amountOf mode rec.value * rec.weight.val else 0 := by
  rw [keySum, weightAt_append, weightAt_cons, weightAt_nil, add_zero, keySum]

theorem keyCount_append (text : List Char) (seen : List DeltaRecord) (rec : DeltaRecord) :
    keyCount text (seen ++ [rec]) = keyCount text seen +
      if canonicalJson rec.key = text then rec.weight.val else 0 := by
  rw [keyCount, weightAt_append, weightAt_cons, weightAt_nil, add_zero, keyCount]

theorem keyValueWeight_append (text : List Char) (seen : List DeltaRecord)
    (h : mode.parseInput rec.value = .ok amount) (order : I128) :
    keyValueWeight mode text (seen ++ [rec]) order = keyValueWeight mode text seen order +
      if canonicalJson rec.key = text ∧ amount = order then rec.weight.val else 0 := by
  rw [keyValueWeight, weightAt_append, weightAt_cons, weightAt_nil, add_zero, keyValueWeight, h]
  simp only [Except.toOption, Prod.mk.injEq, Option.some.injEq]

theorem collectedFor_new {key : Value} (h : ∀ r ∈ seen, canonicalJson r.key ≠ canonicalJson key) :
    CollectedFor mode (canonicalJson key) seen (AggregateChange.new key) where
  key := rfl
  sum := (weightAt_eq_zero h).symm
  count := (weightAt_eq_zero h).symm
  values order := (weightAt_eq_zero fun r hr heq => h r hr (Prod.ext_iff.mp heq).1).symm
  parsed order v hf := by cases hf

theorem AggregateChange.add_collected {change' : AggregateChange}
    (h : CollectedFor mode (canonicalJson rec.key) seen change)
    (ha : mode.parseInput rec.value = .ok amount)
    (hadd : change.add amount rec.value rec.weight = .ok change') :
    CollectedFor mode (canonicalJson rec.key) (seen ++ [rec]) change' := by
  simp only [add, bind_eq_ok, orOverflow_eq_ok] at hadd
  obtain ⟨weighted, hw, sum, hs, count, hc, values, hv, hadd⟩ := hadd
  cases hadd
  have hwv := ofInt?_eq_some.mp hw
  have hsv := ofInt?_eq_some.mp hs
  have hcv := ofInt?_eq_some.mp hc
  obtain ⟨next, hn, -, rfl⟩ := addValueWeightToMap_ok hv
  refine ⟨h.key, ?_, ?_, fun order => ?_, ?_⟩
  · rw [keySum_append, if_pos rfl, amountOf_eq ha, hsv, h.sum, hwv]
    rfl
  · rw [keyCount_append, if_pos rfl, hcv, h.count]
    rfl
  · rw [keyValueWeight_append _ _ ha, valueWeight_set, ← h.values]
    by_cases ho : amount = order
    · subst ho
      simp [hn]
    · simp [ho]
  · exact h.parsed.set (AggregateValueMode.parseStateSum_of_parseInput ha) next

theorem CollectedFor.other {text : List Char} (h : CollectedFor mode text seen change)
    (ha : mode.parseInput rec.value = .ok amount) (ho : canonicalJson rec.key ≠ text) :
    CollectedFor mode text (seen ++ [rec]) change where
  key := h.key
  sum := by rw [keySum_append, if_neg ho, add_zero, h.sum]
  count := by rw [keyCount_append, if_neg ho, add_zero, h.count]
  values order := by
    rw [keyValueWeight_append _ _ ha, if_neg fun hand => ho hand.1, add_zero, h.values]
  parsed := h.parsed

theorem addChange_collected {changes' : SortedMap (List Char) AggregateChange}
    (h : Collected a.valueMode seen changes) (hadd : a.addChange changes rec = .ok changes') :
    Collected a.valueMode (seen ++ [rec]) changes' := by
  simp only [KeyedSumCountAggregate.addChange, bind_eq_ok] at hadd
  obtain ⟨amount, ha, value, hv, change', hc, hadd⟩ := hadd
  cases hadd
  obtain ⟨hrender, hs, -⟩ := AggregateValueMode.render_of_parse ha
  rw [hrender] at hv
  cases hv
  have hb : CollectedFor a.valueMode (canonicalJson rec.key) seen
      ((changes.find? (canonicalJson rec.key)).getD (AggregateChange.new rec.key)) := by
    rcases hf : changes.find? (canonicalJson rec.key) with _ | change
    · exact collectedFor_new (h.absent _ hf)
    · exact h.present _ _ hf
  have hafter := AggregateChange.add_collected hb ha hc
  refine ⟨fun text hn r hr => ?_, fun text change hf => ?_, fun _ _ _ => hs, fun r hr => ?_⟩
  · rw [find?_insert] at hn
    split_ifs at hn with ht
    rcases mem_append.mp hr with hr | hr
    · exact h.absent text hn r hr
    · rw [mem_singleton.mp hr]
      exact ht
  · rw [find?_insert] at hf
    split_ifs at hf with ht
    · cases hf
      exact ht ▸ hafter
    · exact (h.present text change hf).other ha ht
  · rcases mem_append.mp hr with hr | hr
    · exact h.amounts r hr
    · rw [mem_singleton.mp hr]
      exact ⟨amount, ha⟩

theorem collected_nil : Collected mode [] ∅ :=
  ⟨by simp, fun _ _ h => (by cases h), fun _ _ h => (by cases h), by simp⟩

theorem changes_collected (h : i.records.foldlM a.addChange ∅ = .ok changes) :
    Collected a.valueMode i.records changes :=
  foldlM_ok_induct h collected_nil fun hseen hs => addChange_collected hseen hs

end Collecting

section Applying
variable {mode : AggregateValueMode}

def ValuesPositive (values : SortedMap I128 AggregateValueEntry) : Prop :=
  ∀ order v, values.find? order = some v → 0 < v.weight.val

theorem ValuesPositive.set (h : ValuesPositive values) (orderValue : I128) (value : Value)
    {next : I128} (hn : 0 ≤ next.val) :
    ValuesPositive (values.set orderValue (if next = 0 then none else some ⟨value, next⟩)) := by
  intro order v hf
  rw [find?_set] at hf
  split_ifs at hf with ho hz
  · cases hf
    have hne : next.val ≠ 0 := fun hval => hz (val_inj.mp hval)
    show 0 < next.val
    omega
  · exact h order v hf

/-- The loop that adds the collected weights to the stored ones. -/
def addValueDeltas (values deltas : SortedMap I128 AggregateValueEntry) :
    Except OperatorError (SortedMap I128 AggregateValueEntry) :=
  deltas.entries.foldlM (fun values delta =>
    addValueWeightToMap values delta.1 delta.2.value delta.2.weight true) values

theorem addValueDeltas_ok (mode : AggregateValueMode)
    {deltas result : SortedMap I128 AggregateValueEntry}
    (h : addValueDeltas values deltas = .ok result) :
    (∀ order, valueWeight result order = valueWeight values order + valueWeight deltas order) ∧
      (ValuesPositive values → ValuesPositive result) ∧
      (ValuesParsed mode values → ValuesParsed mode deltas → ValuesParsed mode result) := by
  have hl : (∀ order, valueWeight result order = valueWeight values order +
        weightAt Prod.fst (fun e => e.2.weight.val) order deltas.entries) ∧
      (ValuesPositive values → ValuesPositive result) ∧
      (ValuesParsed mode values → (∀ e ∈ deltas.entries, mode.parseStateSum e.2.value = .ok e.1) →
          ValuesParsed mode result) := by
    refine foldlM_ok_induct (P := fun seen result =>
      (∀ order, valueWeight result order = valueWeight values order +
        weightAt Prod.fst (fun e => e.2.weight.val) order seen) ∧
      (ValuesPositive values → ValuesPositive result) ∧
      (ValuesParsed mode values → (∀ e ∈ seen, mode.parseStateSum e.2.value = .ok e.1) →
        ValuesParsed mode result)) h ?_ ?_
    · exact ⟨by simp, id, fun hp _ => hp⟩
    · rintro seen current e next ⟨hw, hpositive, hp⟩ hs
      obtain ⟨weight, hval, hn, rfl⟩ := addValueWeightToMap_ok hs
      refine ⟨fun order => ?_, fun hv => ?_, fun hv hseen => ?_⟩
      · rw [valueWeight_set, weightAt_append, weightAt_cons, weightAt_nil, add_zero, ← add_assoc,
          ← hw]
        by_cases ho : e.1 = order
        · rw [if_pos ho, if_pos ho, hval, ho]
        · rw [if_neg ho, if_neg ho, add_zero]
      · exact (hpositive hv).set _ _ (hn rfl)
      · refine (hp hv fun f hf => hseen f (by simp [hf])).set ?_ weight
        exact hseen e (by simp)
  obtain ⟨hw, hpositive, hp⟩ := hl
  refine ⟨fun order => ?_, hpositive, fun hv hd => ?_⟩
  · rw [hw, weightAt_entries]
  · exact hp hv fun e he => hd e.1 e.2 (mem_entries_iff.mp he)

/-- Sum and count of an entry that may be absent. -/
def sumOf (entry : Option AggregateEntry) : ℤ := (entry.map fun e => e.sum.val).getD 0

def countOf (entry : Option AggregateEntry) : ℤ := (entry.map fun e => e.count.val).getD 0

def valuesOf (entry : Option AggregateEntry) : SortedMap I128 AggregateValueEntry :=
  (entry.map AggregateEntry.values).getD ∅

/-- What a change makes of an entry. -/
theorem AggregateChange.applyTo_ok {after : Option AggregateEntry}
    (h : change.applyTo before track = .ok after) :
    ∃ (sum count : I128) (values : SortedMap I128 AggregateValueEntry),
      sum.val = sumOf before + change.sumDelta.val ∧
      count.val = countOf before + change.countDelta.val ∧
      (track = false → values = valuesOf before) ∧
      (track = true → addValueDeltas (valuesOf before) change.valueDeltas = .ok values) ∧
      after = if sum = 0 ∧ count = 0 ∧ (track = false ∨ values.isEmpty = true) then none
        else some ⟨(before.map AggregateEntry.key).getD change.key, sum, count, values⟩ := by
  simp only [applyTo, bind_eq_ok, orOverflow_eq_ok] at h
  obtain ⟨sum, hs, count, hc, h⟩ := h
  have hsv := ofInt?_eq_some.mp hs
  have hcv := ofInt?_eq_some.mp hc
  have hso : ((before.map AggregateEntry.sum).getD 0).val = sumOf before := by
    cases before <;> rfl
  have hco : ((before.map AggregateEntry.count).getD 0).val = countOf before := by
    cases before <;> rfl
  rw [hso] at hsv
  rw [hco] at hcv
  have hchoice (values : SortedMap I128 AggregateValueEntry)
      (h : (if sum = 0 ∧ count = 0 ∧ (track = false ∨ values.isEmpty = true) then
          pure none
        else pure (some ⟨(before.map AggregateEntry.key).getD change.key, sum, count, values⟩) :
          Except OperatorError (Option AggregateEntry)) = .ok after) :
      after = if sum = 0 ∧ count = 0 ∧ (track = false ∨ values.isEmpty = true) then none
        else some ⟨(before.map AggregateEntry.key).getD change.key, sum, count, values⟩ := by
    split_ifs at h ⊢ <;> cases h <;> rfl
  cases track with
  | false =>
    exact ⟨sum, count, valuesOf before, hsv, hcv, fun _ => rfl,
      fun ht => (by cases ht), hchoice _ h⟩
  | true =>
    obtain ⟨values, hv, h⟩ := bind_eq_ok.mp h
    exact ⟨sum, count, values, hsv, hcv, fun ht => (by cases ht),
      fun _ => hv, hchoice _ h⟩

/-- A change that leaves an entry with a row leaves a valid one. -/
theorem AggregateChange.applyTo_valid {after : AggregateEntry} {text : List Char}
    (hb : ∀ ent, before = some ent → ent.Valid mode track text)
    (hk : canonicalJson change.key = text) (hp : ValuesParsed mode change.valueDeltas)
    (hs : mode.Scalable) (h : change.applyTo before track = .ok (some after))
    (hrow : ∃ fields, after.rowFields mode track = .ok fields) : after.Valid mode track text := by
  obtain ⟨sum, count, values, -, -, hu, htracked, hafter⟩ := applyTo_ok h
  have hbeforeParsed : ValuesParsed mode (valuesOf before) := by
    cases before with
    | none => intro order v hf; cases hf
    | some ent => exact (hb ent rfl).parsed
  have hbp : ValuesPositive (valuesOf before) := by
    cases before with
    | none => intro order v hf; cases hf
    | some ent => exact (hb ent rfl).positive
  have hbu : track = false → valuesOf before = ∅ := by
    intro ht
    cases before with
    | none => rfl
    | some ent => exact (hb ent rfl).untracked ht
  have hv : ValuesParsed mode values ∧ ValuesPositive values := by
    cases ht : track with
    | false =>
      rw [hu ht]
      exact ⟨hbeforeParsed, hbp⟩
    | true =>
      obtain ⟨-, hpositive, hr⟩ := addValueDeltas_ok mode (htracked ht)
      exact ⟨hr hbeforeParsed hp, hpositive hbp⟩
  split_ifs at hafter with hz
  cases hafter
  refine ⟨?_, hrow, fun ht => ?_, hv.1, hv.2, ?_, hs⟩
  · cases before with
    | none => exact hk
    | some ent => exact (hb ent rfl).key
  · exact (hu ht).trans (hbu ht)
  · rw [Bool.eq_false_iff]
    intro hiz
    simp only [AggregateEntry.isZero, Bool.and_eq_true, decide_eq_true_eq] at hiz
    exact hz ⟨hiz.1.1, hiz.1.2, Or.inr hiz.2⟩

end Applying

namespace KeyedSumCountAggregate

variable {rows : List DeltaRecord} {p : PreparedAggregateChanges}

/-- One if the row of the entry is this pair. -/
def rowWeight (aggregate : KeyedSumCountAggregate) (pair : Value × Value)
    (entry : AggregateEntry) : ℤ :=
  match entry.toRecord 1 aggregate.valueMode aggregate.trackExtrema with
  | .ok row => if row.pair = pair then 1 else 0
  | .error _ => 0

/-- The multiplicity of a pair among the rows of a state. -/
def stateWeight (aggregate : KeyedSumCountAggregate) (pair : Value × Value) : ℤ :=
  aggregate.state.total fun _ entry => aggregate.rowWeight pair entry

theorem toRecord_ok {ent : AggregateEntry} {weight : I64} {mode : AggregateValueMode}
    {row : DeltaRecord} (h : ent.toRecord weight mode track = .ok row) :
    ∃ fields, ent.rowFields mode track = .ok fields ∧ row = ⟨ent.key, .object fields, weight⟩ := by
  obtain ⟨fields, hf, h⟩ := bind_eq_ok.mp h
  cases h
  exact ⟨fields, hf, rfl⟩

theorem rowWeight_eq {ent : AggregateEntry} {fields : SortedMap String Value}
    (h : ent.rowFields a.valueMode a.trackExtrema = .ok fields)
    (pair : Value × Value) : a.rowWeight pair ent =
      if (ent.key, Value.object fields) = pair then 1 else 0 := by
  rw [rowWeight, AggregateEntry.toRecord, h]
  rfl

theorem optionalRow_weight {ent : Option AggregateEntry} {weight : I64}
    (h : a.optionalRow ent weight = .ok rows) (pair : Value × Value) :
    pairWeight pair rows = weight.val * ent.elim 0 (a.rowWeight pair) := by
  cases ent with
  | none =>
    cases h
    simp [pairWeight]
  | some ent =>
    obtain ⟨row, hrow, h⟩ := bind_eq_ok.mp h
    cases h
    obtain ⟨fields, hf, rfl⟩ := toRecord_ok hrow
    rw [pairWeight, weightAt_cons, weightAt_nil, add_zero, Option.elim_some, rowWeight_eq hf,
      mul_ite, mul_one, mul_zero]
    rfl

theorem replacementRows_weight {after : Option AggregateEntry}
    (h : a.replacementRows before after = .ok rows) (pair : Value × Value) :
    pairWeight pair rows = after.elim 0 (a.rowWeight pair) - before.elim 0 (a.rowWeight pair) := by
  simp only [replacementRows, bind_eq_ok] at h
  obtain ⟨retracted, hr, inserted, hi, h⟩ := h
  cases h
  rw [pairWeight, weightAt_append, ← pairWeight, ← pairWeight, optionalRow_weight hr,
    optionalRow_weight hi, i64_one_val]
  ring

theorem replacementRows_rendered {after : AggregateEntry}
    (h : a.replacementRows before (some after) = .ok rows) :
    ∃ fields, after.rowFields a.valueMode a.trackExtrema = .ok fields := by
  simp only [replacementRows, optionalRow, bind_eq_ok] at h
  obtain ⟨_, -, _, ⟨row, hrow, -⟩, -⟩ := h
  obtain ⟨fields, hf, -⟩ := toRecord_ok hrow
  exact ⟨fields, hf⟩

theorem prepareChange_cases {p' : PreparedAggregateChanges} {change : List Char × AggregateChange}
    (h : a.prepareChange p change = .ok p') :
    ∃ after, change.2.applyTo (a.state.find? change.1) a.trackExtrema = .ok after ∧
      ((a.state.find? change.1 = after ∧ p' = p) ∨
        ∃ rows, a.replacementRows (a.state.find? change.1) after = .ok rows ∧
          p' = ⟨p.changes.insert change.1 after, ⟨p.output.records ++ rows⟩⟩) := by
  obtain ⟨after, hafter, h⟩ := bind_eq_ok.mp h
  refine ⟨after, hafter, ?_⟩
  split_ifs at h with hsame
  · cases h
    exact Or.inl ⟨hsame, rfl⟩
  · obtain ⟨rows, hr, h⟩ := bind_eq_ok.mp h
    cases h
    exact Or.inr ⟨rows, hr, rfl⟩

/-- What has been prepared after some of the changes. -/
structure Prepares (aggregate : KeyedSumCountAggregate)
    (seen : List (List Char × AggregateChange)) (prepared : PreparedAggregateChanges) : Prop where
  touched : ∀ c ∈ seen, c.2.applyTo (aggregate.state.find? c.1) aggregate.trackExtrema =
    .ok ((aggregate.commit prepared).state.find? c.1)
  untouched : ∀ text, text ∉ seen.map Prod.fst → prepared.changes.find? text = none
  rendered : ∀ text after, prepared.changes.find? text = some (some after) →
    ∃ fields, after.rowFields aggregate.valueMode aggregate.trackExtrema = .ok fields
  output : ∀ pair, pairWeight pair prepared.output.records =
    (aggregate.commit prepared).stateWeight pair - aggregate.stateWeight pair

theorem find?_commit (a : KeyedSumCountAggregate) (p : PreparedAggregateChanges)
    (text : List Char) : (a.commit p).state.find? text =
      (p.changes.find? text).getD (a.state.find? text) :=
  find?_patch _ _ _

theorem commit_insert (a : KeyedSumCountAggregate) (p : PreparedAggregateChanges)
    (text : List Char) (after : Option AggregateEntry) (output : DeltaBatch) :
    (a.commit ⟨p.changes.insert text after, output⟩).state = (a.commit p).state.set text after := by
  apply SortedMap.ext
  intro text'
  rw [find?_commit, find?_set, find?_commit, find?_insert]
  split_ifs <;> rfl

theorem prepares_nil (a : KeyedSumCountAggregate) :
    Prepares a [] ⟨∅, DeltaBatch.empty⟩ where
  touched := by simp
  untouched _ _ := rfl
  rendered _ _ h := by cases h
  output pair := by
    have hsame : a.commit ⟨∅, DeltaBatch.empty⟩ = a := rfl
    rw [hsame, sub_self]
    rfl

theorem Prepares.step {seen : List (List Char × AggregateChange)}
    {p' : PreparedAggregateChanges} {change : List Char × AggregateChange}
    (h : Prepares a seen p) (hn : change.1 ∉ seen.map Prod.fst)
    (hs : a.prepareChange p change = .ok p') : Prepares a (seen ++ [change]) p' := by
  have ha := h.untouched change.1 hn
  have hsame : (a.commit p).state.find? change.1 = a.state.find? change.1 := by
    rw [find?_commit, ha]
    rfl
  obtain ⟨after, hafter, ⟨hk, rfl⟩ | ⟨rows, hr, rfl⟩⟩ := prepareChange_cases hs
  · refine ⟨fun c hc => ?_, fun text ht => ?_, h.rendered, h.output⟩
    · rcases mem_append.mp hc with hc | hc
      · exact h.touched c hc
      · rw [mem_singleton.mp hc, hsame, hafter, hk]
    · exact h.untouched text fun hm => ht (by simp [hm])
  · refine ⟨fun c hc => ?_, fun text ht => ?_, fun text ent hf => ?_, fun pair => ?_⟩
    · rw [commit_insert, find?_set]
      rcases mem_append.mp hc with hc | hc
      · have hne : change.1 ≠ c.1 := fun heq => hn (heq ▸ mem_map_of_mem hc)
        rw [if_neg hne]
        exact h.touched c hc
      · rw [mem_singleton.mp hc, if_pos rfl, hafter]
    · simp only [map_append, map_cons, map_nil, mem_append,
        mem_singleton, not_or] at ht
      rw [find?_insert_of_ne _ _ (Ne.symm ht.2)]
      exact h.untouched text ht.1
    · rw [find?_insert] at hf
      split_ifs at hf with ht
      · cases hf
        exact replacementRows_rendered hr
      · exact h.rendered text ent hf
    · have htotal : (a.commit ⟨p.changes.insert change.1 after,
          ⟨p.output.records ++ rows⟩⟩).stateWeight pair =
          (a.commit p).stateWeight pair -
            (a.state.find? change.1).elim 0 (a.rowWeight pair) +
              after.elim 0 (a.rowWeight pair) := by
        rw [stateWeight, commit_insert, total_set, hsame]
        rfl
      rw [htotal, pairWeight, weightAt_append, ← pairWeight, ← pairWeight, h.output,
        replacementRows_weight hr]
      ring

theorem prepare_prepares (h : a.prepare i = .ok p) :
    ∃ changes, Collected a.valueMode i.records changes ∧ Prepares a changes.entries p := by
  obtain ⟨changes, hc, h⟩ := bind_eq_ok.mp h
  refine ⟨changes, changes_collected hc, ?_⟩
  refine foldlM_ok_induct
    (P := fun seen p => (seen.map Prod.fst).Nodup → Prepares a seen p) h
    (fun _ => prepares_nil a) ?_ changes.keys_nodup
  intro seen p change p' hseen hs hn
  rw [map_append, nodup_append] at hn
  refine (hseen hn.1).step (fun hm => ?_) hs
  exact hn.2.2 _ hm _ (by simp) rfl

theorem commit_valid (hv : a.Valid) (h : a.prepare i = .ok p) : (a.commit p).Valid := by
  obtain ⟨changes, hcollected, hp⟩ := prepare_prepares h
  intro text ent hf
  rw [find?_commit] at hf
  rcases hc : p.changes.find? text with _ | after
  · rw [hc] at hf
    exact hv text ent hf
  · rw [hc, Option.getD_some] at hf
    subst hf
    have hm : text ∈ changes.entries.map Prod.fst := by
      by_contra hn
      rw [hp.untouched text hn] at hc
      cases hc
    obtain ⟨⟨_, change⟩, hentry, rfl⟩ := mem_map.mp hm
    have hcollect := hcollected.present _ _ (mem_entries_iff.mp hentry)
    have ha := hp.touched _ hentry
    rw [find?_commit, hc, Option.getD_some] at ha
    exact AggregateChange.applyTo_valid (fun e he => hv _ e he) hcollect.key hcollect.parsed
      (hcollected.scalable _ _ (mem_entries_iff.mp hentry)) ha (hp.rendered _ _ hc)

end KeyedSumCountAggregate
end Velorix.Operator
