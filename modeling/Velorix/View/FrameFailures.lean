import Velorix.Foundation.Trace
import Velorix.View.FrameRows

/-! Failed epochs of window frames: rows that were changed in place stay changed when the loop over
the inputs is left early. -/
namespace Velorix.View.AnalyticWindowFrameRuntime

open Json Delta Result List

variable {format : ArrowFormat} {plan : AnalyticWindowFramePlan} {original rows later : FrameRows}
  {record : DeltaRecord} {done records : List DeltaRecord} {runtime : AnalyticWindowFrameRuntime}
  {input : RelationInputBatch} {inputs : List RelationInputBatch} {progress : Progress}

/-- How the loop over the inputs ends, and which records were applied before. -/
inductive Ending
  | completed (done : List DeltaRecord)
  | restored
  | abandoned (done : List DeltaRecord)
  deriving DecidableEq

/-- A weight that overflows ends the loop as it is; one below zero puts the rows back. -/
def recordsEnding (original : FrameRows) (done : List DeltaRecord) : List DeltaRecord → Ending
  | [] => .completed done
  | record :: rest =>
    let weight := keptWeight original record.key + weightFor record.key done + record.weight.val
    if 2 ^ 63 ≤ weight then .abandoned done
    else if weight < 0 then .restored
    else recordsEnding original (done ++ [record]) rest

/-- The loop ends at the first input that does not convert or does not continue its frontier. -/
def inputsEnding (runtime : AnalyticWindowFrameRuntime) (progress : Progress)
    (done : List DeltaRecord) : List RelationInputBatch → Ending
  | [] => .completed done
  | input :: rest =>
    match runtime.listed input with
    | .error _ => .abandoned done
    | .ok records =>
      match recordsEnding runtime.rows done records with
      | .completed done' =>
        match progress.advance input with
        | .error _ => .abandoned done'
        | .ok progress' => inputsEnding runtime progress' done' rest
      | ending => ending

def Ending.Describes (plan : AnalyticWindowFramePlan) (original : FrameRows) :
    Ending → InPlace FrameRows → Prop
  | .completed done, result => ∃ rows, result = .ok rows ∧
    applyRecords (frameFormat plan) original done = .ok rows
  | .restored, result => ∃ error, result = .error (error, original)
  | .abandoned done, result => ∃ error rows, result = .error (error, rows) ∧
    applyRecords (frameFormat plan) original done = .ok rows

theorem applyRecords_snoc {C : Type} {format : RowFormat C} {original rows : KeyedRows C}
    (h : applyRecords format original done = .ok rows) (record : DeltaRecord) :
    applyRecords format original (done ++ [record]) = applyRecord format rows record := by
  rw [applyRecords, foldlM_append]
  rw [applyRecords] at h
  rw [h, ok_bind, foldlM_cons]
  cases applyRecord format rows record <;> rfl

theorem recordsEnding_describes (hm : RowsMade (makeRow plan) original)
    (hd : applyRecords (frameFormat plan) original done = .ok rows)
    (hc : ∀ record ∈ records, Complete plan record) :
    (recordsEnding original done records).Describes plan original
      (records.foldlM (applyFrameRecord plan original) rows) := by
  induction records generalizing done rows with
  | nil => exact ⟨rows, rfl, hd⟩
  | cons record rest ih =>
    obtain ⟨hr, he⟩ := keyEffect_applyRecords (frameFormat_overwrites plan) hm hd
    have hw := (he record.key).keptWeight
    rw [foldlM_cons, recordsEnding]
    rcases applyFrameRecord_cases original hr (hc record mem_cons_self) with
      ⟨ho, h⟩ | ⟨hneg, h⟩ | ⟨hn, hf, later, h, h'⟩
    · rw [h, error_bind, if_pos (hw ▸ ho)]
      exact ⟨_, rows, rfl, hd⟩
    · rw [h, error_bind, if_neg (by rw [← hw]; omega), if_pos (hw ▸ hneg)]
      exact ⟨_, rfl⟩
    · rw [h, ok_bind, if_neg (by rw [← hw]; omega), if_neg (by rw [← hw]; omega)]
      exact ih ((applyRecords_snoc hd record).trans h')
        fun record' hrec => hc record' (mem_cons_of_mem record hrec)

theorem inputsEnding_describes (hm : RowsMade (makeRow runtime.plan) runtime.rows)
    (hd : applyRecords (frameFormat runtime.plan) runtime.rows done = .ok rows) :
    (inputsEnding runtime progress done inputs).Describes runtime.plan runtime.rows
      ((inputs.foldlM runtime.stage (rows, progress)).map Prod.fst) := by
  induction inputs generalizing done rows progress with
  | nil => exact ⟨rows, rfl, hd⟩
  | cons input rest ih =>
    rw [foldlM_cons, inputsEnding]
    cases hl : runtime.listed input with
    | error error =>
      simp only [stage, hl, leaving, Except.mapError, error_bind, Except.map]
      exact ⟨error, rows, rfl, hd⟩
    | ok records =>
      have hr := recordsEnding_describes hm hd fun record hrec =>
        listed_complete hl hrec
      simp only [stage, hl, leaving, Except.mapError, ok_bind]
      cases he : recordsEnding runtime.rows done records with
      | restored =>
        rw [he] at hr
        obtain ⟨error, hres⟩ := hr
        simp only [hres, error_bind, Except.map]
        exact ⟨error, rfl⟩
      | abandoned done' =>
        rw [he] at hr
        obtain ⟨error, rows', hres, hd'⟩ := hr
        simp only [hres, error_bind, Except.map]
        exact ⟨error, rows', rfl, hd'⟩
      | completed done' =>
        rw [he] at hr
        obtain ⟨rows', hres, hd'⟩ := hr
        cases ha : progress.advance input with
        | error error =>
          simp only [hres, ok_bind, error_bind, Except.map]
          exact ⟨error, rows', rfl, hd'⟩
        | ok progress' =>
          simp only [hres, ok_bind, pure_eq_ok]
          exact ih hd'

/-- The records add up to nothing, and do not change what the rows of their keys hold. -/
def NoNetEffect (original : FrameRows) (done : List DeltaRecord) : Prop :=
  ∀ key last, lastFor key done = some last → weightFor key done = 0 ∧
    ∀ kept, original.find? (canonicalJson key) = some kept →
      last.value = .object kept.content.values

theorem applyRecords_other {C : Type} {format : RowFormat C} {make}
    (hf : format.Overwrites make) {rows later : KeyedRows C} (hm : RowsMade make rows)
    (h : applyRecords format rows records = .ok later) {text : List Char}
    (ht : ∀ key, canonicalJson key ≠ text) : later.find? text = rows.find? text := by
  induction records generalizing rows with
  | nil =>
    cases h
    rfl
  | cons record records ih =>
    rw [applyRecords, foldlM_cons] at h
    obtain ⟨middle, hfirst, hr⟩ := bind_eq_ok.mp h
    rw [ih (hm.applyRecord hf hfirst) hr]
    rcases applyRecord_cases hf hm hfirst with ⟨-, rfl⟩ | ⟨-, fields, weight, -, -, rfl⟩
    · rw [SortedMap.find?_erase, if_neg (ht record.key)]
    · rw [SortedMap.find?_insert, if_neg (ht record.key)]

theorem eq_original_iff (hm : RowsMade (makeRow plan) original)
    (h : applyRecords (frameFormat plan) original done = .ok later) :
    later = original ↔ NoNetEffect original done := by
  obtain ⟨-, he⟩ := keyEffect_applyRecords (frameFormat_overwrites plan) hm h
  constructor
  · rintro rfl key last hl
    have hz : weightFor key done = 0 := by
      have hw := (he key).keptWeight
      omega
    refine ⟨hz, fun kept hk => ?_⟩
    have hp := (hm key kept hk).1
    have hne : keptWeight later key + weightFor key done ≠ 0 := by
      rw [keptWeight_eq hk, hz]
      omega
    obtain ⟨fields, weight, hfields, -, hf⟩ := (he key).kept hl hne
    rw [hk] at hf
    cases hf
    exact Value.eq_object_of_asObject hfields
  · intro hn
    apply SortedMap.ext
    intro text
    by_cases ht : ∃ key, canonicalJson key = text
    · obtain ⟨key, rfl⟩ := ht
      cases hl : lastFor key done with
      | none => exact (he key).untouched hl
      | some last =>
        obtain ⟨hz, hs⟩ := hn key last hl
        cases hf : original.find? (canonicalJson key) with
        | none =>
          refine (he key).gone ?_ (by rw [hl]; nofun)
          rw [keptWeight_eq_zero hf, hz]
          rfl
        | some kept =>
          obtain ⟨hp, fields₀, hc⟩ := hm key kept hf
          obtain ⟨fields, weight, hfields, hw, hf'⟩ := (he key).kept hl (by
            rw [keptWeight_eq hf, hz]
            omega)
          rw [hf']
          rw [hs kept hf, Value.asObject_object] at hfields
          cases hfields
          rw [keptWeight_eq hf, hz, add_zero] at hw
          rw [hc]
          obtain ⟨content, weight₀⟩ := kept
          rw [SInt.val_inj.mp hw]
          simp only at hc
          rw [hc]
          rfl
    · push Not at ht
      exact applyRecords_other (frameFormat_overwrites plan) hm h ht

structure Fresh (runtime : AnalyticWindowFrameRuntime) : Prop where
  rows : runtime.rows = ∅
  publishedOutput : runtime.publishedOutput = .empty
  progress : runtime.progress = {}

/-- The runtimes that epochs lead to, whether they fail or not. -/
inductive Reachable (format : ArrowFormat) : AnalyticWindowFrameRuntime → Prop
  | fresh {runtime : AnalyticWindowFrameRuntime} (h : runtime.Fresh) : Reachable format runtime
  | epoch {runtime next : AnalyticWindowFrameRuntime} {outcome : Except RuntimeError EpochCommit}
      (h : Reachable format runtime) {logicalEpoch : LogicalEpoch} {idempotencyKey : String}
      {inputs : List RelationInputBatch}
      (hcall : runtime.applyChanges format logicalEpoch idempotencyKey inputs =
        some (outcome, next)) : Reachable format next

/-- How an epoch ends. Only an abandoned loop leaves changed rows behind a failure. -/
inductive EpochEnd (runtime : AnalyticWindowFrameRuntime) (logicalEpoch : LogicalEpoch)
    (idempotencyKey : String) (inputs : List RelationInputBatch) :
    Option (Except RuntimeError EpochCommit × AnalyticWindowFrameRuntime) → Prop
  | unopened {outcome} (hgate : runtime.progress.gate logicalEpoch idempotencyKey ≠ .ok .open)
      (hok : ∀ commit, outcome = .ok commit →
        runtime.progress.gate logicalEpoch idempotencyKey = .ok .replayed) :
      EpochEnd runtime logicalEpoch idempotencyKey inputs (some (outcome, runtime))
  | abandoned {error rows done}
      (hgate : runtime.progress.gate logicalEpoch idempotencyKey = .ok .open)
      (hending : inputsEnding runtime runtime.progress [] inputs = .abandoned done)
      (hdone : applyRecords (frameFormat runtime.plan) runtime.rows done = .ok rows) :
      EpochEnd runtime logicalEpoch idempotencyKey inputs (some (.error error, { runtime with rows }))
  | restored {error}
      (hending : ∀ done, inputsEnding runtime runtime.progress [] inputs ≠ .abandoned done) :
      EpochEnd runtime logicalEpoch idempotencyKey inputs (some (.error error, runtime))
  | panicked
      (hending : ∀ done, inputsEnding runtime runtime.progress [] inputs ≠ .abandoned done) :
      EpochEnd runtime logicalEpoch idempotencyKey inputs none
  | finished {commit rows publishedOutput progress done}
      (hgate : runtime.progress.gate logicalEpoch idempotencyKey = .ok .open)
      (hending : inputsEnding runtime runtime.progress [] inputs = .completed done)
      (hdone : applyRecords (frameFormat runtime.plan) runtime.rows done = .ok rows) :
      EpochEnd runtime logicalEpoch idempotencyKey inputs
        (some (.ok commit, { runtime with rows, publishedOutput, progress }))

theorem epochEnd (format : ArrowFormat) (hm : RowsMade (makeRow runtime.plan) runtime.rows)
    (e : LogicalEpoch) (ikey : String) (inputs : List RelationInputBatch) :
    EpochEnd runtime e ikey inputs (runtime.applyChanges format e ikey inputs) := by
  have hdescribes : (inputsEnding runtime runtime.progress [] inputs).Describes runtime.plan
      runtime.rows ((inputs.foldlM runtime.stage (runtime.rows, runtime.progress)).map Prod.fst) :=
    inputsEnding_describes hm rfl
  rw [applyChanges]
  cases hg : runtime.progress.gate e ikey with
  | error error => exact .unopened (by rw [hg]; nofun) nofun
  | ok gate =>
    cases gate with
    | replayed => exact .unopened (by rw [hg]; nofun) fun _ _ => hg
    | «open» =>
      cases hl : inputs.foldlM runtime.stage (runtime.rows, runtime.progress) with
      | error left =>
        rw [hl] at hdescribes
        cases he : inputsEnding runtime runtime.progress [] inputs with
        | completed done =>
          obtain ⟨_, hok, -⟩ := he ▸ hdescribes
          cases hok
        | restored =>
          obtain ⟨_, herror⟩ := he ▸ hdescribes
          cases herror
          exact .restored (by rw [he]; nofun)
        | abandoned done =>
          obtain ⟨_, _, herror, hd⟩ := he ▸ hdescribes
          cases herror
          exact .abandoned hg he hd
      | ok staged =>
        rw [hl] at hdescribes
        cases he : inputsEnding runtime runtime.progress [] inputs with
        | completed done =>
          obtain ⟨_, hok, hd⟩ := he ▸ hdescribes
          cases hok
          simp only
          cases (recomputeAllOutputs format runtime.catalog runtime.plan staged.1).run with
          | none => exact .panicked (by rw [he]; nofun)
          | some nextOutput =>
            rw [Option.map_some]
            cases hf : runtime.finish format e ikey staged.1 staged.2 nextOutput with
            | error error => exact .restored (by rw [he]; nofun)
            | ok outcome =>
              obtain ⟨_, -, hf⟩ := bind_eq_ok.mp hf
              obtain ⟨_, -, hf⟩ := bind_eq_ok.mp hf
              obtain ⟨_, -, hf⟩ := bind_eq_ok.mp hf
              cases hf
              exact .finished hg he hd
        | restored =>
          obtain ⟨_, herror⟩ := he ▸ hdescribes
          cases herror
        | abandoned done =>
          obtain ⟨_, _, herror, -⟩ := he ▸ hdescribes
          cases herror

theorem Reachable.rowsMade (h : Reachable format runtime) :
    RowsMade (makeRow runtime.plan) runtime.rows := by
  induction h with
  | fresh hf =>
    rw [hf.rows]
    intro key kept hk
    cases hk
  | @epoch runtime next outcome _ e ikey inputs hcall ih =>
    have hm {rows : FrameRows} {done : List DeltaRecord}
        (hd : applyRecords (frameFormat runtime.plan) runtime.rows done = .ok rows) :=
      (keyEffect_applyRecords (frameFormat_overwrites runtime.plan) ih hd).1
    have hend := hcall ▸ epochEnd format ih e ikey inputs
    cases hend with
    | unopened hg hok => exact ih
    | abandoned hg he hd => exact hm hd
    | restored he => exact ih
    | finished hg he hd => exact hm hd

/-- Where the loop is abandoned, the records before have no net effect. -/
def Unharmed (runtime : AnalyticWindowFrameRuntime) (logicalEpoch : LogicalEpoch)
    (idempotencyKey : String) (inputs : List RelationInputBatch) : Prop :=
  runtime.progress.gate logicalEpoch idempotencyKey = .ok .open → ∀ done,
    inputsEnding runtime runtime.progress [] inputs = .abandoned done →
    NoNetEffect runtime.rows done

/-- A failed epoch changes nothing exactly if the records before the failure have no net effect,
or the failure is one that puts the rows back. -/
theorem failed_epoch_unchanged_iff (h : Reachable format runtime) (logicalEpoch : LogicalEpoch)
    (idempotencyKey : String) (inputs : List RelationInputBatch) :
    (∀ error next, runtime.applyChanges format logicalEpoch idempotencyKey inputs =
        some (.error error, next) → next = runtime) ↔
      runtime.Unharmed logicalEpoch idempotencyKey inputs := by
  have hmade := h.rowsMade
  generalize hcall : runtime.applyChanges format logicalEpoch idempotencyKey inputs = call
  have hend := hcall ▸ epochEnd format hmade logicalEpoch idempotencyKey inputs
  rw [Unharmed]
  cases hend with
  | unopened hgate hok =>
    refine ⟨fun _ hopen => absurd hopen hgate, fun _ _ _ hsame => ?_⟩
    cases hsame
    rfl
  | @abandoned error rows done hgate hending hdone =>
    constructor
    · intro hsame _ done' hending'
      cases hending.symm.trans hending'
      rw [← eq_original_iff hmade hdone]
      exact congrArg AnalyticWindowFrameRuntime.rows (hsame error _ rfl)
    · intro hnone _ _ hsame
      cases hsame
      rw [(eq_original_iff hmade hdone).mpr (hnone hgate done hending)]
  | restored hending =>
    refine ⟨fun _ _ done h => absurd h (hending done), fun _ _ _ hsame => ?_⟩
    cases hsame
    rfl
  | panicked hending =>
    refine ⟨fun _ _ done h => absurd h (hending done), fun _ _ _ hsame => ?_⟩
    cases hsame
  | finished hgate hending hdone =>
    refine ⟨fun _ _ done h => ?_, fun _ _ _ hsame => ?_⟩
    · cases hending.symm.trans h
    · cases hsame

def plainFormat : ArrowFormat := ⟨fun _ _ => true, fun _ _ => none⟩

def plainColumn (columnId : String) : RelationColumn := ⟨columnId, columnId, .int64, false⟩

def plainCatalog : Catalog where
  relationId := "orders"
  relationVersion := "1"
  schemaFingerprint := "f"
  columns := [plainColumn "id", plainColumn "region", plainColumn "day", plainColumn "amount",
    plainColumn "weight"]
  primaryKeyColumnIds := ["id"]
  weightColumnId := "weight"
  supported := true

def plainSchema : RelationSchema := ⟨"orders", "1", "f", [], []⟩

def plainFrame : AnalyticWindowFrameRuntime where
  view := ⟨"v", ⟨"v", "1", "g", [⟨"id", .int64, false⟩, ⟨"total", .int64, false⟩], ["id"]⟩⟩
  catalog := plainCatalog
  inputSchema := plainSchema
  plan := ⟨"orders", "id", none, "region", "day", false, 1, 1, .firstValue "amount", "total"⟩

instance neZeroThousand : NeZero 1000 := ⟨by decide⟩

def smallValue (i : Fin 1000) : Value :=
  .ofI64 ⟨i.val, by have := i.isLt; omega, by have := i.isLt; omega⟩

def smallCell (i : Fin 1000) : Cell := .json (smallValue i)

def plainInput (startOffset : UInt64) (watermark : Option InputEventTimeWatermark) :
    RelationInputBatch where
  relationId := "orders"
  relationVersion := "1"
  streamId := "s"
  partitionId := 0
  schemaFingerprint := "f"
  startOffsetInclusive := startOffset
  endOffsetExclusive := startOffset + 1
  eventTimeWatermark := watermark
  encoding := .sourceRelation
  batches := [⟨plainCatalog.fields, [[smallCell 1, smallCell 0, smallCell 5, smallCell 7,
    smallCell 1]]⟩]

def blankWatermark : InputEventTimeWatermark := ⟨"", 0, "day", 0, 0⟩

theorem plainFrame_fresh : plainFrame.Fresh := ⟨rfl, rfl, rfl⟩

/-- The order with an amount, as a row of an input. -/
def orderRow (amount : Fin 1000) (weight : I64) : List Cell :=
  [smallCell 1, smallCell 0, smallCell 5, smallCell amount, .json (.ofI64 weight)]

def inserted : AnalyticWindowFrameRuntime :=
  plainFrame.afterEpoch plainFormat 1 "first" [plainInput 0 none]

/-- The order is taken out and put in again, and the second input has a blank stream. -/
def replacedInputs : List RelationInputBatch :=
  [{ plainInput 1 none with
      batches := [⟨plainCatalog.fields, [orderRow 7 ⟨-1, SInt.minusOne_lo, SInt.minusOne_hi⟩]⟩] },
    plainInput 2 (some blankWatermark)]

def orderRecord (amount : Fin 1000) (weight : I64) : DeltaRecord where
  key := smallValue 1
  value := .object (.ofList [("amount", smallValue amount), ("day", smallValue 5),
    ("region", smallValue 0)])
  weight

theorem applyChanges_afterEpoch {e : LogicalEpoch} {ikey : String}
    (h : (runtime.applyChanges format e ikey inputs).any (·.1.isOk) = true) :
    ∃ commit, runtime.applyChanges format e ikey inputs =
      some (.ok commit, runtime.afterEpoch format e ikey inputs) := by
  unfold afterEpoch
  revert h
  rcases runtime.applyChanges format e ikey inputs with _ | ⟨_ | commit, next⟩
  · exact fun h => nomatch h
  · exact fun h => nomatch h
  · exact fun _ => ⟨commit, rfl⟩

/-- The order of an earlier epoch is as it was after an epoch that fails behind two records. -/
theorem inserted_unharmed : inserted.rows.values.length = 1 ∧
    inputsEnding inserted inserted.progress [] replacedInputs =
      .abandoned [orderRecord 7 ⟨-1, by decide, by decide⟩, orderRecord 7 1] ∧
    inserted.applyChanges plainFormat 2 "second" replacedInputs =
      some (.error invalidWatermark, inserted) := by
  have hending : inputsEnding inserted inserted.progress [] replacedInputs =
      .abandoned [orderRecord 7 ⟨-1, by decide, by decide⟩, orderRecord 7 1] := by decide +kernel
  have herror : (inserted.applyChanges plainFormat 2 "second" replacedInputs).map Prod.fst =
      some (.error invalidWatermark) := by decide +kernel
  obtain ⟨⟨outcome, next⟩, hsecond, hfst⟩ := Option.map_eq_some_iff.mp herror
  cases hfst
  obtain ⟨commit, hfirst⟩ : ∃ commit, plainFrame.applyChanges plainFormat 1 "first"
      [plainInput 0 none] = some (.ok commit, inserted) :=
    applyChanges_afterEpoch (by decide +kernel)
  refine ⟨by decide +kernel, hending, ?_⟩
  rw [hsecond, (failed_epoch_unchanged_iff (.epoch (.fresh plainFrame_fresh) hfirst) 2 "second"
    replacedInputs).mpr ?_ _ _ hsecond]
  intro _ done hdone key last hlast
  cases hending.symm.trans hdone
  have hkey : key = smallValue 1 := by
    have hsame : last.key = key := by simpa using find?_some hlast
    have hmem := mem_of_find?_eq_some hlast
    simp only [reverse_cons, reverse_nil, nil_append, cons_append, mem_cons, not_mem_nil,
      or_false] at hmem
    rcases hmem with rfl | rfl <;> exact hsame.symm
  subst hkey
  have hrow : (inserted.rows.find? (canonicalJson (smallValue 1))).map
      (fun kept => Value.object kept.content.values) = some (orderRecord 7 1).value := by
    decide +kernel
  have hlast' : lastFor (smallValue 1)
      [orderRecord 7 ⟨-1, by decide, by decide⟩, orderRecord 7 1] = some (orderRecord 7 1) := by
    decide +kernel
  cases hlast'.symm.trans hlast
  refine ⟨by decide +kernel, fun kept hkept => ?_⟩
  rw [hkept, Option.map_some, Option.some.injEq] at hrow
  exact hrow.symm

/-- The row of a failed epoch stays. -/
theorem plainFrame_harmed :
    (plainFrame.applyChanges plainFormat 1 "e" [plainInput 0 (some blankWatermark)]).any
      (fun call => call.1 = .error invalidWatermark ∧ call.2 ≠ plainFrame) = true := by
  decide +kernel

end Velorix.View.AnalyticWindowFrameRuntime
