import Velorix.Delta.Batch
import Velorix.Foundation.NestedMap

/-! One side of a keyed join: net rows by the canonical text of their key and of their
value. An overlay holds the cells that an epoch replaces, and reading a side through
an overlay is the same as reading the side with the overlay applied. -/
namespace Velorix.Operator

open Json Delta NestedMap

inductive OperatorError
  | delta (error : DeltaError)
  | weightOverflow
  | nonIntegerAggregateValue
  | nonDecimalAggregateValue
  | decimalPrecisionOverflow
  | invalidAggregateStateValue
  deriving DecidableEq

/-- A row is stored under its own texts and never with weight zero. -/
def StoredAt (key value : List Char) (record : DeltaRecord) : Prop :=
  canonicalJson record.key = key ∧ canonicalJson record.value = value ∧ record.weight ≠ 0

structure SideState where
  cells : NestedMap (List Char) (List Char) DeltaRecord
  stored : ∀ {key value record}, cells.get key value = some record → StoredAt key value record

/-- A replacement by nothing prunes the cell. -/
structure SideOverlay where
  cells : NestedMap (List Char) (List Char) (Option DeltaRecord)
  stored : ∀ {key value record}, cells.get key value = some (some record) →
    StoredAt key value record

/-- The weight of a cell after one more record. -/
def nextWeight (previous : Option DeltaRecord) (record : DeltaRecord) : Except OperatorError I64 :=
  let before : I128 := (previous.map fun entry => entry.weight.toI128).getD 0
  match before.checkedAdd record.weight.toI128 with
  | none => .error .weightOverflow
  | some sum =>
    match sum.toI64? with
    | none => .error .weightOverflow
    | some weight => .ok weight

def replacement (record : DeltaRecord) (weight : I64) : Option DeltaRecord :=
  if weight = 0 then none else some { record with weight }

theorem replacement_stored {r e : DeltaRecord} {weight : I64} (h : replacement r weight = some e) :
    StoredAt (canonicalJson r.key) (canonicalJson r.value) e := by
  unfold replacement at h
  split_ifs at h with h0
  cases h
  exact ⟨rfl, rfl, h0⟩

namespace SideState

theorem cells_injective : Function.Injective cells := by
  rintro ⟨m, _⟩ ⟨n, _⟩ h
  cases (h : m = n)
  rfl

instance : DecidableEq SideState := fun s t =>
  decidable_of_iff (s.cells = t.cells) cells_injective.eq_iff

instance : EmptyCollection SideState := ⟨⟨∅, by simp⟩⟩

theorem ext_get {s t : SideState} (h : ∀ key value, s.cells.get key value = t.cells.get key value) :
    s = t := cells_injective (NestedMap.ext h)

variable (side : SideState)

def setCell (record : DeltaRecord) (weight : I64) : SideState where
  cells := side.cells.set (canonicalJson record.key) (canonicalJson record.value)
    (replacement record weight)
  stored {key value entry} h := by
    rw [get_set] at h
    split_ifs at h with hcell
    · rw [← hcell.1, ← hcell.2]
      exact replacement_stored h
    · exact side.stored h

def applyRecord (record : DeltaRecord) : Except OperatorError SideState := do
  let previous := side.cells.get (canonicalJson record.key) (canonicalJson record.value)
  let weight ← nextWeight previous record
  return side.setCell record weight

def applied (input : DeltaBatch) : Except OperatorError SideState :=
  input.records.foldlM applyRecord side

/-- Reading a stored row back as a record never fails. -/
def batch : DeltaBatch := ⟨side.cells.values⟩

def netRecordsForKey (key : Value) : List DeltaRecord :=
  (side.cells.row (canonicalJson key)).values

/-- The canonical texts a record is stored under. -/
def place (record : DeltaRecord) : List Char × List Char :=
  (canonicalJson record.key, canonicalJson record.value)

theorem nodup_places : (side.batch.records.map place).Nodup :=
  nodup_map_values fun key value r h => by
    obtain ⟨hk, hv, -⟩ := side.stored h
    rw [place, hk, hv]

theorem get_of_mem_batch {side : SideState} {r : DeltaRecord} (h : r ∈ side.batch.records) :
    side.cells.get (place r).1 (place r).2 = some r := by
  obtain ⟨key, value, hg⟩ := mem_values_iff.mp h
  obtain ⟨rfl, rfl, -⟩ := side.stored hg
  exact hg

/-- The side holds those of its cells that are among the records read so far. -/
def RestoredFrom (seen : List DeltaRecord) (state : SideState) : Prop :=
  ∀ key value, state.cells.get key value =
    if (key, value) ∈ seen.map place then side.cells.get key value else none

private theorem applyRecord_of_absent {s : SideState} {r : DeltaRecord}
    (h : s.cells.get (place r).1 (place r).2 = none) :
    s.applyRecord r = .ok (s.setCell r r.weight) := by
  have ha : (0 : I128).checkedAdd r.weight.toI128 = some r.weight.toI128 :=
    SInt.ofInt?_eq_some.mpr (by simp)
  have hn : r.weight.toI128.toI64? = some r.weight :=
    SInt.toI64?_eq_some.mpr (by simp)
  have hp : s.cells.get (canonicalJson r.key) (canonicalJson r.value) = none :=
    h
  simp only [applyRecord, hp, nextWeight, Option.map_none, Option.getD_none, ha, hn]
  rfl

/-- Reading back the rows of a side gives the side. -/
theorem applied_batch : applied ∅ side.batch = .ok side := by
  obtain ⟨s, hstate, hf⟩ : ∃ s, side.batch.records.foldlM applyRecord ∅ = .ok s ∧
      RestoredFrom side side.batch.records s := by
    refine Result.foldlM_total (fun _ _ => rfl)
      fun {seen s r rest} hs hseen => ?_
    have hm : r ∈ side.batch.records := by simp [hs]
    have hr := get_of_mem_batch hm
    have hnew : place r ∉ seen.map place := by
      have hn := side.nodup_places
      rw [hs, List.map_append, List.map_cons] at hn
      exact fun hm => (List.nodup_append.mp hn).2.2 _ hm _ (List.mem_cons_self ..) rfl
    refine ⟨_, applyRecord_of_absent (by rw [hseen, if_neg hnew]), fun key value => ?_⟩
    have hne : r.weight ≠ 0 := (side.stored hr).2.2
    rw [setCell, get_set, hseen, replacement, if_neg hne]
    by_cases hp : (key, value) = place r
    · obtain ⟨rfl, rfl⟩ := Prod.ext_iff.mp hp
      rw [if_pos ⟨rfl, rfl⟩, if_pos (by simp), hr]
    · have hc : ¬ (canonicalJson r.key = key ∧ canonicalJson r.value = value) :=
        fun h => hp (Prod.ext h.1.symm h.2.symm)
      simp [hc, hp]
  refine hstate.trans (congrArg Except.ok (ext_get fun key value => ?_))
  rw [hf key value]
  split_ifs with hm
  · rfl
  · rcases hg : side.cells.get key value with _ | r
    · rfl
    · obtain ⟨rfl, rfl, -⟩ := side.stored hg
      exact absurd (List.mem_map.mpr ⟨r, mem_values_iff.mpr ⟨_, _, hg⟩, rfl⟩) hm

end SideState

namespace SideOverlay

instance : EmptyCollection SideOverlay := ⟨⟨∅, by simp⟩⟩

def setCell (overlay : SideOverlay) (record : DeltaRecord) (weight : I64) : SideOverlay where
  cells := overlay.cells.set (canonicalJson record.key) (canonicalJson record.value)
    (some (replacement record weight))
  stored {key value entry} h := by
    rw [get_set] at h
    split_ifs at h with hcell
    · rw [← hcell.1, ← hcell.2]
      exact replacement_stored (Option.some.inj h)
    · exact overlay.stored h

end SideOverlay

def mergedRecordsForKey (base : SideState) (overlay : SideOverlay) (key : Value) :
    List DeltaRecord :=
  ((base.cells.row (canonicalJson key)).patch (overlay.cells.row (canonicalJson key))).values

def applyOverlayRecord (base : SideState) (overlay : SideOverlay) (record : DeltaRecord) :
    Except OperatorError SideOverlay := do
  let key := canonicalJson record.key
  let value := canonicalJson record.value
  let previous := (overlay.cells.get key value).getD (base.cells.get key value)
  let weight ← nextWeight previous record
  return overlay.setCell record weight

def applyOverlay (base : SideState) (overlay : SideOverlay) : SideState where
  cells := base.cells.patch overlay.cells
  stored {key value record} h := by
    rw [get_patch] at h
    rcases hcell : overlay.cells.get key value with _ | cell
    · rw [hcell] at h
      exact base.stored h
    · rw [hcell] at h
      exact overlay.stored (hcell.trans (congrArg some h))

section Overlay
variable (base : SideState) (overlay : SideOverlay)

@[simp] theorem applyOverlay_empty : applyOverlay base ∅ = base :=
  SideState.ext_get fun key value => get_patch _ _ key value

theorem mergedRecordsForKey_eq (key : Value) :
    mergedRecordsForKey base overlay key = (applyOverlay base overlay).netRecordsForKey key := by
  rw [mergedRecordsForKey, SideState.netRecordsForKey, applyOverlay, row_patch]

theorem applyOverlay_setCell (r : DeltaRecord) (weight : I64) :
    applyOverlay base (overlay.setCell r weight) =
      (applyOverlay base overlay).setCell r weight := by
  apply SideState.ext_get
  intro key value
  simp only [applyOverlay, SideOverlay.setCell, SideState.setCell, get_patch,
    get_set]
  split_ifs <;> rfl

theorem applyOverlayRecord_refines (r : DeltaRecord) :
    applyOverlay base <$> applyOverlayRecord base overlay r =
      (applyOverlay base overlay).applyRecord r := by
  have hr : (applyOverlay base overlay).cells.get (canonicalJson r.key)
      (canonicalJson r.value) =
      (overlay.cells.get (canonicalJson r.key) (canonicalJson r.value)).getD
        (base.cells.get (canonicalJson r.key) (canonicalJson r.value)) :=
    get_patch _ _ _ _
  simp only [applyOverlayRecord, SideState.applyRecord, hr]
  rcases nextWeight _ r with e | weight
  · rfl
  · change Except.ok _ = Except.ok _
    rw [applyOverlay_setCell]

end Overlay
end Velorix.Operator
