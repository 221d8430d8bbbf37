import Velorix.Foundation.CheckedInt
import Velorix.Foundation.SortedMap
import Velorix.Json.Tree

/-! Building JSON values and looking into them. -/
namespace Velorix.Json.Value

open List JsonTree

/-- `json!` of a signed integer. -/
def ofI64 (i : I64) : Value :=
  number (.int i.val (SInt.fits64_iff.mp i.val_fits).1
    ((SInt.fits64_iff.mp i.val_fits).2.trans (by norm_num)))

def array (items : List Value) : Value :=
  ⟨.array (items.map tree), by
    rw [ordered_array_iff]
    intro x hx
    obtain ⟨v, -, rfl⟩ := mem_map.mp hx
    exact v.ordered⟩

def object (fields : SortedMap String Value) : Value :=
  ⟨.object (fields.entries.map fun f => (f.1, f.2.tree)), by
    rw [ordered_object_iff, pairwise_map]
    refine ⟨fields.sorted, fun f hf => ?_⟩
    obtain ⟨e, -, rfl⟩ := mem_map.mp hf
    exact e.2.ordered⟩

def asI64 (v : Value) : Option I64 :=
  match v.tree with
  | .number (.int i _ _) => SInt.ofInt? 64 i
  | _ => none

def asStr (v : Value) : Option String :=
  match v.tree with
  | .string s => some s
  | _ => none

def asArray (v : Value) : Option (List Value) :=
  match v with
  | ⟨.array items, h⟩ => some (items.pmap Value.mk (ordered_array_iff.mp h))
  | _ => none

def asObject (v : Value) : Option (SortedMap String Value) :=
  match v with
  | ⟨.object fields, h⟩ => some
    ⟨fields.pmap (fun f hf => (f.1, ⟨f.2, hf⟩)) (ordered_object_iff.mp h).2, by
      rw [pairwise_pmap]
      exact (ordered_object_iff.mp h).1.imp fun hab _ _ => hab⟩
  | _ => none

/-- `Value::get` on a field name. -/
def get (v : Value) (name : String) : Option Value := v.asObject.bind fun m => m.find? name

@[simp] theorem asStr_string (s : String) : (string s).asStr = some s := rfl

@[simp] theorem asI64_ofI64 (i : I64) : (ofI64 i).asI64 = some i := SInt.ofInt?_val i

theorem eq_ofI64_of_asI64 {v : Value} {i : I64} (h : v.asI64 = some i) : v = ofI64 i := by
  obtain ⟨tree, hv⟩ := v
  cases tree with
  | number n =>
    cases n with
    | int j lo hi =>
      have hij := SInt.ofInt?_eq_some.mp h
      subst hij
      rfl
    | float f => cases h
  | _ => cases h

theorem eq_string_of_asStr {v : Value} {s : String} (h : v.asStr = some s) : v = string s := by
  obtain ⟨tree, hv⟩ := v
  cases tree with
  | string t =>
    cases h
    rfl
  | _ => cases h

@[simp] theorem asArray_array (xs : List Value) : (array xs).asArray = some xs := by
  simp only [asArray, array, Option.some.injEq, pmap_map]
  exact (pmap_eq_map ..).trans (map_id _)

@[simp] theorem asObject_object (fields : SortedMap String Value) :
    (object fields).asObject = some fields := by
  simp only [asObject, object, Option.some.injEq]
  apply SortedMap.entries_injective
  simp only [pmap_map]
  exact (pmap_eq_map ..).trans (map_id _)

theorem eq_object_of_asObject {v : Value} {fields : SortedMap String Value}
    (h : v.asObject = some fields) : v = object fields := by
  obtain ⟨tree, hv⟩ := v
  cases tree with
  | object es =>
    cases h
    apply tree_injective
    simp [object, map_pmap]
  | _ => cases h

@[simp] theorem get_object (fields : SortedMap String Value) (name : String) :
    (object fields).get name = fields.find? name := by
  simp [get]

end Velorix.Json.Value
