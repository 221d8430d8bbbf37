import Velorix.Json.Render

/-! The JSON text of a structure: its fields in the order they are declared. -/
namespace Velorix.Json

open DelimitedText

/-- The value of a field that is a text or an unsigned integer. -/
inductive Scalar
  | text (s : String)
  | number (n : UInt64)
  deriving DecidableEq

def Scalar.tree : Scalar → JsonTree
  | .text s => .string s
  | .number n => .number (.int n.toNat (by omega) (by exact_mod_cast n.toNat_lt))

def structField (field : String × Scalar) : List Char :=
  fieldText canonicalStyle.name (field.1, renderTree canonicalStyle field.2.tree)

def structText (fields : List (String × Scalar)) : List Char :=
  '{' :: ([','].intercalate (fields.map structField) ++ ['}'])

theorem Scalar.tree_injective : Function.Injective Scalar.tree := by
  intro a b h
  match a, b with
  | .text s, .text t =>
    cases h
    rfl
  | .number m, .number n =>
    simp only [tree, JsonTree.number.injEq, Number.int.injEq, Nat.cast_inj] at h
    rw [UInt64.toNat_inj.mp h]

theorem Scalar.readable (scalar : Scalar) : Readable (fun _ => true) scalar.tree := by
  cases scalar <;> exact ⟨rfl, rfl⟩

theorem structText_injective : Function.Injective structText := by
  intro as bs h
  unfold structText at h
  rw [intercalate_close, intercalate_close] at h
  have hq (field : String × Scalar) : StartsOff '}' (structField field) :=
    ⟨_, _, rfl, by decide⟩
  have hsep (field : String × Scalar) :
      Separates (fun c => isNumberChar c = true) structField (fun _ => True) field := by
    intro other s t _ hs ht heq
    simp only [structField, fieldText, List.cons_append, List.append_assoc, List.cons.injEq,
      true_and] at heq
    obtain ⟨hn, hr⟩ := canonicalStyle_laws.name_inj rfl rfl heq
    obtain ⟨hv, hst⟩ := renderTree_inj canonicalStyle_laws field.2.readable other.2.readable
      (fun _ => hs) (fun _ => ht) (List.cons.inj hr).2
    exact ⟨Prod.ext hn (Scalar.tree_injective hv), hst⟩
  have htexts : listText structField ',' '}' as ++ [] = listText structField ',' '}' bs ++ [] := by
    rw [List.append_nil, List.append_nil]
    exact (List.cons.inj h).2
  exact (listText_inj (P := fun _ => True) (by decide) (by decide) (by decide)
    (fun field _ => hsep field) (fun _ _ => trivial) (fun field _ => hq field)
    (fun field _ => hq field) htexts).1

def utf8Bytes (text : List Char) : List UInt8 := (String.ofList text).toByteArray.data.toList

theorem utf8Bytes_injective : Function.Injective utf8Bytes := by
  intro a b h
  have hd := Array.toList_inj.mp h
  exact String.ofList_injective (String.toByteArray_inj.mp (ByteArray.ext hd))

end Velorix.Json
