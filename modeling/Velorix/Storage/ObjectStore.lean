import Mathlib.Tactic.Common

/-! Object stores with reads and create-only puts. -/
namespace Velorix.Storage

/-- What a request to the object store failed with. -/
inductive ObjectStoreError
  | alreadyExists
  | notFound
  | notSupported (reason : String)
  | notImplemented (operation implementer : String)
  | other (detail : String)
  deriving DecidableEq

section Replies
variable {α σ : Type} {object existing : Option α} {before created : σ}

def found (object : Option α) : Except ObjectStoreError α :=
  match object with
  | some a => .ok a
  | none => .error .notFound

theorem found_eq_ok {a : α} : found object = .ok a ↔ object = some a := by
  cases object <;> simp [found]

def createOnly (existing : Option α) (before created : σ) : Except ObjectStoreError Unit × σ :=
  match existing with
  | some _ => (.error .alreadyExists, before)
  | none => (.ok (), created)

theorem createOnly_keeps {P : σ → Prop} (hb : P before)
    (hc : existing = none → P created) : P (createOnly existing before created).2 := by
  cases existing with
  | none => exact hc rfl
  | some a => exact hb

theorem createOnly_ok (h : (createOnly existing before created).1 = .ok ()) :
    existing = none ∧ (createOnly existing before created).2 = created := by
  cases existing with
  | none => exact ⟨rfl, rfl⟩
  | some a => cases h

end Replies

end Velorix.Storage
