import Mathlib.Data.String.Basic
import Velorix.Foundation.DecimalText

/-! JSON values as the engine sees them. An integer keeps its value, a finite double
is kept as the text it prints (distinct doubles print distinct texts), and the
fields of an object are held in strictly increasing name order. -/
namespace Velorix.Json

open DecimalText List

/-- The characters a number is printed with. -/
def isNumberChar (c : Char) : Bool :=
  isDigit c || c == '-' || c == '+' || c == '.' || c == 'e'

/-- The printed form of a finite double: it never looks like an integer. -/
structure FloatText where
  text : List Char
  chars : text.all isNumberChar = true
  start : text.head?.any (fun c => isDigit c || c == '-') = true
  fractional : text.any (fun c => c == '.' || c == 'e') = true
  deriving DecidableEq

def FloatText.isZero (f : FloatText) : Bool :=
  f.text == ['0', '.', '0'] || f.text == ['-', '0', '.', '0']

/-- Integers cover the ranges of `i64` and `u64`. -/
inductive Number
  | int (i : ℤ) (lo : -2 ^ 63 ≤ i) (hi : i < 2 ^ 64)
  | float (f : FloatText)
  deriving DecidableEq

namespace Number

def text : Number → List Char
  | int i _ _ => intText i
  | float f => f.text

/-- Numbers compare by representation, and the two zeros of a double compare equal. -/
def eq : Number → Number → Bool
  | int i _ _, int j _ _ => i == j
  | float f, float g => f == g || (f.isZero && g.isZero)
  | _, _ => false

theorem text_numberChar {n : Number} {c : Char} (h : c ∈ n.text) : isNumberChar c = true := by
  cases n with
  | int i _ _ =>
    rcases mem_intText h with hd | rfl
    · simp [isNumberChar, hd]
    · rfl
  | float f => exact all_eq_true.mp f.chars c h

theorem text_start (n : Number) :
    ∃ c rest, n.text = c :: rest ∧ (isDigit c || c == '-') = true := by
  cases n with
  | int i _ _ =>
    rcases hi : intText i with _ | ⟨c, rest⟩
    · exact absurd hi (intText_ne_nil i)
    · refine ⟨c, rest, hi, ?_⟩
      rcases mem_intText (i := i) (c := c) (by rw [hi]; exact mem_cons_self ..) with h | rfl
      · simp [h]
      · rfl
  | float f =>
    have h := f.start
    rcases hf : f.text with _ | ⟨c, rest⟩
    · simp [hf] at h
    · exact ⟨c, rest, hf, by simpa [hf] using h⟩

private theorem int_text_ne_float (i : ℤ) (f : FloatText) : intText i ≠ f.text := by
  intro h
  obtain ⟨c, hc, hdot⟩ := any_eq_true.mp f.fractional
  rcases mem_intText (h ▸ hc : c ∈ intText i) with hd | rfl
  · rcases (by simpa using hdot : c = '.' ∨ c = 'e') with rfl | rfl <;> exact absurd hd (by decide)
  · exact absurd hdot (by decide)

theorem text_injective : Function.Injective text := by
  intro a b h
  match a, b with
  | int i _ _, int j _ _ =>
    cases intText_injective h
    rfl
  | int i _ _, float f => exact absurd h (int_text_ne_float i f)
  | float f, int i _ _ => exact absurd h.symm (int_text_ne_float i f)
  | float ⟨s, _, _, _⟩, float ⟨t, _, _, _⟩ =>
    cases (h : s = t)
    rfl

@[simp] theorem eq_self (n : Number) : n.eq n = true := by
  cases n <;> simp [eq]

end Number

/-- A JSON tree with the fields of an object in the order they are held. -/
inductive JsonTree
  | null
  | bool (b : Bool)
  | number (n : Number)
  | string (s : String)
  | array (items : List JsonTree)
  | object (fields : List (String × JsonTree))

namespace JsonTree

variable {e : Number → Number → Bool}

theorem induct {P : JsonTree → Prop} (null : P .null) (bool : ∀ b, P (.bool b))
    (number : ∀ n, P (.number n)) (string : ∀ s, P (.string s))
    (array : ∀ items, (∀ x ∈ items, P x) → P (.array items))
    (object : ∀ fields, (∀ f ∈ fields, P f.2) → P (.object fields)) (t : JsonTree) : P t := by
  refine @JsonTree.rec P (fun items => ∀ x ∈ items, P x) (fun fields => ∀ f ∈ fields, P f.2)
    (fun f => P f.2)
    null bool number string array object ?_ ?_ ?_ ?_ ?_ t
  · simp
  · intro x xs hx hxs y hy
    rcases mem_cons.mp hy with rfl | hy
    · exact hx
    · exact hxs y hy
  · simp
  · intro f fs hf hfs g hg
    rcases mem_cons.mp hg with rfl | hg
    · exact hf
    · exact hfs g hg
  · intro _ _ h
    exact h

mutual

/-- Tree equality with numbers compared by `e`. -/
def eqWith (e : Number → Number → Bool) : JsonTree → JsonTree → Bool
  | .null, .null => true
  | .bool a, .bool b => a == b
  | .number a, .number b => e a b
  | .string a, .string b => a == b
  | .array as, .array bs => eqItems e as bs
  | .object as, .object bs => eqFields e as bs
  | _, _ => false

def eqItems (e : Number → Number → Bool) : List JsonTree → List JsonTree → Bool
  | [], [] => true
  | a :: as, b :: bs => eqWith e a b && eqItems e as bs
  | _, _ => false

def eqFields (e : Number → Number → Bool) :
    List (String × JsonTree) → List (String × JsonTree) → Bool
  | [], [] => true
  | (m, a) :: as, (n, b) :: bs => m == n && (eqWith e a b && eqFields e as bs)
  | _, _ => false

end

theorem eqItems_iff {as bs : List JsonTree} :
    eqItems e as bs = true ↔ List.Forall₂ (fun a b => eqWith e a b = true) as bs := by
  induction as generalizing bs with
  | nil => cases bs <;> simp [eqItems]
  | cons a as ih => cases bs <;> simp [eqItems, ih]

theorem eqFields_iff {as bs : List (String × JsonTree)} :
    eqFields e as bs = true ↔
      List.Forall₂ (fun a b => a.1 = b.1 ∧ eqWith e a.2 b.2 = true) as bs := by
  induction as generalizing bs with
  | nil => cases bs <;> simp [eqFields]
  | cons a as ih => cases bs <;> simp [eqFields, ih, and_assoc]

theorem forall₂_eq_of_mem {α : Type*} {R : α → α → Prop} {as bs : List α}
    (h : List.Forall₂ R as bs) (hR : ∀ a ∈ as, ∀ b, R a b → a = b) : as = bs := by
  induction h with
  | nil => rfl
  | cons hab _ ih =>
    rw [hR _ (mem_cons_self ..) _ hab, ih fun a ha => hR a (mem_cons_of_mem _ ha)]

theorem eq_of_eqWith (he : ∀ a b, e a b = true → a = b) (a b : JsonTree) (h : eqWith e a b = true) :
    a = b := by
  induction a using induct generalizing b with
  | null | bool x | string s => cases b <;> simp_all [eqWith]
  | number n =>
    cases b <;> simp only [eqWith, Bool.false_eq_true] at h
    rw [he _ _ h]
  | array items ih =>
    cases b <;> simp only [eqWith, Bool.false_eq_true] at h
    rw [forall₂_eq_of_mem (eqItems_iff.mp h) ih]
  | object fields ih =>
    cases b <;> simp only [eqWith, Bool.false_eq_true] at h
    rw [forall₂_eq_of_mem (eqFields_iff.mp h) fun f hf g hfg => Prod.ext hfg.1 (ih f hf g.2 hfg.2)]

theorem eqWith_self (he : ∀ a, e a a = true) (a : JsonTree) : eqWith e a a = true := by
  induction a using induct with
  | null => rfl
  | bool x => simp [eqWith]
  | number n => exact he n
  | string s => simp [eqWith]
  | array items ih => exact eqItems_iff.mpr (forall₂_same.mpr ih)
  | object fields ih =>
    exact eqFields_iff.mpr (forall₂_same.mpr fun f hf => ⟨rfl, ih f hf⟩)

instance : DecidableEq JsonTree := fun a b =>
  decidable_of_iff (eqWith (fun m n => decide (m = n)) a b = true)
    ⟨eq_of_eqWith (fun _ _ => of_decide_eq_true) a b,
      fun h => h ▸ eqWith_self (fun _ => decide_eq_true rfl) a⟩

mutual

/-- Every object holds its fields in strictly increasing name order. -/
def ordered : JsonTree → Bool
  | .array items => orderedItems items
  | .object fields => decide (fields.Pairwise fun a b => a.1 < b.1) && orderedFields fields
  | _ => true

def orderedItems : List JsonTree → Bool
  | [] => true
  | x :: xs => ordered x && orderedItems xs

def orderedFields : List (String × JsonTree) → Bool
  | [] => true
  | (_, x) :: xs => ordered x && orderedFields xs

end

theorem orderedItems_iff {items : List JsonTree} :
    orderedItems items = true ↔ ∀ x ∈ items, ordered x = true := by
  induction items with
  | nil => simp [orderedItems]
  | cons x xs ih => simp [orderedItems, ih]

theorem orderedFields_iff {fields : List (String × JsonTree)} :
    orderedFields fields = true ↔ ∀ f ∈ fields, ordered f.2 = true := by
  induction fields with
  | nil => simp [orderedFields]
  | cons x xs ih => simp [orderedFields, ih]

theorem ordered_array_iff {items : List JsonTree} :
    ordered (.array items) = true ↔ ∀ x ∈ items, ordered x = true := by
  rw [ordered, orderedItems_iff]

theorem ordered_object_iff {fields : List (String × JsonTree)} :
    ordered (.object fields) = true ↔
      (fields.Pairwise fun a b => a.1 < b.1) ∧ ∀ f ∈ fields, ordered f.2 = true := by
  rw [ordered, Bool.and_eq_true, decide_eq_true_eq, orderedFields_iff]

end JsonTree

/-- A JSON value: a tree whose objects are maps. -/
structure Value where
  tree : JsonTree
  ordered : tree.ordered = true
  deriving DecidableEq

namespace Value

theorem tree_injective : Function.Injective tree := by
  rintro ⟨a, _⟩ ⟨b, _⟩ h
  cases (h : a = b)
  rfl

/-- `==` on values: numbers compare as `Number.eq`, everything else structurally. -/
def eq (a b : Value) : Bool := a.tree.eqWith Number.eq b.tree

def null : Value := ⟨.null, rfl⟩

def number (n : Number) : Value := ⟨.number n, rfl⟩

def string (s : String) : Value := ⟨.string s, rfl⟩

@[simp] theorem eq_self (a : Value) : a.eq a = true := JsonTree.eqWith_self Number.eq_self a.tree

end Value
end Velorix.Json
