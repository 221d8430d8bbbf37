import Velorix.Json.Struct

/-! The typed codec of JSON values: tags, variable-length integers and length-prefixed payloads.
An encoding is never a prefix of another one; it determines the value up to the rounding of
integers beyond `i64`. -/
namespace Velorix.Delta

open Json JsonTree

/-- The doubles behind the printed forms: the texts that are printed, and the bits of each. -/
structure Doubles where
  printed : FloatText → Prop
  bits : FloatText → UInt64

inductive V2TypeTag
  | null | boolFalse | boolTrue | i64 | f64 | string | array | object

def V2TypeTag.byte : V2TypeTag → UInt8
  | .null => 0x00
  | .boolFalse => 0x01
  | .boolTrue => 0x02
  | .i64 => 0x03
  | .f64 => 0x04
  | .string => 0x05
  | .array => 0x06
  | .object => 0x07

def encodeVarint (value : ℕ) : List UInt8 :=
  if value < 0x80 then [UInt8.ofNat value]
  else UInt8.ofNat (value % 0x80 + 0x80) :: encodeVarint (value / 0x80)
decreasing_by omega

def encodeZigzagVarint (value : UInt64) : List UInt8 :=
  encodeVarint ((value <<< 1) ^^^ (value >>> 63)).toNat

/-- The low bytes of a number, the lowest first. -/
def toLeBytes : ℕ → ℕ → List UInt8
  | 0, _ => []
  | width + 1, value => UInt8.ofNat value :: toLeBytes width (value / 256)

def encodeV2Length (len : ℕ) : List UInt8 := toLeBytes 4 len

def encodeV2String (s : String) : List UInt8 :=
  encodeV2Length (utf8Bytes s.toList).length ++ utf8Bytes s.toList

def asI64 : Number → Option ℤ
  | .int i _ _ => if i < 2 ^ 63 then some i else none
  | .float _ => none

/-- `u64 as f64` from `2 ^ 63` on, where doubles are `2 ^ 11` apart: ties go to the even one. -/
def roundToDouble (value : ℕ) : UInt64 :=
  let low := value / 2 ^ 11
  let up := value % 2 ^ 11 > 2 ^ 10 ∨ value % 2 ^ 11 = 2 ^ 10 ∧ low % 2 = 1
  UInt64.ofNat (1086 * 2 ^ 52 + (low + if up then 1 else 0) - 2 ^ 52)

variable (doubles : Doubles)

/-- The bits of `as_f64`, for numbers that are not in the range of `i64`. -/
def asF64 : Number → UInt64
  | .int i _ _ => roundToDouble i.toNat
  | .float f => doubles.bits f

def encodeV2Number (n : Number) : List UInt8 :=
  match asI64 n with
  | some i => V2TypeTag.i64.byte :: encodeZigzagVarint (UInt64.ofNat (i % 2 ^ 64).toNat)
  | none => V2TypeTag.f64.byte :: toLeBytes 8 (asF64 doubles n).toNat

mutual

/-- The fields of an object are held in the order that `encode_v2_value` sorts them into. -/
def encodeV2Value : JsonTree → List UInt8
  | .null => [V2TypeTag.null.byte]
  | .bool false => [V2TypeTag.boolFalse.byte]
  | .bool true => [V2TypeTag.boolTrue.byte]
  | .number n => encodeV2Number doubles n
  | .string s => V2TypeTag.string.byte :: encodeV2String s
  | .array items => V2TypeTag.array.byte :: (encodeV2Length items.length ++ encodeV2Items items)
  | .object fields =>
    V2TypeTag.object.byte :: (encodeV2Length fields.length ++ encodeV2Fields fields)

def encodeV2Items : List JsonTree → List UInt8
  | [] => []
  | item :: items => encodeV2Value item ++ encodeV2Items items

def encodeV2Fields : List (String × JsonTree) → List UInt8
  | [] => []
  | (name, value) :: fields => encodeV2String name ++ (encodeV2Value value ++ encodeV2Fields fields)

end

def encodeV2 (value : Value) : List UInt8 := encodeV2Value doubles value.tree

def encodeKvV2 (key value : Value) : List UInt8 := encodeV2 doubles key ++ encodeV2 doubles value

section Numbers
variable {m n : ℕ} {s t : List UInt8}

theorem encodeVarint_inj (h : encodeVarint m ++ s = encodeVarint n ++ t) : m = n ∧ s = t := by
  induction m using Nat.strong_induction_on generalizing n with
  | _ m ih =>
    rw [encodeVarint, encodeVarint.eq_def n] at h
    split_ifs at h <;> simp only [List.cons_append, List.nil_append, List.cons.injEq,
      ← UInt8.toNat_inj, UInt8.toNat_ofNat'] at h
    · exact ⟨by omega, h.2⟩
    · omega
    · omega
    · obtain ⟨hd, hst⟩ := ih (m / 0x80) (by omega) h.2
      exact ⟨by omega, hst⟩

theorem encodeZigzagVarint_inj {v w : UInt64}
    (h : encodeZigzagVarint v ++ s = encodeZigzagVarint w ++ t) : v = w ∧ s = t := by
  obtain ⟨hz, hst⟩ := encodeVarint_inj h
  -- the shifts rotate by one bit, and rotating back gives the value
  have hb (v : UInt64) : (((v <<< 1) ^^^ (v >>> 63)) >>> 1) ^^^
      (((v <<< 1) ^^^ (v >>> 63)) <<< 63) = v := by
    apply UInt64.toBitVec_inj.mp
    apply BitVec.eq_of_getLsbD_eq
    intro i hi
    simp
    grind
  exact ⟨by rw [← hb v, UInt64.toNat_inj.mp hz, hb], hst⟩

theorem toLeBytes_inj {width : ℕ} (hm : m < 256 ^ width) (hn : n < 256 ^ width)
    (h : toLeBytes width m ++ s = toLeBytes width n ++ t) : m = n ∧ s = t := by
  induction width generalizing m n with
  | zero => exact ⟨by omega, h⟩
  | succ width ih =>
    simp only [toLeBytes, List.cons_append, List.cons.injEq, ← UInt8.toNat_inj,
      UInt8.toNat_ofNat'] at h
    rw [pow_succ] at hm hn
    obtain ⟨hd, hst⟩ := ih (by omega) (by omega) h.2
    exact ⟨by omega, hst⟩

theorem encodeV2String_inj {a b : String} (ha : (utf8Bytes a.toList).length < 2 ^ 32)
    (hb : (utf8Bytes b.toList).length < 2 ^ 32)
    (h : encodeV2String a ++ s = encodeV2String b ++ t) : a = b ∧ s = t := by
  simp only [encodeV2String, List.append_assoc] at h
  obtain ⟨hl, hbytes⟩ := toLeBytes_inj ha hb h
  obtain ⟨hs, hst⟩ := List.append_inj hbytes hl
  exact ⟨String.toList_inj.mp (utf8Bytes_injective hs), hst⟩

end Numbers

def sameV2 (a b : Number) : Bool :=
  match asI64 a, asI64 b with
  | some i, some j => i = j
  | none, none => asF64 doubles a = asF64 doubles b
  | _, _ => false

/-- A value that the format has room for: strings and containers are shorter than `2 ^ 32`, and
floats are doubles. -/
inductive Encodable : JsonTree → Prop
  | null : Encodable .null
  | bool (b : Bool) : Encodable (.bool b)
  | int (i : ℤ) (lo hi) : Encodable (.number (.int i lo hi))
  | float {f : FloatText} (h : doubles.printed f) : Encodable (.number (.float f))
  | string {s : String} (h : (utf8Bytes s.toList).length < 2 ^ 32) : Encodable (.string s)
  | array {items : List JsonTree} (h : items.length < 2 ^ 32)
    (hitems : ∀ item ∈ items, Encodable item) : Encodable (.array items)
  | object {fields : List (String × JsonTree)} (h : fields.length < 2 ^ 32)
    (hnames : ∀ field ∈ fields, (utf8Bytes field.1.toList).length < 2 ^ 32)
    (hfields : ∀ field ∈ fields, Encodable field.2) : Encodable (.object fields)

variable {doubles} {a b : JsonTree} {s t : List UInt8}

theorem encodeV2Number_inj {m n : Number}
    (h : encodeV2Number doubles m ++ s = encodeV2Number doubles n ++ t) :
    sameV2 doubles m n = true ∧ s = t := by
  have hr {n : Number} {i : ℤ} (h : asI64 n = some i) : -2 ^ 63 ≤ i ∧ i < 2 ^ 63 := by
    cases n with
    | int j lo hi =>
      simp only [asI64, Option.ite_none_right_eq_some, Option.some.injEq] at h
      omega
    | float f => cases h
  unfold encodeV2Number at h
  unfold sameV2
  rcases hm : asI64 m with _ | i <;> rcases hn : asI64 n with _ | j <;>
    simp only [hm, hn, List.cons_append, List.cons.injEq] at h
  · obtain ⟨hb, hst⟩ := toLeBytes_inj (UInt64.toNat_lt _) (UInt64.toNat_lt _) h.2
    exact ⟨decide_eq_true (UInt64.toNat_inj.mp hb), hst⟩
  · exact absurd h.1 (by decide)
  · exact absurd h.1 (by decide)
  · obtain ⟨hint, hst⟩ := encodeZigzagVarint_inj h.2
    have hi := hr hm
    have hj := hr hn
    rw [← UInt64.toNat_inj, UInt64.toNat_ofNat', UInt64.toNat_ofNat'] at hint
    exact ⟨decide_eq_true (by omega), hst⟩

theorem encodeV2Items_eq (xs : List JsonTree) :
    encodeV2Items doubles xs = xs.flatMap (encodeV2Value doubles) := by
  induction xs with
  | nil => rfl
  | cons item xs ih => rw [encodeV2Items, ih, List.flatMap_cons]

theorem encodeV2Fields_eq (fields : List (String × JsonTree)) :
    encodeV2Fields doubles fields =
      fields.flatMap fun field => encodeV2String field.1 ++ encodeV2Value doubles field.2 := by
  induction fields with
  | nil => rfl
  | cons field fields ih => rw [encodeV2Fields, ih, List.flatMap_cons, List.append_assoc]

theorem forall₂_of_flatMap_eq {α : Type} {f : α → List UInt8} {R : α → α → Prop} {xs ys : List α}
    (hl : xs.length = ys.length)
    (hf : ∀ x ∈ xs, ∀ y ∈ ys, ∀ {s t}, f x ++ s = f y ++ t → R x y ∧ s = t)
    (h : xs.flatMap f ++ s = ys.flatMap f ++ t) : List.Forall₂ R xs ys ∧ s = t := by
  induction xs generalizing ys with
  | nil =>
    cases List.length_eq_zero_iff.mp hl.symm
    exact ⟨.nil, h⟩
  | cons x xs ih =>
    obtain ⟨y, ys, rfl⟩ := List.exists_cons_of_length_eq_add_one hl.symm
    simp only [List.flatMap_cons, List.append_assoc] at h
    obtain ⟨hxy, h⟩ := hf x List.mem_cons_self y List.mem_cons_self h
    obtain ⟨hr, hst⟩ := ih (Nat.succ.inj hl)
      (fun x hx y hy => hf x (List.mem_cons_of_mem _ hx) y (List.mem_cons_of_mem _ hy)) h
    exact ⟨.cons hxy hr, hst⟩

theorem flatMap_congr {α : Type} {f : α → List UInt8} {R : α → α → Prop} {xs ys : List α}
    (h : List.Forall₂ R xs ys) (hf : ∀ x ∈ xs, ∀ y, R x y → f x = f y) :
    xs.flatMap f = ys.flatMap f := by
  induction h with
  | nil => rfl
  | cons hxy _ ih =>
    simp only [List.mem_cons, forall_eq_or_imp] at hf
    rw [List.flatMap_cons, List.flatMap_cons, hf.1 _ hxy, ih hf.2]

def v2Kind : JsonTree → ℕ
  | .null => 0
  | .bool _ => 1
  | .number _ => 2
  | .string _ => 3
  | .array _ => 4
  | .object _ => 5

theorem v2Kind_eq (h : encodeV2Value doubles a ++ s = encodeV2Value doubles b ++ t) :
    v2Kind a = v2Kind b := by
  have hh (tree : JsonTree) : ∃ tag rest, encodeV2Value doubles tree = tag :: rest ∧
      [0, 1, 1, 2, 2, 3, 4, 5][tag.toNat]? = some (v2Kind tree) := by
    cases tree with
    | bool b => cases b <;> exact ⟨_, _, rfl, rfl⟩
    | number n =>
      simp only [encodeV2Value, encodeV2Number]
      split <;> exact ⟨_, _, rfl, rfl⟩
    | _ => exact ⟨_, _, rfl, rfl⟩
  obtain ⟨tag, _, ht, hk⟩ := hh a
  obtain ⟨tag', _, ht', hk'⟩ := hh b
  rw [ht, ht', List.cons_append, List.cons_append] at h
  rw [(List.cons.inj h).1] at hk
  exact Option.some.inj (hk.symm.trans hk')

/-- What an encoding and the bytes after it tell. -/
theorem encodeV2Value_inj (ha : Encodable doubles a) (hb : Encodable doubles b)
    (h : encodeV2Value doubles a ++ s = encodeV2Value doubles b ++ t) :
    a.eqWith (sameV2 doubles) b = true ∧ s = t := by
  induction ha generalizing b s t with
  | null =>
    cases hb with
    | null => exact ⟨rfl, (List.cons.inj h).2⟩
    | _ => cases v2Kind_eq h
  | bool x =>
    cases hb with
    | bool y => cases x <;> cases y <;> simp_all [encodeV2Value, V2TypeTag.byte, eqWith]
    | _ => cases v2Kind_eq h
  | int | float =>
    cases hb with
    | int | float =>
      rw [encodeV2Value, encodeV2Value] at h
      exact encodeV2Number_inj h
    | _ => cases v2Kind_eq h
  | string hs =>
    cases hb with
    | string hs' =>
      obtain ⟨rfl, hst⟩ := encodeV2String_inj hs hs' (List.cons.inj h).2
      exact ⟨beq_self_eq_true _, hst⟩
    | _ => cases v2Kind_eq h
  | array hlen _ ih =>
    cases hb with
    | array hlen' hi' =>
      simp only [encodeV2Value, encodeV2Items_eq, List.cons_append, List.cons.injEq, true_and,
        List.append_assoc] at h
      obtain ⟨hl, h⟩ := toLeBytes_inj hlen hlen' h
      rw [eqWith, eqItems_iff]
      exact forall₂_of_flatMap_eq hl (fun x hx y hy => ih x hx (hi' y hy)) h
    | _ => cases v2Kind_eq h
  | object hlen hn _ ih =>
    cases hb with
    | object hlen' hn' hf' =>
      simp only [encodeV2Value, encodeV2Fields_eq, List.cons_append, List.cons.injEq, true_and,
        List.append_assoc] at h
      obtain ⟨hl, h⟩ := toLeBytes_inj hlen hlen' h
      rw [eqWith, eqFields_iff]
      refine forall₂_of_flatMap_eq hl (fun x hx y hy s t h => ?_) h
      rw [List.append_assoc, List.append_assoc] at h
      obtain ⟨hname, h⟩ := encodeV2String_inj (hn x hx) (hn' y hy) h
      obtain ⟨hv, hst⟩ := ih x hx (hf' y hy) h
      exact ⟨⟨hname, hv⟩, hst⟩
    | _ => cases v2Kind_eq h

theorem encodeV2Value_congr (h : a.eqWith (sameV2 doubles) b = true) :
    encodeV2Value doubles a = encodeV2Value doubles b := by
  induction a using induct generalizing b with
  | null | bool x | string s => cases b <;> simp_all [eqWith]
  | number n =>
    cases b <;> simp only [eqWith, Bool.false_eq_true] at h
    rename_i m
    simp only [encodeV2Value, encodeV2Number]
    unfold sameV2 at h
    split at h <;> simp_all
  | array xs ih =>
    cases b <;> simp only [eqWith, Bool.false_eq_true] at h
    have hs := eqItems_iff.mp h
    simp only [encodeV2Value, encodeV2Items_eq, hs.length_eq]
    rw [flatMap_congr hs fun x hx y hxy => ih x hx hxy]
  | object fields ih =>
    cases b <;> simp only [eqWith, Bool.false_eq_true] at h
    have hs := eqFields_iff.mp h
    simp only [encodeV2Value, encodeV2Fields_eq, hs.length_eq]
    rw [flatMap_congr hs fun x hx y hxy => by rw [hxy.1, ih x hx hxy.2]]

/-- Different values have different encodings, and none is a proper beginning of another. -/
structure EncodesApart (doubles : Doubles) (a b : Value) : Prop where
  injective : a ≠ b → encodeV2 doubles a ≠ encodeV2 doubles b
  delimited : encodeV2 doubles a <+: encodeV2 doubles b → encodeV2 doubles a = encodeV2 doubles b

/-- Values are told apart, alone and in pairs, unless they agree up to the rounding of integers. -/
theorem encodesApart_iff {a b c d : Value} (ha : Encodable doubles a.tree)
    (hb : Encodable doubles b.tree) (hc : Encodable doubles c.tree)
    (hd : Encodable doubles d.tree) :
    (EncodesApart doubles a b ↔ (a.tree.eqWith (sameV2 doubles) b.tree = true → a = b)) ∧
    (((a, c) ≠ (b, d) → encodeKvV2 doubles a c ≠ encodeKvV2 doubles b d) ↔
      (a.tree.eqWith (sameV2 doubles) b.tree = true ∧
        c.tree.eqWith (sameV2 doubles) d.tree = true → a = b ∧ c = d)) := by
  have hsame {a b : Value} {s t : List UInt8} (ha : Encodable doubles a.tree)
      (hb : Encodable doubles b.tree) : encodeV2 doubles a ++ s = encodeV2 doubles b ++ t ↔
        a.tree.eqWith (sameV2 doubles) b.tree = true ∧ s = t := by
    refine ⟨encodeV2Value_inj ha hb, fun h => ?_⟩
    rw [encodeV2, encodeV2Value_congr h.1, h.2]
    rfl
  have hcode := hsame (s := []) (t := []) ha hb
  have hvalues := hsame (s := []) (t := []) hc hd
  simp only [List.append_nil, and_true] at hcode hvalues
  constructor
  · rw [← hcode]
    refine ⟨fun h => not_imp_not.mp h.injective, fun h => ⟨not_imp_not.mpr h, ?_⟩⟩
    rintro ⟨rest, hrest⟩
    rw [← List.append_nil (encodeV2 doubles b)] at hrest
    exact hcode.mpr ((hsame ha hb).mp hrest).1
  · rw [not_imp_not, encodeKvV2, encodeKvV2, hsame ha hb, hvalues, Prod.mk.injEq]

def noDoubles : Doubles := ⟨fun _ => False, fun _ => 0⟩

theorem strings_encodeApart : EncodesApart noDoubles (.string "a") (.string "ab") ∧
    encodeKvV2 noDoubles (.string "a") .null ≠ encodeKvV2 noDoubles (.string "ab") .null := by
  have ha : Encodable noDoubles (.string "a") := .string (by decide +kernel)
  have hab : Encodable noDoubles (.string "ab") := .string (by decide +kernel)
  have h := encodesApart_iff (a := .string "a") (b := .string "ab") (c := .null) (d := .null)
    ha hab .null .null
  exact ⟨h.1.mpr (by decide +kernel), h.2.mpr (by decide +kernel) (by decide +kernel)⟩

/-- Integers beyond `i64` that have the same nearest double are encoded alike. -/
theorem roundedIntegers_encode_alike :
    Value.number (.int (2 ^ 63) (by decide) (by decide)) ≠
      .number (.int (2 ^ 63 + 1) (by decide) (by decide)) ∧
    encodeV2 noDoubles (.number (.int (2 ^ 63) (by decide) (by decide))) =
      encodeV2 noDoubles (.number (.int (2 ^ 63 + 1) (by decide) (by decide))) := by
  decide +kernel

end Velorix.Delta
