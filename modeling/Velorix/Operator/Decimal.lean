import Mathlib.Data.List.TakeWhile
import Velorix.Foundation.CheckedInt
import Velorix.Foundation.DecimalText

/-! Decimal values of a fixed scale as texts: what is parsed prints back as it was
written, and what is printed parses back, except for the least 128-bit integer. -/
namespace Velorix.Operator

open DecimalText List SInt

/-- `str::split_once`. -/
def splitOnce (separator : Char) (text : List Char) : Option (List Char × List Char) :=
  match text.dropWhile (· ≠ separator) with
  | [] => none
  | _ :: rest => some (text.takeWhile (· ≠ separator), rest)

/-- `str::parse::<i128>` on a text of digits. -/
def parseDigits128 (digits : List Char) : Option I128 := SInt.ofInt? 128 (digitsValue digits)

def decimal128ScaleFactor : ℕ → Option I128
  | 0 => SInt.ofInt? 128 1
  | scale + 1 => do
    let factor ← decimal128ScaleFactor scale
    SInt.ofInt? 128 (factor.val * 10)

/-- Whether the magnitude has at most `precision` decimal digits. -/
def decimal128PrecisionFits (magnitude : ℕ) (precision : UInt8) : Bool :=
  let digits := if magnitude = 0 then 1 else Nat.log 10 magnitude + 1
  digits ≤ precision.toNat

def formatDecimal128Value (value : I128) (scale : UInt8) : List Char :=
  let digits := natText value.val.natAbs
  let scale := scale.toNat
  let decimal :=
    if scale = 0 then digits
    else if digits.length ≤ scale then
      '0' :: '.' :: (List.replicate (scale - digits.length) '0' ++ digits)
    else digits.take (digits.length - scale) ++ '.' :: digits.drop (digits.length - scale)
  if value.val < 0 then '-' :: decimal else decimal

/-- The digits before and after the point, where the text has the shape of a decimal. -/
def splitDecimal (digits : List Char) (scale : ℕ) : Option (List Char × List Char) := do
  let (whole, fractional) ← match splitOnce '.' digits with
    | some parts => some parts
    | none => if scale = 0 then some (digits, []) else none
  if whole.isEmpty || !whole.all isDigit || fractional.length ≠ scale || !fractional.all isDigit
  then none else some (whole, fractional)

/-- The magnitude of a decimal given by its parts. -/
def decimalMagnitude (whole fractional : List Char) (scale : ℕ) : Option I128 := do
  let magnitude ← parseDigits128 whole
  let factor ← decimal128ScaleFactor scale
  let magnitude ← magnitude.checkedMul factor
  if scale > 0 then
    let fraction ← parseDigits128 fractional
    magnitude.checkedAdd fraction
  else some magnitude

def applySign (negative : Bool) (magnitude : I128) : Option I128 :=
  if negative then magnitude.checkedNeg else some magnitude

/-- The value after the sign has been taken off; it must print as it was written. -/
def parseSignedDecimal (negative : Bool) (digits value : List Char) (precision scale : UInt8) :
    Option I128 := do
  guard (!digits.isEmpty)
  let (whole, fractional) ← splitDecimal digits scale.toNat
  let magnitude ← decimalMagnitude whole fractional scale.toNat
  guard (decimal128PrecisionFits magnitude.val.natAbs precision)
  let signedMagnitude ← applySign negative magnitude
  guard (formatDecimal128Value signedMagnitude scale = value)
  return signedMagnitude

def parseDecimal128Str (value : List Char) (precision scale : UInt8) : Option I128 :=
  match value with
  | '-' :: digits => parseSignedDecimal true digits value precision scale
  | _ => parseSignedDecimal false value value precision scale

section RoundTrip

variable {whole fractional : List Char} {scale : ℕ} {precision : UInt8} {value : I128}

theorem isDigit_ne_point {c : Char} (h : isDigit c = true) : c ≠ '.' := by
  rintro rfl
  exact absurd h (by decide)

theorem splitOnce_append {rest : List Char} (h : ∀ c ∈ whole, c ≠ '.') :
    splitOnce '.' (whole ++ '.' :: rest) = some (whole, rest) := by
  have hp : ∀ c ∈ whole, decide (c ≠ '.') = true := fun c hc => decide_eq_true (h c hc)
  rw [splitOnce, dropWhile_append_of_pos hp, takeWhile_append_of_pos hp]
  simp

theorem splitOnce_none (h : ∀ c ∈ whole, c ≠ '.') : splitOnce '.' whole = none := by
  have hd : whole.dropWhile (fun c => decide (c ≠ '.')) = [] := by
    simpa [dropWhile_eq_nil_iff] using h
  rw [splitOnce, hd]

/-- The digits of a magnitude before and after the point. -/
def printedParts (n scale : ℕ) : List Char × List Char :=
  let digits := natText n
  if digits.length ≤ scale then
    (['0'], List.replicate (scale - digits.length) '0' ++ digits)
  else (digits.take (digits.length - scale), digits.drop (digits.length - scale))

/-- What the parts of a printed magnitude satisfy. -/
structure PartsOf (n scale : ℕ) (whole fractional : List Char) : Prop where
  whole_ne : whole ≠ []
  whole_digits : ∀ c ∈ whole, isDigit c = true
  fractional_digits : ∀ c ∈ fractional, isDigit c = true
  fractional_length : fractional.length = scale
  value : digitsValue whole * 10 ^ scale + digitsValue fractional = n

theorem digitsValue_zeros (k : ℕ) (s : List Char) :
    digitsValue (List.replicate k '0' ++ s) = digitsValue s := by
  rw [digitsValue_append, digitsValue_replicate_zero, Nat.zero_mul, Nat.zero_add]

theorem printedParts_spec (n scale : ℕ) :
    PartsOf n scale (printedParts n scale).1 (printedParts n scale).2 := by
  have hd : ∀ c ∈ natText n, isDigit c = true := fun c => isDigit_of_mem_natText
  simp only [printedParts]
  split_ifs with hle
  · refine ⟨by simp, by simp [isDigit], fun c hc => ?_, by simp; omega, ?_⟩
    · rcases mem_append.mp hc with hc | hc
      · rw [eq_of_mem_replicate hc]
        rfl
      · exact hd c hc
    · rw [digitsValue_zeros, digitsValue_natText]
      simp [digitsValue, digitValue]
  · have hl : ((natText n).drop ((natText n).length - scale)).length = scale := by
      simp
      omega
    refine ⟨?_, fun c hc => hd c (mem_of_mem_take hc),
      fun c hc => hd c (mem_of_mem_drop hc), hl, ?_⟩
    · intro hnil
      have := congrArg List.length hnil
      simp at this
      omega
    · conv_rhs => rw [← digitsValue_natText n, ← take_append_drop
        ((natText n).length - scale) (natText n), digitsValue_append, hl]

theorem formatDecimal128Value_eq (value : I128) (scale : UInt8) :
    formatDecimal128Value value scale = (if value.val < 0 then ['-'] else []) ++
        ((printedParts value.val.natAbs scale.toNat).1 ++ if scale.toNat = 0 then [] else
            '.' :: (printedParts value.val.natAbs scale.toNat).2) := by
  have hne := length_pos_iff.mpr (natText_ne_nil value.val.natAbs)
  unfold formatDecimal128Value printedParts
  by_cases h0 : scale.toNat = 0
  · have hgt : ¬ (natText value.val.natAbs).length ≤ scale.toNat := by omega
    simp only [h0, if_true, Nat.sub_zero, append_nil] at hgt ⊢
    rw [if_neg hgt]
    split_ifs <;> simp
  · simp only [h0, if_false]
    split_ifs <;> simp

theorem splitDecimal_parts {n : ℕ} (h : PartsOf n scale whole fractional) :
    splitDecimal (whole ++ if scale = 0 then [] else '.' :: fractional) scale =
      some (whole, fractional) := by
  have hp : ∀ c ∈ whole, c ≠ '.' := fun c hc => isDigit_ne_point (h.whole_digits c hc)
  have hs : (¬ whole = [] ∧ ∀ c ∈ whole, isDigit c = true) :=
    ⟨h.whole_ne, h.whole_digits⟩
  unfold splitDecimal
  split_ifs with h0
  · have hnil : fractional = [] := eq_nil_of_length_eq_zero (h.fractional_length.trans h0)
    rw [append_nil, splitOnce_none hp]
    simpa [h0, hnil] using hs
  · rw [splitOnce_append hp]
    simpa using ⟨⟨hs, h.fractional_length⟩, h.fractional_digits⟩

theorem formatDecimal128Value_inj {other : I128} {scale : UInt8}
    (h : formatDecimal128Value value scale = formatDecimal128Value other scale) :
    value = other := by
  have hp (v : I128) := printedParts_spec v.val.natAbs scale.toNat
  have hs (v : I128) : (formatDecimal128Value v scale).head? = some '-' ↔ v.val < 0 := by
    obtain ⟨c, cs, hw⟩ := exists_cons_of_ne_nil (hp v).whole_ne
    have hd := (hp v).whole_digits c (by simp [hw])
    have hm : c ≠ '-' := by
      rintro rfl
      exact absurd hd (by decide)
    rw [formatDecimal128Value_eq, hw]
    by_cases hneg : v.val < 0 <;> simp [hneg, hm]
  have hneg : value.val < 0 ↔ other.val < 0 := by rw [← hs, h, hs]
  rw [formatDecimal128Value_eq, formatDecimal128Value_eq] at h
  simp only [hneg] at h
  have hsplit := splitDecimal_parts (hp value)
  rw [append_cancel_left h, splitDecimal_parts (hp other)] at hsplit
  obtain ⟨hw, hf⟩ := Prod.mk.inj (Option.some.inj hsplit)
  have ha : value.val.natAbs = other.val.natAbs := by
    rw [← (hp value).value, ← hw, ← hf, (hp other).value]
  exact val_inj.mp (by omega)

theorem scaleFactor_val {factor : I128} (h : decimal128ScaleFactor scale = some factor) :
    factor.val = 10 ^ scale := by
  induction scale generalizing factor with
  | zero => exact ofInt?_eq_some.mp h
  | succ scale ih =>
    obtain ⟨smaller, hs, hm⟩ := Option.bind_eq_some_iff.mp h
    rw [ofInt?_eq_some.mp hm, ih hs, pow_succ]

private theorem ofInt?_of_nat {n : ℕ} (h : (n : ℤ) < 2 ^ 127) :
    ∃ a, SInt.ofInt? 128 n = some a ∧ a.val = n := by
  have hf : SInt.Fits 128 n := fits128_iff.mpr ⟨by omega, h⟩
  exact ⟨SInt.ofFits n hf, ofInt?_eq_some.mpr rfl, rfl⟩

theorem decimalMagnitude_parts {n : ℕ} {factor : I128} (h : PartsOf n scale whole fractional)
    (hf : decimal128ScaleFactor scale = some factor) (hn : (n : ℤ) < 2 ^ 127) :
    ∃ magnitude, decimalMagnitude whole fractional scale = some magnitude ∧ magnitude.val = n := by
  have hpow : 0 < 10 ^ scale := by positivity
  have hv := h.value
  have hp : digitsValue whole * 10 ^ scale ≤ n := by omega
  have hw : digitsValue whole ≤ n := (Nat.le_mul_of_pos_right _ hpow).trans hp
  obtain ⟨a, ha, hav⟩ := ofInt?_of_nat (n := digitsValue whole) (by omega)
  obtain ⟨b, hb, hbv⟩ := ofInt?_of_nat (n := digitsValue whole * 10 ^ scale) (by omega)
  obtain ⟨c, hc, hcv⟩ := ofInt?_of_nat (n := digitsValue fractional) (by omega)
  obtain ⟨d, hd, hdv⟩ := ofInt?_of_nat hn
  have hm : a.checkedMul factor = some b := by
    rw [SInt.checkedMul, hav, scaleFactor_val hf, ← hb]
    push_cast
    rfl
  have hadd : b.checkedAdd c = some d := by
    rw [SInt.checkedAdd, hbv, hcv, ← hd, ← hv]
    push_cast
    rfl
  rcases Nat.eq_zero_or_pos scale with rfl | hpos
  · have hnil : fractional = [] := eq_nil_of_length_eq_zero h.fractional_length
    refine ⟨b, ?_, ?_⟩
    · simp [decimalMagnitude, parseDigits128, ha, hf, hm]
    · rw [hbv, ← hv, hnil]
      simp [digitsValue]
  · refine ⟨d, ?_, hdv⟩
    simp [decimalMagnitude, parseDigits128, ha, hf, hm, hc, hpos, hadd]

theorem parseSignedDecimal_eq_some {negative : Bool} {digits text : List Char} {scale : UInt8} :
    parseSignedDecimal negative digits text precision scale = some value ↔
      digits.isEmpty = false ∧ ∃ whole fractional magnitude,
        splitDecimal digits scale.toNat = some (whole, fractional) ∧
        decimalMagnitude whole fractional scale.toNat = some magnitude ∧
        decimal128PrecisionFits magnitude.val.natAbs precision = true ∧
        applySign negative magnitude = some value ∧ formatDecimal128Value value scale = text := by
  simp only [parseSignedDecimal, Option.bind_eq_bind, Option.bind_eq_some_iff,
    Option.guard_eq_some']
  simp

theorem parseSignedDecimal_parts {scale : UInt8} {factor : I128} (negative : Bool)
    (hp : PartsOf value.val.natAbs scale.toNat whole fractional)
    (hf : decimal128ScaleFactor scale.toNat = some factor) (hmin : -2 ^ 127 < value.val)
    (hprecision : decimal128PrecisionFits value.val.natAbs precision = true)
    (hs : negative = true ↔ value.val < 0) :
    parseSignedDecimal negative (whole ++ if scale.toNat = 0 then [] else '.' :: fractional)
        (formatDecimal128Value value scale) precision scale = some value := by
  obtain ⟨-, hhi⟩ := fits128_iff.mp value.val_fits
  obtain ⟨magnitude, hm, hval⟩ := decimalMagnitude_parts hp hf (by omega)
  have hb : applySign negative magnitude = some value := by
    unfold applySign
    split_ifs with hneg
    · have := hs.mp hneg
      rw [SInt.checkedNeg, ofInt?_eq_some, hval]
      omega
    · have := mt hs.mpr hneg
      rw [Option.some.injEq, ← val_inj, hval]
      omega
  have hnat : magnitude.val.natAbs = value.val.natAbs := by rw [hval, Int.natAbs_natCast]
  have hn : (whole ++ if scale.toNat = 0 then [] else '.' :: fractional).isEmpty = false := by
    simp [hp.whole_ne]
  exact parseSignedDecimal_eq_some.mpr ⟨hn, whole, fractional, magnitude,
    splitDecimal_parts hp, hm, hnat ▸ hprecision, hb, rfl⟩

theorem parseDecimal128Str_format {scale : UInt8} (hmin : -2 ^ 127 < value.val)
    (hprecision : decimal128PrecisionFits value.val.natAbs precision = true)
    (hs : (decimal128ScaleFactor scale.toNat).isSome = true) :
    parseDecimal128Str (formatDecimal128Value value scale) precision scale = some value := by
  obtain ⟨factor, hf⟩ := Option.isSome_iff_exists.mp hs
  have hp := printedParts_spec value.val.natAbs scale.toNat
  have hformat := formatDecimal128Value_eq value scale
  by_cases hneg : value.val < 0
  · have hr := parseSignedDecimal_parts true hp hf hmin hprecision
      (by simp [hneg])
    rw [if_pos hneg] at hformat
    rw [hformat] at hr ⊢
    exact hr
  · have hr := parseSignedDecimal_parts false hp hf hmin hprecision
      (by simp [hneg])
    rw [if_neg hneg, nil_append] at hformat
    obtain ⟨c, cs, hw⟩ := exists_cons_of_ne_nil hp.whole_ne
    have hd := hp.whole_digits c (by rw [hw]; exact mem_cons_self ..)
    rw [hformat, hw, cons_append] at hr ⊢
    rw [parseDecimal128Str]
    · exact hr
    · intro digits hm
      rw [(List.cons.inj hm).1] at hd
      exact absurd hd (by decide)

theorem decimalMagnitude_spec {magnitude : I128}
    (h : decimalMagnitude whole fractional scale = some magnitude) :
    0 ≤ magnitude.val ∧ (decimal128ScaleFactor scale).isSome = true := by
  simp only [decimalMagnitude, Option.bind_eq_bind, Option.bind_eq_some_iff] at h
  obtain ⟨a, ha, factor, hf, b, hb, h⟩ := h
  have hav := ofInt?_eq_some.mp ha
  have hbv := ofInt?_eq_some.mp hb
  have hbnonneg : 0 ≤ b.val := by
    rw [hbv, hav, scaleFactor_val hf]
    positivity
  refine ⟨?_, by rw [hf]; rfl⟩
  split_ifs at h
  · obtain ⟨c, hc, h⟩ := Option.bind_eq_some_iff.mp h
    have hcv := ofInt?_eq_some.mp hc
    rw [ofInt?_eq_some.mp h]
    omega
  · rw [← Option.some.inj h]
    exact hbnonneg

theorem parseDecimal128Str_spec {text : List Char} {scale : UInt8}
    (h : parseDecimal128Str text precision scale = some value) :
    formatDecimal128Value value scale = text ∧ -2 ^ 127 < value.val ∧
      decimal128PrecisionFits value.val.natAbs precision = true ∧
      (decimal128ScaleFactor scale.toNat).isSome = true := by
  obtain ⟨negative, digits, hsigned⟩ :
      ∃ negative digits, parseSignedDecimal negative digits text precision scale = some value := by
    unfold parseDecimal128Str at h
    split at h
    · exact ⟨_, _, h⟩
    · exact ⟨_, _, h⟩
  obtain ⟨-, whole, fractional, magnitude, -, hm, hprecision, hv, hformat⟩ :=
    parseSignedDecimal_eq_some.mp hsigned
  obtain ⟨hn, hs⟩ := decimalMagnitude_spec hm
  obtain ⟨-, hhi⟩ := fits128_iff.mp magnitude.val_fits
  have hval : value.val = magnitude.val ∨ value.val = -magnitude.val := by
    unfold applySign at hv
    split_ifs at hv
    · exact Or.inr (ofInt?_eq_some.mp hv)
    · exact Or.inl (by rw [Option.some.inj hv])
  have hnat : value.val.natAbs = magnitude.val.natAbs := by omega
  exact ⟨hformat, by omega, hnat ▸ hprecision, hs⟩

theorem scaleFactor_isSome (h : scale ≤ 38) : (decimal128ScaleFactor scale).isSome = true := by
  induction scale with
  | zero => rfl
  | succ scale ih =>
    obtain ⟨factor, hf⟩ := Option.isSome_iff_exists.mp (ih (by omega))
    have hp : (10 : ℤ) ^ (scale + 1) ≤ 10 ^ 38 := pow_le_pow_right₀ (by norm_num) h
    have hfit : Fits 128 (factor.val * 10) := by
      rw [scaleFactor_val hf, ← pow_succ]
      have h0 : (0 : ℤ) ≤ 10 ^ (scale + 1) := by positivity
      exact fits128_iff.mpr ⟨by omega, hp.trans_lt (by norm_num)⟩
    rw [decimal128ScaleFactor, hf]
    exact Option.isSome_iff_exists.mpr ⟨.ofFits _ hfit, ofInt?_eq_some.mpr rfl⟩

theorem precisionFits_iff {n : ℕ} :
    decimal128PrecisionFits n precision = true ↔ (natText n).length ≤ precision.toNat := by
  have hl : (natText n).length = if n = 0 then 1 else Nat.log 10 n + 1 := by
    unfold natText
    split_ifs with h
    · rfl
    · rw [length_reverse, length_map, Nat.length_digits 10 n (by norm_num) h]
  rw [hl, decimal128PrecisionFits, decide_eq_true_eq]

theorem parseDecimal128Str_eq_some_iff {text : List Char} {scale : UInt8}
    (hs : scale.toNat ≤ 38) : parseDecimal128Str text precision scale = some value ↔
      formatDecimal128Value value scale = text ∧
        (natText value.val.natAbs).length ≤ precision.toNat ∧ -2 ^ 127 < value.val := by
  constructor
  · intro h
    obtain ⟨hf, hmin, hp, -⟩ := parseDecimal128Str_spec h
    exact ⟨hf, precisionFits_iff.mp hp, hmin⟩
  · rintro ⟨rfl, hp, hmin⟩
    exact parseDecimal128Str_format hmin (precisionFits_iff.mpr hp) (scaleFactor_isSome hs)

/-- A decimal is printed without a sign on zero, without leading zeros, and with as many digits
after the point as its scale. -/
structure PrintedDecimal (scale : ℕ) (text : List Char) (negative : Bool)
    (whole fractional : List Char) : Prop where
  shape : text = (if negative then ['-'] else []) ++
    (whole ++ if scale = 0 then [] else '.' :: fractional)
  digits : ∀ c ∈ whole ++ fractional, isDigit c = true
  whole_ne : whole ≠ []
  leading : whole.head? = some '0' → whole = ['0']
  fractional_length : fractional.length = scale
  signed : negative = true → ∃ c ∈ whole ++ fractional, c ≠ '0'

theorem printedParts_leading (n scale : ℕ) :
    (printedParts n scale).1.head? = some '0' → (printedParts n scale).1 = ['0'] := by
  unfold printedParts
  dsimp only
  split_ifs with hle
  · exact fun _ => rfl
  · rw [head?_take, if_neg (by omega)]
    intro h
    by_cases hn : n = 0
    · subst hn
      have hs : scale = 0 := by simpa [natText] using hle
      subst hs
      rfl
    · exact absurd h (natText_head hn)

theorem formatDecimal128Value_printed (value : I128) (scale : UInt8) :
    PrintedDecimal scale.toNat (formatDecimal128Value value scale) (value.val < 0)
      (printedParts value.val.natAbs scale.toNat).1
      (printedParts value.val.natAbs scale.toNat).2 := by
  have hp := printedParts_spec value.val.natAbs scale.toNat
  refine ⟨by simp [formatDecimal128Value_eq], fun c hc => ?_, hp.whole_ne,
    printedParts_leading _ _, hp.fractional_length, fun hneg => ?_⟩
  · exact (mem_append.mp hc).elim (hp.whole_digits c) (hp.fractional_digits c)
  · by_contra hz
    push Not at hz
    have hv (s : List Char) (h : ∀ c ∈ s, c = '0') : digitsValue s = 0 := by
      rw [eq_replicate_of_mem h]
      exact digitsValue_replicate_zero _
    have h := hp.value
    rw [hv _ fun c hc => hz c (mem_append_left _ hc),
      hv _ fun c hc => hz c (mem_append_right _ hc)] at h
    have := of_decide_eq_true hneg
    omega

/-- Exactly the canonical decimals within the precision are accepted. -/
structure ParsesCanonical (text : List Char) (precision scale : UInt8) : Prop where
  accepts : ∀ value, parseDecimal128Str text precision scale = some value ↔
    text = formatDecimal128Value value scale ∧
      (natText value.val.natAbs).length ≤ precision.toNat
  unique : ∀ other value, parseDecimal128Str text precision scale = some value →
    parseDecimal128Str other precision scale = some value → other = text
  canonical : ∀ value, parseDecimal128Str text precision scale = some value →
    ∃ whole fractional, PrintedDecimal scale.toNat text (value.val < 0) whole fractional

def i128Min : I128 := .ofFits (-2 ^ 127) (fits128_iff.mpr (by norm_num))

theorem natText_i128Min : (natText i128Min.val.natAbs).length = 39 := by decide +kernel

theorem parsesCanonical_iff {text : List Char} {scale : UInt8} (hs : scale.toNat ≤ 38) :
    ParsesCanonical text precision scale ↔
      ¬ (text = formatDecimal128Value i128Min scale ∧ 39 ≤ precision.toNat) := by
  constructor
  · rintro h ⟨rfl, hp⟩
    have hm := (h.accepts i128Min).mpr ⟨rfl, natText_i128Min.trans_le hp⟩
    exact absurd ((parseDecimal128Str_eq_some_iff hs).mp hm).2.2 (by decide)
  · intro h
    refine ⟨fun value => ?_, fun other value ht ho => ?_, fun value hv => ?_⟩
    · rw [parseDecimal128Str_eq_some_iff hs]
      constructor
      · rintro ⟨rfl, hp, -⟩
        exact ⟨rfl, hp⟩
      rintro ⟨rfl, hp⟩
      refine ⟨rfl, hp, ?_⟩
      by_contra hmin
      have hv : value = i128Min := by
        have := (fits128_iff.mp value.val_fits).1
        exact val_inj.mp (le_antisymm (not_lt.mp hmin) this)
      subst hv
      exact h ⟨rfl, natText_i128Min ▸ hp⟩
    · rw [← (parseDecimal128Str_spec ht).1, ← (parseDecimal128Str_spec ho).1]
    · rw [← (parseDecimal128Str_spec hv).1]
      exact ⟨_, _, formatDecimal128Value_printed value scale⟩

theorem parsesCanonical_price : ParsesCanonical ['1', '.', '5', '0'] 38 2 :=
  (parsesCanonical_iff (by decide)).mpr (by decide)

theorem i128Min_not_parsed :
    formatDecimal128Value i128Min 0 = "-170141183460469231731687303715884105728".toList ∧
      parseDecimal128Str (formatDecimal128Value i128Min 0) 39 0 = none ∧
      ¬ ParsesCanonical (formatDecimal128Value i128Min 0) 39 0 := by
  have hn : parseDecimal128Str (formatDecimal128Value i128Min 0) 39 0 = none := by decide +kernel
  refine ⟨by decide +kernel, hn, fun h => ?_⟩
  have hm := (h.accepts i128Min).mpr ⟨rfl, natText_i128Min.le⟩
  rw [hn] at hm
  cases hm

end RoundTrip
end Velorix.Operator
