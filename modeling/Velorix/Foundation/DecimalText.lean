import Mathlib.Tactic

/-! Decimal numerals as texts: rendering of naturals and integers, and the value a
digit string denotes. Texts of white space count as blank. -/

namespace BlankText

/-- The characters with the property `White_Space`. -/
def isWhitespace (c : Char) : Bool :=
  let n := c.toNat
  (9 ≤ n && n ≤ 13) || n == 0x20 || n == 0x85 || n == 0xA0 || n == 0x1680 ||
    (0x2000 ≤ n && n ≤ 0x200A) || n == 0x2028 || n == 0x2029 || n == 0x202F || n == 0x205F ||
    n == 0x3000

def isBlank (text : String) : Bool := text.toList.all isWhitespace

end BlankText

namespace DecimalText

open List

def digitChar (d : ℕ) : Char := Char.ofNat (48 + d)

def digitValue (c : Char) : ℕ := c.toNat - 48

def isDigit (c : Char) : Bool := '0' ≤ c && c ≤ '9'

/-- The shortest decimal numeral of a natural number. -/
def natText (n : ℕ) : List Char :=
  if n = 0 then ['0'] else ((Nat.digits 10 n).map digitChar).reverse

def intText (i : ℤ) : List Char :=
  if i < 0 then '-' :: natText i.natAbs else natText i.natAbs

/-- The value of a string of digits, most significant first. -/
def digitsValue (s : List Char) : ℕ := s.foldl (fun acc c => 10 * acc + digitValue c) 0

theorem digitValue_digitChar {d : ℕ} (h : d < 10) : digitValue (digitChar d) = d := by
  interval_cases d <;> rfl

theorem isDigit_digitChar {d : ℕ} (h : d < 10) : isDigit (digitChar d) = true := by
  interval_cases d <;> rfl

theorem natText_ne_nil (n : ℕ) : natText n ≠ [] := by
  unfold natText
  split_ifs with h
  · simp
  · simpa using Nat.digits_ne_nil_iff_ne_zero.mpr h

theorem isDigit_of_mem_natText {n : ℕ} {c : Char} (h : c ∈ natText n) : isDigit c = true := by
  unfold natText at h
  split_ifs at h with h0
  · simp only [mem_singleton] at h
    subst h
    rfl
  · simp only [mem_reverse, mem_map] at h
    obtain ⟨d, hd, rfl⟩ := h
    exact isDigit_digitChar (Nat.digits_lt_base (by norm_num) hd)

theorem foldl_digitsValue (s : List Char) (acc : ℕ) :
    s.foldl (fun acc c => 10 * acc + digitValue c) acc = acc * 10 ^ s.length + digitsValue s := by
  induction s generalizing acc with
  | nil => simp [digitsValue]
  | cons c s ih =>
    simp only [foldl_cons, length_cons, digitsValue]
    rw [ih, ih (10 * 0 + digitValue c)]
    ring

theorem digitsValue_append (s t : List Char) :
    digitsValue (s ++ t) = digitsValue s * 10 ^ t.length + digitsValue t := by
  rw [digitsValue, foldl_append, foldl_digitsValue]
  rfl

theorem digitsValue_reverse_map {ds : List ℕ} (h : ∀ d ∈ ds, d < 10) :
    digitsValue (ds.map digitChar).reverse = Nat.ofDigits 10 ds := by
  induction ds with
  | nil => rfl
  | cons d ds ih =>
    rw [map_cons, reverse_cons, digitsValue_append, ih fun e he =>
      h e (mem_cons_of_mem _ he), Nat.ofDigits_cons]
    simp [digitsValue, digitValue_digitChar (h d (mem_cons_self ..))]
    ring

@[simp] theorem digitsValue_natText (n : ℕ) : digitsValue (natText n) = n := by
  unfold natText
  split_ifs with h
  · subst h
    rfl
  · rw [digitsValue_reverse_map fun d hd => Nat.digits_lt_base (by norm_num) hd,
      Nat.ofDigits_digits]

theorem natText_injective : Function.Injective natText := fun a b h => by
  rw [← digitsValue_natText a, h, digitsValue_natText]

theorem natText_head {n : ℕ} (h : n ≠ 0) : (natText n).head? ≠ some '0' := by
  rw [natText, if_neg h, head?_reverse, getLast?_map,
    getLast?_eq_some_getLast (Nat.digits_ne_nil_iff_ne_zero.mpr h), Option.map_some, Ne,
    Option.some.injEq]
  intro hc
  have hd := digitValue_digitChar (Nat.digits_lt_base (by norm_num) (getLast_mem
    (Nat.digits_ne_nil_iff_ne_zero.mpr h)))
  rw [hc] at hd
  exact Nat.getLast_digit_ne_zero 10 h hd.symm

theorem natText_head_ne_minus (n : ℕ) (s : List Char) : natText n ≠ '-' :: s := by
  intro h
  have := isDigit_of_mem_natText (n := n) (c := '-') (by rw [h]; exact mem_cons_self ..)
  exact absurd this (by decide)

theorem intText_injective : Function.Injective intText := by
  intro a b h
  unfold intText at h
  split_ifs at h with ha hb hb
  · have := natText_injective (List.cons.inj h).2
    omega
  · exact absurd h.symm (natText_head_ne_minus _ _)
  · exact absurd h (natText_head_ne_minus _ _)
  · have := natText_injective h
    omega

theorem mem_intText {i : ℤ} {c : Char} (h : c ∈ intText i) : isDigit c = true ∨ c = '-' := by
  unfold intText at h
  split_ifs at h
  · rcases mem_cons.mp h with rfl | h
    · exact Or.inr rfl
    · exact Or.inl (isDigit_of_mem_natText h)
  · exact Or.inl (isDigit_of_mem_natText h)

theorem intText_ne_nil (i : ℤ) : intText i ≠ [] := by
  unfold intText
  split_ifs
  · simp
  · exact natText_ne_nil _

/-- The numeral of `n`, filled with zeros from the left. -/
def paddedText (width n : ℕ) : List Char :=
  List.replicate (width - (natText n).length) '0' ++ natText n

theorem natText_length_le {n width : ℕ} (hw : 0 < width) (h : n < 10 ^ width) :
    (natText n).length ≤ width := by
  unfold natText
  split_ifs with h0
  · exact hw
  · rw [length_reverse, length_map]
    exact (Nat.digits_length_le_iff (by norm_num) n).mpr h

theorem paddedText_length {n width : ℕ} (hw : 0 < width) (h : n < 10 ^ width) :
    (paddedText width n).length = width := by
  have hle := natText_length_le hw h
  rw [paddedText, length_append, length_replicate]
  omega

theorem isDigit_of_mem_paddedText {n width : ℕ} {c : Char} (h : c ∈ paddedText width n) :
    isDigit c = true := by
  rcases mem_append.mp h with h | h
  · rw [eq_of_mem_replicate h]
    rfl
  · exact isDigit_of_mem_natText h

@[simp]
theorem digitsValue_replicate_zero (k : ℕ) : digitsValue (List.replicate k '0') = 0 := by
  induction k with
  | zero => rfl
  | succ k ih => exact ih

@[simp]
theorem digitsValue_paddedText (width n : ℕ) : digitsValue (paddedText width n) = n := by
  rw [paddedText, digitsValue_append, digitsValue_replicate_zero, digitsValue_natText]
  omega

end DecimalText
