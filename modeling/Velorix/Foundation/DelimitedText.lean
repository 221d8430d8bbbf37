import Mathlib.Tactic

/-! Texts that can be read back without separators. A rendering is delimited when
the value and the rest of the text are both determined by their concatenation,
provided the rest does not continue the rendering. -/
namespace DelimitedText

open List

variable {α σ : Type*}

/-- The text is empty or starts with a symbol that cannot continue a rendering. -/
def Stops (inside : σ → Prop) (s : List σ) : Prop := ∀ c ∈ s.head?, ¬ inside c

theorem stops_nil (inside : σ → Prop) : Stops inside [] := by simp [Stops]

theorem stops_cons {inside : σ → Prop} {c : σ} (h : ¬ inside c) (s : List σ) :
    Stops inside (c :: s) := by simpa [Stops] using h

/-- Against every admissible value, the rendering of `a` followed by a stopping
text determines both the value and that text. -/
def Separates (inside : σ → Prop) (f : α → List σ) (P : α → Prop) (a : α) : Prop :=
  ∀ ⦃b s t⦄, P b → Stops inside s → Stops inside t → f a ++ s = f b ++ t → a = b ∧ s = t

/-- The code words are told apart whatever follows them. -/
def PrefixFree (f : α → List σ) : Prop := ∀ ⦃a b s t⦄, f a ++ s = f b ++ t → a = b ∧ s = t

/-- Each item after the first is preceded by the comma; the closer ends the list. -/
def tailText (f : α → List σ) (comma close : σ) : List α → List σ
  | [] => [close]
  | x :: xs => comma :: (f x ++ tailText f comma close xs)

def listText (f : α → List σ) (comma close : σ) : List α → List σ
  | [] => [close]
  | x :: xs => f x ++ tailText f comma close xs

/-- The rendering starts with a symbol other than `c`. -/
def StartsOff (c : σ) (s : List σ) : Prop := ∃ d rest, s = d :: rest ∧ d ≠ c

section Lists
variable {inside : σ → Prop} {f : α → List σ} {P : α → Prop} {comma close : σ}

theorem tailText_stops (hcomma : ¬ inside comma) (hclose : ¬ inside close) (xs : List α)
    (s : List σ) : Stops inside (tailText f comma close xs ++ s) := by
  cases xs with
  | nil => exact stops_cons hclose _
  | cons x xs => exact stops_cons hcomma _

section
variable {xs ys : List α} (hcomma : ¬ inside comma) (hclose : ¬ inside close)
  (hne : comma ≠ close) (hx : ∀ x ∈ xs, Separates inside f P x) (hy : ∀ y ∈ ys, P y)
include hcomma hclose hne hx hy

theorem tailText_inj {s t : List σ}
    (h : tailText f comma close xs ++ s = tailText f comma close ys ++ t) :
    xs = ys ∧ s = t := by
  induction xs generalizing ys with
  | nil =>
    cases ys with
    | nil => simpa [tailText] using h
    | cons y ys =>
      simp only [tailText, cons_append, List.cons.injEq] at h
      exact absurd h.1.symm hne
  | cons x xs ih =>
    cases ys with
    | nil =>
      simp only [tailText, cons_append, List.cons.injEq] at h
      exact absurd h.1 hne
    | cons y ys =>
      simp only [tailText, cons_append, List.cons.injEq, true_and, append_assoc] at h
      obtain ⟨hxy, hr⟩ := hx x (mem_cons_self ..) (hy y (mem_cons_self ..))
        (tailText_stops hcomma hclose xs s) (tailText_stops hcomma hclose ys t) h
      obtain ⟨hl, hst⟩ := ih (fun a ha => hx a (mem_cons_of_mem _ ha))
        (fun a ha => hy a (mem_cons_of_mem _ ha)) hr
      exact ⟨by rw [hxy, hl], hst⟩

/-- A closed list of delimited items is itself delimited, whatever follows it. -/
theorem listText_inj (hsx : ∀ x ∈ xs, StartsOff close (f x)) (hsy : ∀ y ∈ ys, StartsOff close (f y))
    {s t : List σ} (h : listText f comma close xs ++ s = listText f comma close ys ++ t) :
    xs = ys ∧ s = t := by
  cases xs with
  | nil =>
    cases ys with
    | nil => simpa [listText] using h
    | cons y ys =>
      obtain ⟨c, rest, hc, hcne⟩ := hsy y (mem_cons_self ..)
      simp only [listText, hc, cons_append, List.cons.injEq] at h
      exact absurd h.1.symm hcne
  | cons x xs =>
    cases ys with
    | nil =>
      obtain ⟨c, rest, hc, hcne⟩ := hsx x (mem_cons_self ..)
      simp only [listText, hc, cons_append, List.cons.injEq] at h
      exact absurd h.1 hcne
    | cons y ys =>
      simp only [listText, append_assoc] at h
      obtain ⟨hxy, hr⟩ := hx x (mem_cons_self ..) (hy y (mem_cons_self ..))
        (tailText_stops hcomma hclose xs s) (tailText_stops hcomma hclose ys t) h
      obtain ⟨hl, hst⟩ := tailText_inj hcomma hclose hne
        (fun a ha => hx a (mem_cons_of_mem _ ha))
        (fun a ha => hy a (mem_cons_of_mem _ ha)) hr
      exact ⟨by rw [hxy, hl], hst⟩

end

end Lists

theorem intercalate_close (f : α → List σ) (comma close : σ) (xs : List α) :
    [comma].intercalate (xs.map f) ++ [close] = listText f comma close xs := by
  cases xs with
  | nil => rfl
  | cons x xs =>
    have ht (xs : List α) (x : α) : [comma].intercalate ((x :: xs).map f) ++ [close] =
        f x ++ tailText f comma close xs := by
      induction xs generalizing x with
      | nil => simp [tailText, List.intercalate]
      | cons y ys ih =>
        have := ih y
        simp only [map_cons, List.intercalate, intersperse_cons_cons, flatten_cons,
          append_assoc] at this ⊢
        rw [this]
        rfl
    exact ht xs x

def escaped (esc : σ → List σ) (s : List σ) : List σ := s.flatMap esc

theorem escaped_quote_inj {esc : σ → List σ} {quote : σ} (hesc : PrefixFree esc)
    (hs : ∀ c, StartsOff quote (esc c)) {a b s t : List σ}
    (h : escaped esc a ++ quote :: s = escaped esc b ++ quote :: t) : a = b ∧ s = t := by
  induction a generalizing b with
  | nil =>
    cases b with
    | nil => simpa [escaped] using h
    | cons d ds =>
      obtain ⟨e, rest, he, hne⟩ := hs d
      simp only [escaped, flatMap_cons, he, flatMap_nil, nil_append,
        cons_append, List.cons.injEq] at h
      exact absurd h.1.symm hne
  | cons c cs ih =>
    cases b with
    | nil =>
      obtain ⟨e, rest, he, hne⟩ := hs c
      simp only [escaped, flatMap_cons, he, flatMap_nil, nil_append,
        cons_append, List.cons.injEq] at h
      exact absurd h.1 hne
    | cons d ds =>
      simp only [escaped, flatMap_cons, append_assoc] at h
      obtain ⟨hcd, hr⟩ := hesc h
      obtain ⟨hl, hst⟩ := ih hr
      exact ⟨by rw [hcd, hl], hst⟩

theorem inside_run_inj {inside : σ → Prop} {a b s t : List σ} (ha : ∀ c ∈ a, inside c)
    (hb : ∀ c ∈ b, inside c) (hs : Stops inside s) (ht : Stops inside t)
    (h : a ++ s = b ++ t) : a = b ∧ s = t := by
  induction a generalizing b with
  | nil =>
    cases b with
    | nil => exact ⟨rfl, h⟩
    | cons d ds =>
      rw [nil_append] at h
      exact absurd (hb d (mem_cons_self ..)) (hs d (by simp [h]))
  | cons c cs ih =>
    cases b with
    | nil =>
      rw [nil_append] at h
      exact absurd (ha c (mem_cons_self ..)) (ht c (by simp [← h]))
    | cons d ds =>
      simp only [cons_append, List.cons.injEq] at h
      obtain ⟨hl, hst⟩ := ih (fun x hx => ha x (mem_cons_of_mem _ hx))
        (fun x hx => hb x (mem_cons_of_mem _ hx)) h.2
      exact ⟨by rw [h.1, hl], hst⟩

end DelimitedText
