import Mathlib.Tactic

/-! Computations that may fail, run over lists: inversion of a successful bind, of a
successful traversal and of a successful left fold. -/

namespace List.Forall₂

variable {α β : Type} {R : α → β → Prop} {as : List α} {bs : List β}

theorem exists_of_mem_right (h : Forall₂ R as bs) {b : β} (hb : b ∈ bs) : ∃ a ∈ as, R a b := by
  induction h with
  | nil => cases hb
  | cons hab _ ih =>
    rcases mem_cons.mp hb with rfl | hb
    · exact ⟨_, mem_cons_self, hab⟩
    · obtain ⟨a, ha, hr⟩ := ih hb
      exact ⟨a, mem_cons_of_mem _ ha, hr⟩

theorem exists_of_mem_left (h : Forall₂ R as bs) {a : α} (ha : a ∈ as) : ∃ b ∈ bs, R a b :=
  exists_of_mem_right (flip (R := fun b a => R a b) h) ha

end List.Forall₂

namespace Result

open List

variable {ε α β σ : Type}

variable {x : Except ε α} {b : β}

theorem bind_eq_ok {f : α → Except ε β} :
    (x >>= f) = .ok b ↔ ∃ a, x = .ok a ∧ f a = .ok b := by
  cases x <;> simp [bind, Except.bind]

variable {e : ε}

theorem bind_eq_error {f : α → Except ε β} :
    (x >>= f) = .error e ↔ x = .error e ∨ ∃ a, x = .ok a ∧ f a = .error e := by
  cases x <;> simp [bind, Except.bind]

variable {a : α}

@[simp] theorem pure_eq_ok : (pure a : Except ε α) = .ok a := rfl

@[simp] theorem ok_bind (a : α) (f : α → Except ε β) : ((.ok a : Except ε α) >>= f) = f a := rfl

@[simp] theorem error_bind (e : ε) (f : α → Except ε β) :
    ((.error e : Except ε α) >>= f) = .error e := rfl

variable {f : α → Except ε β}

variable {as : List α}

theorem mapM_eq_ok {bs : List β} :
    as.mapM f = .ok bs ↔ List.Forall₂ (fun a b => f a = .ok b) as bs := by
  induction as generalizing bs with
  | nil =>
    rw [mapM_nil, forall₂_nil_left_iff, pure_eq_ok, Except.ok.injEq, eq_comm]
  | cons a as ih =>
    rw [mapM_cons, bind_eq_ok, forall₂_cons_left_iff]
    constructor
    · rintro ⟨b, hb, h⟩
      obtain ⟨bs', hbs, hc⟩ := bind_eq_ok.mp h
      cases hc
      exact ⟨b, bs', hb, ih.mp hbs, rfl⟩
    · rintro ⟨b, bs', hb, hbs, rfl⟩
      exact ⟨b, hb, bind_eq_ok.mpr ⟨bs', ih.mpr hbs, rfl⟩⟩

theorem exists_of_mem_mapM {bs : List β}
    (h : as.mapM f = .ok bs) (hb : b ∈ bs) : ∃ a ∈ as, f a = .ok b :=
  (mapM_eq_ok.mp h).exists_of_mem_right hb

theorem exists_mem_of_mapM {bs : List β}
    (h : as.mapM f = .ok bs) (ha : a ∈ as) : ∃ b ∈ bs, f a = .ok b :=
  (mapM_eq_ok.mp h).exists_of_mem_left ha

theorem mapM_id_eq_ok {as : List (Except ε α)} {bs : List α} :
    as.mapM id = .ok bs ↔ as = bs.map .ok := by
  rw [mapM_eq_ok, ← forall₂_eq_eq_eq, forall₂_map_right_iff]
  rfl

/-- A filter that may fail: when it does not, it keeps what the test keeps. -/
theorem filterMap_mapM_ok {f : α → Option (Except ε α)} (hf : ∀ a b, f a = some (.ok b) → b = a)
    {bs : List α} (h : (as.filterMap f).mapM id = .ok bs) :
    bs = as.filter (fun a => (f a).isSome) ∧ ∀ a ∈ as, ∀ e, f a ≠ some (.error e) := by
  rw [mapM_id_eq_ok] at h
  induction as generalizing bs with
  | nil =>
    cases bs with
    | nil => exact ⟨rfl, by simp⟩
    | cons b bs => cases h
  | cons a as ih =>
    rw [filterMap_cons] at h
    rcases hfa : f a with _ | e | b
    · rw [hfa] at h
      obtain ⟨hbs, hall⟩ := ih h
      rw [filter_cons_of_neg (by simp [hfa])]
      refine ⟨hbs, ?_⟩
      intro c hc e
      rcases mem_cons.mp hc with rfl | hc
      · simp [hfa]
      · exact hall c hc e
    · rw [hfa] at h
      cases bs <;> simp at h
    · rw [hfa] at h
      cases bs with
      | nil => simp at h
      | cons c bs =>
        simp only [map_cons, List.cons.injEq, Except.ok.injEq] at h
        obtain ⟨hbs, hall⟩ := ih h.2
        rw [filter_cons_of_pos (by simp [hfa]), ← hbs, ← h.1, hf a b hfa]
        refine ⟨rfl, ?_⟩
        intro d hd e
        rcases mem_cons.mp hd with rfl | hd
        · simp [hfa]
        · exact hall d hd e

theorem mapM_ok_of_forall
    (h : ∀ a ∈ as, ∃ b, f a = .ok b) : ∃ bs, as.mapM f = .ok bs := by
  induction as with
  | nil => exact ⟨[], rfl⟩
  | cons a as ih =>
    obtain ⟨b, hb⟩ := h a (mem_cons_self ..)
    obtain ⟨bs, hbs⟩ := ih fun x hx => h x (mem_cons_of_mem _ hx)
    exact ⟨b :: bs, by rw [mapM_cons, hb, ok_bind, hbs]; rfl⟩

variable {xs : List α}

theorem mapM_select {f : α → Except ε (Option α)} {keep : α → Prop} [DecidablePred keep]
    (h : ∀ a ∈ xs, f a = .ok (if keep a then some a else none)) :
    ∃ o, xs.mapM f = .ok o ∧ o.filterMap id = xs.filter keep := by
  induction xs with
  | nil => exact ⟨[], rfl, rfl⟩
  | cons a xs ih =>
    obtain ⟨o, ho, hkept⟩ := ih fun b hb => h b (mem_cons_of_mem a hb)
    refine ⟨_, by rw [mapM_cons, h a mem_cons_self, ok_bind, ho]; rfl, ?_⟩
    by_cases hk : keep a
    · rw [if_pos hk, filter_cons_of_pos (by simpa using hk), ← hkept]
      rfl
    · rw [if_neg hk, filter_cons_of_neg (by simpa using hk), ← hkept]
      rfl

theorem mapM_eq_error_iff [Subsingleton ε] {f : α → Except ε β} :
    as.mapM f = .error e ↔ ∃ a ∈ as, f a = .error e := by
  induction as with
  | nil => simp
  | cons a as ih =>
    rw [mapM_cons, bind_eq_error]
    constructor
    · rintro (h | ⟨b, hb, h⟩)
      · exact ⟨a, mem_cons_self .., h⟩
      · rcases bind_eq_error.mp h with h | ⟨bs, -, h⟩
        · obtain ⟨x, hx, hfx⟩ := ih.mp h
          exact ⟨x, mem_cons_of_mem _ hx, hfx⟩
        · cases h
    · rintro ⟨x, hx, hfx⟩
      rcases mem_cons.mp hx with rfl | hx
      · exact Or.inl hfx
      · rcases hfa : f a with e' | b
        · exact Or.inl (by rw [Subsingleton.elim e' e])
        · exact Or.inr ⟨b, rfl, bind_eq_error.mpr (Or.inl (ih.mpr ⟨x, hx, hfx⟩))⟩

section Options

variable {x : Except ε α}

theorem toOption_eq_some {a : α} : x.toOption = some a ↔ x = .ok a := by
  cases x <;> simp [Except.toOption]

theorem toOption_isSome_iff : x.toOption.isSome = true ↔ ∃ a, x = .ok a := by
  cases x <;> simp [Except.toOption]

theorem foldlM_map_toOption {τ : Type} {step : σ → α → Except ε σ} {view : σ → τ}
    {next : τ → α → Option τ} {xs : List α}
    (hstep : ∀ s a, (step s a).toOption.map view = next (view s) a) (s : σ) :
    (xs.foldlM step s).toOption.map view = xs.foldlM next (view s) := by
  induction xs generalizing s with
  | nil => rfl
  | cons a xs ih =>
    rw [foldlM_cons, foldlM_cons, ← hstep]
    rcases step s a with e | s'
    · rfl
    · exact ih s'

end Options

variable {step : σ → α → Except ε σ} {P : List α → σ → Prop}

variable {s s' : σ}

private theorem foldlM_ok_from
    (hstep : ∀ {seen s a s'}, P seen s → step s a = .ok s' → P (seen ++ [a]) s')
    (xs seen : List α) (h : xs.foldlM step s = .ok s') (hP : P seen s) :
    P (seen ++ xs) s' := by
  induction xs generalizing seen s with
  | nil =>
    rw [foldlM_nil, pure_eq_ok, Except.ok.injEq] at h
    subst h
    simpa using hP
  | cons a xs ih =>
    rw [foldlM_cons] at h
    obtain ⟨s₁, hs, hr⟩ := bind_eq_ok.mp h
    simpa using ih (seen ++ [a]) hr (hstep hP hs)

theorem foldlM_ok_induct (h : xs.foldlM step s = .ok s') (hP : P [] s)
    (hstep : ∀ {seen s a s'}, P seen s → step s a = .ok s' → P (seen ++ [a]) s') :
    P xs s' := foldlM_ok_from hstep xs [] h hP

theorem foldlM_invariant {P : σ → Prop} (h : xs.foldlM step s = .ok s') (hP : P s)
    (hstep : ∀ {s a s'}, P s → step s a = .ok s' → P s') : P s' :=
  foldlM_ok_induct (P := fun _ => P) h hP hstep

theorem foldlM_eq_error (h : xs.foldlM step s = .error e) (hP : P [] s)
    (hstep : ∀ {seen s a s'}, P seen s → step s a = .ok s' → P (seen ++ [a]) s') :
    ∃ seen a rest s', xs = seen ++ a :: rest ∧ P seen s' ∧ step s' a = .error e := by
  induction xs using List.reverseRecOn generalizing e with
  | nil => cases h
  | append_singleton xs a ih =>
    rw [foldlM_append] at h
    rcases bind_eq_error.mp h with he | ⟨s', hs', hl⟩
    · obtain ⟨seen, b, rest, s', hs, hP', hf⟩ := ih he
      exact ⟨seen, b, rest ++ [a], s', by rw [hs, append_assoc, cons_append], hP',
        hf⟩
    · refine ⟨xs, a, [], s', rfl, foldlM_ok_induct hs' hP hstep, ?_⟩
      rw [foldlM_cons] at hl
      rcases bind_eq_error.mp hl with hf | ⟨_, -, hn⟩
      · exact hf
      · cases hn

private theorem foldlM_total_from (xs seen : List α)
    (hstep : ∀ {seen' s a rest}, seen ++ xs = seen' ++ a :: rest → P seen' s →
      ∃ s', step s a = .ok s' ∧ P (seen' ++ [a]) s') (hP : P seen s) :
    ∃ s', xs.foldlM step s = .ok s' ∧ P (seen ++ xs) s' := by
  induction xs generalizing seen s with
  | nil => exact ⟨s, rfl, by simpa using hP⟩
  | cons a xs ih =>
    obtain ⟨s₁, hs, hP₁⟩ := hstep rfl hP
    obtain ⟨s', hr, hP'⟩ := ih (seen ++ [a]) (fun h => hstep (by simpa using h)) hP₁
    exact ⟨s', by rw [foldlM_cons, hs, ok_bind, hr], by simpa using hP'⟩

theorem foldlM_total
    (hP : P [] s) (hstep : ∀ {seen s a rest}, xs = seen ++ a :: rest → P seen s →
      ∃ s', step s a = .ok s' ∧ P (seen ++ [a]) s') :
    ∃ s', xs.foldlM step s = .ok s' ∧ P xs s' := foldlM_total_from xs [] hstep hP

variable {check : α → Except ε Unit}

theorem forM_ok
    (h : ∀ a ∈ xs, check a = .ok ()) : xs.forM check = .ok () := by
  induction xs with
  | nil => rfl
  | cons a rest ih =>
    show (check a >>= fun _ => rest.forM check) = .ok ()
    rw [h a mem_cons_self, ih fun b hb => h b (mem_cons_of_mem a hb)]
    rfl

theorem of_mapError_ok {ε' : Type} {f : ε → ε'}
    (h : x.mapError f = .ok a) : x = .ok a := by
  cases x with
  | error error => cases h
  | ok b =>
    cases h
    rfl

theorem of_forM_ok (h : xs.forM check = .ok ()) (ha : a ∈ xs) : check a = .ok () := by
  induction xs with
  | nil => cases ha
  | cons b rest ih =>
    obtain ⟨_, hb, hr⟩ := bind_eq_ok.mp h
    rcases mem_cons.mp ha with rfl | ha
    · exact hb
    · exact ih hr ha

end Result
