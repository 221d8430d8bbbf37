import Mathlib.Tactic

/-! Machines whose steps may fail: the states that successful steps reach, the outputs
of a run, and resuming from a saved state. -/
namespace Machine

variable {σ ι κ ε ο : Type} (step : σ → ι → σ × Except ε ο)

inductive Reachable (start : σ) : σ → Prop
  | start : Reachable start start
  | step {s s' : σ} {input : ι} {output : ο} (h : Reachable start s)
      (hstep : step s input = (s', .ok output)) : Reachable start s'

/-- The results of a run. A failed step may have moved the state. -/
def outputs : σ → List ι → List (Except ε ο)
  | _, [] => []
  | s, input :: rest => (step s input).2 :: outputs (step s input).1 rest

/-- A fresh machine takes over at a saved state: loading succeeds, saves the same again
and answers every later run alike. -/
def Resumes (save : σ → κ) (load : σ → κ → Except ε σ) (fresh state : σ) : Prop :=
  ∃ restored, load fresh (save state) = .ok restored ∧ save restored = save state ∧
    ∀ later, outputs step restored later = outputs step state later

variable {step}

theorem Reachable.invariant {start s : σ} {P : σ → Prop} (h : Reachable step start s)
    (hstart : P start) (hstep : ∀ {s s' i o}, P s → step s i = (s', .ok o) → P s') : P s := by
  induction h with
  | start => exact hstart
  | step _ hs ih => exact hstep ih hs

theorem Reachable.step_of_ok {start s : σ} (h : Reachable step start s) (i : ι)
    (hok : (step s i).2.toBool = true) : Reachable step start (step s i).1 := by
  rcases ho : (step s i).2 with error | o
  · rw [ho] at hok
    cases hok
  · exact h.step (Prod.ext rfl ho)

theorem not_resumes {save : σ → κ} {load : σ → κ → Except ε σ} {fresh s : σ}
    (h : (load fresh (save s)).toBool = false) : ¬ Resumes step save load fresh s := by
  rintro ⟨restored, hl, -⟩
  rw [hl] at h
  cases h

theorem outputs_eq_of_bisimulation {R : σ → σ → Prop}
    (hR : ∀ {s t : σ} (i : ι), R s t → (step s i).2 = (step t i).2 ∧ R (step s i).1 (step t i).1)
    {s t : σ} (h : R s t) (later : List ι) : outputs step s later = outputs step t later := by
  induction later generalizing s t with
  | nil => rfl
  | cons i rest ih =>
    obtain ⟨ho, hn⟩ := hR i h
    rw [outputs, outputs, ho, ih hn]

section Embedding

/-- One machine inside another: the outer one keeps further data that never changes. -/
structure Embeds {τ : Type} (step : σ → ι → σ × Except ε ο) (save : σ → κ)
    (load : σ → κ → Except ε σ) (step' : τ → ι → τ × Except ε ο) (save' : τ → κ)
    (load' : τ → κ → Except ε τ) (e : σ → τ) : Prop where
  step : ∀ s input, step' (e s) input = (e (step s input).1, (step s input).2)
  save : ∀ s, save' (e s) = save s
  load : ∀ s saved, load' (e s) saved = (load s saved).map e

variable {τ : Type} {save : σ → κ} {load : σ → κ → Except ε σ} {step' : τ → ι → τ × Except ε ο}
  {save' : τ → κ} {load' : τ → κ → Except ε τ} {e : σ → τ}

theorem Embeds.outputs (h : Embeds step save load step' save' load' e) (s : σ) (later : List ι) :
    outputs step' (e s) later = outputs step s later := by
  induction later generalizing s with
  | nil => rfl
  | cons i rest ih => rw [Machine.outputs, Machine.outputs, h.step, ih]

theorem Embeds.reachable (h : Embeds step save load step' save' load' e) {start : σ} {t : τ}
    (ht : Reachable step' (e start) t) : ∃ s, t = e s ∧ Reachable step start s := by
  induction ht with
  | start => exact ⟨start, rfl, .start⟩
  | step _ hstep ih =>
    obtain ⟨s, rfl, hs⟩ := ih
    rw [h.step, Prod.mk.injEq] at hstep
    exact ⟨_, hstep.1.symm, hs.step (Prod.ext rfl hstep.2)⟩

theorem Embeds.resumes_iff (h : Embeds step save load step' save' load' e) (fresh s : σ) :
    Resumes step' save' load' (e fresh) (e s) ↔ Resumes step save load fresh s := by
  constructor
  · rintro ⟨restored, hl, hs, hlater⟩
    rw [h.save, h.load] at hl
    rcases hr : load fresh (save s) with error | r
    · rw [hr] at hl
      cases hl
    · rw [hr] at hl
      cases hl
      rw [h.save, h.save] at hs
      refine ⟨r, hr, hs, fun later => ?_⟩
      rw [← h.outputs, ← h.outputs]
      exact hlater later
  · rintro ⟨r, hl, hs, hlater⟩
    refine ⟨e r, ?_, ?_, fun later => ?_⟩
    · rw [h.save, h.load, hl]
      rfl
    · rw [h.save, h.save, hs]
    · rw [h.outputs, h.outputs, hlater]

end Embedding
end Machine
