import Mathlib.Data.List.Basic

/-! Runs of a labelled transition relation, with the labels in the order they occurred. -/

/-- The log of a run from `start`, and the state it ends in. -/
inductive Trace {σ α : Type*} (step : σ → α → σ → Prop) (start : σ) : List α → σ → Prop
  | nil : Trace step start [] start
  | snoc {log : List α} {s s' : σ} {a : α} (h : Trace step start log s) (hstep : step s a s') :
      Trace step start (log ++ [a]) s'

namespace Trace

open List

variable {σ α : Type*} {step : σ → α → σ → Prop} {start s : σ} {log : List α}

theorem append {s' : σ} {later : List α} (h : Trace step start log s)
    (hlater : Trace step s later s') : Trace step start (log ++ later) s' := by
  induction hlater with
  | nil =>
    rw [append_nil]
    exact h
  | snoc _ hstep ih =>
    rw [← append_assoc]
    exact ih.snoc hstep

theorem weaken {step' : σ → α → σ → Prop} (h : Trace step start log s)
    (hstep : ∀ {s e next}, step s e next → step' s e next) : Trace step' start log s := by
  induction h with
  | nil => exact .nil
  | snoc _ hl ih => exact ih.snoc (hstep hl)

theorem strengthen {P : σ → Prop} (h : Trace step start log s) (he : P s)
    (hb : ∀ {s a s'}, step s a s' → P s' → P s) :
    Trace (fun s a s' => step s a s' ∧ P s') start log s := by
  induction h with
  | nil => exact .nil
  | snoc _ hl ih => exact (ih (hb hl he)).snoc ⟨hl, he⟩

theorem invariant {P : List α → σ → Prop} (h : Trace step start log s) (hstart : P [] start)
    (hstep : ∀ {log s a s'}, P log s → step s a s' → P (log ++ [a]) s') : P log s := by
  induction h with
  | nil => exact hstart
  | snoc _ hs ih => exact hstep ih hs

theorem split {earlier later : List α} {a : α} (h : Trace step start (earlier ++ a :: later) s) :
    ∃ s₁ s₂, Trace step start earlier s₁ ∧ step s₁ a s₂ ∧ Trace step s₂ later s := by
  generalize hlog : earlier ++ a :: later = log at h
  induction h generalizing later with
  | nil => simp at hlog
  | snoc ht hstep ih =>
    rcases eq_nil_or_concat later with rfl | ⟨later', last, rfl⟩
    · obtain ⟨rfl, hl⟩ := append_inj' hlog rfl
      cases hl
      exact ⟨_, _, ht, hstep, .nil⟩
    · rw [concat_eq_append] at hlog ⊢
      obtain ⟨hlog', hl⟩ :=
        append_inj' ((append_assoc earlier (a :: later') [last]).trans hlog) rfl
      cases hl
      obtain ⟨s₁, s₂, he, ha, hlater⟩ := ih hlog'
      exact ⟨s₁, s₂, he, ha, hlater.snoc hstep⟩

end Trace
