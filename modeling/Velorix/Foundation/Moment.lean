import Velorix.Foundation.Pool

/-! Moments in the course of a program: the states of a run between its begin and its end. -/

theorem Trace.exists_first {σ α : Type*} {step : σ → α → σ → Prop} {start s : σ} {log : List α}
    {Q : σ → Prop} (h : Trace step start log s) (hend : Q s) :
    Q start ∨ ∃ earlier e later before after, log = earlier ++ e :: later ∧
      Trace step start earlier before ∧ step before e after ∧ Trace step after later s ∧
      ¬Q before ∧ Q after := by
  induction h with
  | nil => exact .inl hend
  | snoc htrace hs ih =>
    rename_i log before after e
    by_cases hb : Q before
    · rcases ih hb with hstart | ⟨earlier, e', later, before', after', rfl, h₁, h₂, h₃, h₄⟩
      · exact .inl hstart
      · exact .inr ⟨earlier, e', later ++ [e], before', after', by simp, h₁, h₂,
          h₃.snoc hs, h₄⟩
    · exact .inr ⟨log, e, [], before, after, rfl, htrace, hs, .nil, hb, hend⟩

namespace Pool

variable {Call Op : Type} {Reply : Op → Type} {Out Move σ : Type}
  {sys : System Call Op Reply Out Move σ} {pool next : Pool Call Op Reply Out σ}
  {log : List (PoolEvent Call Op Reply Out Move)} {start : σ} {id : ℕ} {call : Call} {began : σ}
  {rest : Program Op Reply Out}

/-- At some moment since the program began, the state satisfied `P`. -/
def During (sys : System Call Op Reply Out Move σ) (start : σ)
    (log : List (PoolEvent Call Op Reply Out Move)) (pool : Pool Call Op Reply Out σ) (id : ℕ)
    (P : σ → Prop) : Prop :=
  ∃ earlier later moment, log = earlier ++ later ∧ Trace (Step sys) (idle start) earlier moment ∧
    Trace (Step sys) moment later pool ∧ (∀ call, .began id call ∉ later) ∧
    (moment.tasks id).isSome ∧ P moment.shared

theorem Step.under_way {e : PoolEvent Call Op Reply Out Move} (h : Step sys pool e next)
    (hbegan : ∀ call, e ≠ .began id call) (ht : next.tasks id = some ⟨call, began, rest⟩) :
    ∃ rest', pool.tasks id = some ⟨call, began, rest'⟩ := by
  cases h with
  | began hf ha =>
    rw [tasks_setTask] at ht
    split_ifs at ht with hid
    · exact absurd (by rw [hid]) (hbegan _)
    · exact ⟨rest, ht⟩
  | called hc hcall =>
    rw [tasks_setTask] at ht
    split_ifs at ht with hid
    · cases ht
      rw [hid]
      exact ⟨_, hc⟩
    · exact ⟨rest, ht⟩
  | returned _ | crashed =>
    rw [tasks_setTask] at ht
    split_ifs at ht
    exact ⟨rest, ht⟩
  | moved _ => exact ⟨rest, ht⟩

theorem under_way_of_trace (htrace : Trace (Step sys) pool log next)
    (hbegan : ∀ call, .began id call ∉ log) (ht : next.tasks id = some ⟨call, began, rest⟩) :
    ∃ rest', pool.tasks id = some ⟨call, began, rest'⟩ := by
  induction htrace generalizing rest with
  | nil => exact ⟨rest, ht⟩
  | snoc _ hs ih =>
    obtain ⟨rest', hb⟩ := hs.under_way
      (fun call heq => hbegan call (by simp [heq])) ht
    exact ih (fun call hmem => hbegan call (List.mem_append_left _ hmem)) hb

theorem exists_began (htrace : Trace (Step sys) (idle start) log pool)
    (ht : pool.tasks id = some ⟨call, began, rest⟩) :
    ∃ earlier later before after, log = earlier ++ .began id call :: later ∧
      Trace (Step sys) (idle start) earlier before ∧ before.shared = began ∧
      Step sys before (.began id call) after ∧ Trace (Step sys) after later pool ∧
      ∀ call, .began id call ∉ later := by
  induction htrace generalizing rest with
  | nil => cases ht
  | snoc htrace hs ih =>
    rename_i log before after e
    by_cases he : ∃ call, e = .began id call
    · obtain ⟨call', rfl⟩ := he
      obtain ⟨-, hbegan⟩ := hs.began_task
      rw [ht] at hbegan
      cases hbegan
      exact ⟨log, [], before, after, rfl, htrace, rfl, hs, .nil, nofun⟩
    · push Not at he
      obtain ⟨rest', hb⟩ := hs.under_way he ht
      obtain ⟨earlier, later, first, second, rfl, h₁, h₂, h₃, h₄, hn⟩ := ih hb
      refine ⟨earlier, later ++ [e], first, second, by simp, h₁, h₂, h₃, h₄.snoc hs, ?_⟩
      intro call' hmem
      rcases List.mem_append.mp hmem with hmem | hmem
      · exact hn call' hmem
      · exact he call' (List.mem_singleton.mp hmem).symm

theorem during_of_reached {P Q : σ → Prop} (htrace : Trace (Step sys) (idle start) log pool)
    (ht : pool.tasks id = some ⟨call, began, rest⟩) (hend : Q pool.shared)
    (hbegan : Q began → P began)
    (hs : ∀ {log before e after}, Trace (Step sys) (idle start) log before →
      Step sys before e after → ¬Q before.shared → Q after.shared → P after.shared) :
    During sys start log pool id P := by
  obtain ⟨earlier, later, first, second, rfl, he, rfl, hbegin, hl, hn⟩ :=
    exists_began htrace ht
  obtain ⟨hshared, hu⟩ := hbegin.began_task
  have hsecond : Trace (Step sys) (idle start) (earlier ++ [.began id call]) second :=
    he.snoc hbegin
  rcases hl.exists_first (Q := fun pool => Q pool.shared) hend with
    hf | ⟨l₁, e, l₂, before, after, rfl, h₁, hm, h₂, hb, ha⟩
  · rw [hshared] at hf
    refine ⟨_, later, second, by simp, hsecond, hl, hn, by rw [hu]; rfl, ?_⟩
    rw [hshared]
    exact hbegan hf
  · have hr := hsecond.append h₁
    have hn₂ : ∀ call, .began id call ∉ l₂ := fun call hmem => hn call (by simp [hmem])
    obtain ⟨rest', ha'⟩ := under_way_of_trace h₂ hn₂ ht
    exact ⟨_, l₂, after, by simp, hr.snoc hm, h₂, hn₂, by rw [ha']; rfl,
      hs hr hm hb ha⟩

end Pool
