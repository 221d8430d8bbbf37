import Velorix.Foundation.Fallible

/-! Programs that do not fail, whatever the others do in between. -/

namespace Setting

open FallibleProgram

variable {Op : Type} {Reply : Op → Type} {ε ε' α β σ : Type} {c : Setting Op Reply σ} {s : σ}

/-- The program keeps the invariant and returns a value that satisfies `post`. -/
def Achieves (setting : Setting Op Reply σ) (post : α → σ → Prop)
    (p : FallibleProgram Op Reply ε α) (s : σ) : Prop :=
  setting.Safe (fun result s' => ∃ a, result = .ok a ∧ post a s') (ExceptT.run p) s

variable {p : FallibleProgram Op Reply ε α}

theorem Achieves.weaken {post post' : α → σ → Prop}
    (h : c.Achieves post p s) (hp : ∀ a s', c.Grows s s' → c.Inv s' → post a s' → post' a s') :
    c.Achieves post' p s := by
  refine Safe.weaken h ?_
  rintro _ s' hg hi ⟨a, rfl, ha⟩
  exact ⟨a, rfl, hp a s' hg hi ha⟩

variable {post : α → σ → Prop}

theorem Achieves.returns
    (h : c.Achieves post p s) : c.Returns post p s := by
  refine Safe.weaken h ?_
  rintro _ s' - - ⟨a, rfl, ha⟩ b hb
  cases hb
  exact ha

variable {a : α}

theorem achieves_pure (h : ∀ s', c.Grows s s' → c.Inv s' → post a s') :
    c.Achieves post (pure a : FallibleProgram Op Reply ε α) s :=
  fun s' hg hi => ⟨a, rfl, h s' hg hi⟩

variable {f : α → FallibleProgram Op Reply ε β}

theorem Achieves.bind {post : β → σ → Prop} (hi : c.Inv s)
    (h : c.Achieves (fun a => c.Achieves post (f a)) p s) : c.Achieves post (p >>= f) s := by
  refine Safe.bind hi (Safe.weaken h ?_)
  rintro _ s' - - ⟨a, rfl, ha⟩
  exact ha

theorem achieves_fromExcept {result : Except ε α}
    (hr : result = .ok a) (h : ∀ s', c.Grows s s' → c.Inv s' → post a s') :
    c.Achieves post (fromExcept result : FallibleProgram Op Reply ε α) s :=
  fun s' hg hi => ⟨a, hr, h s' hg hi⟩

theorem achieves_call {op : Op} {f : Reply op → FallibleProgram Op Reply ε α}
    (h : ∀ s', c.Grows s s' → c.Inv s' → ∀ reply s'', c.calls s' op reply s'' →
      c.Inv s'' ∧ c.Grows s' s'' ∧ c.Achieves post (f reply) s'') :
    c.Achieves post (ask op >>= f) s := h

theorem achieves_attempt {post : Except ε α → σ → Prop}
    (hi : c.Inv s) (h : c.Safe post (ExceptT.run p) s)
    (hs : ∀ {a s s'}, post a s → c.Grows s s' → post a s') :
    c.Achieves post (attempt p : FallibleProgram Op Reply ε' _) s := by
  refine Safe.bind hi (Safe.weaken h ?_)
  intro result s' _ _ hr s'' hg _
  exact ⟨result, rfl, hs hr hg⟩

theorem achieves_forEach {P : α → β → σ → Prop}
    {as : List α} (hi : c.Inv s) (hs : ∀ {a b s s'}, P a b s → c.Grows s s' → P a b s')
    (h : ∀ a ∈ as, ∀ s', c.Grows s s' → c.Inv s' → c.Achieves (fun b s'' => P a b s'') (f a) s') :
    c.Achieves (fun bs s' => List.Forall₂ (P · · s') as bs) (forEach f as) s := by
  induction as generalizing s with
  | nil => exact achieves_pure fun _ _ _ => .nil
  | cons a as ih =>
    refine Achieves.bind hi ((h a List.mem_cons_self s (c.refl s) hi).weaken ?_)
    intro b s₁ hg₁ hi₁ hb
    refine Achieves.bind hi₁ ((ih hi₁ ?_).weaken ?_)
    · intro a' ha' s' hg
      exact h a' (List.mem_cons_of_mem a ha') s' (c.trans hg₁ hg)
    · intro bs s₂ hg₂ _ hbs
      refine achieves_pure fun s₃ hg₃ _ => .cons ?_ ?_
      · exact hs hb (c.trans hg₂ hg₃)
      · exact hbs.imp fun _ _ hp => hs hp hg₃

end Setting
