import Velorix.Foundation.Program
import Velorix.Foundation.Result

/-! Programs that may fail between their calls. What is said about them is said about the values
they return: a program that fails has promised nothing. -/

/-- A program that returns a value or fails. -/
abbrev FallibleProgram (Op : Type) (Reply : Op → Type) (ε α : Type) :=
  ExceptT ε (Program Op Reply) α

namespace FallibleProgram

variable {Op : Type} {Reply : Op → Type} {ε α β : Type} {allowed : Op → Prop}

def ask (op : Op) : FallibleProgram Op Reply ε (Reply op) := ExceptT.lift (Program.ask op)

def fromExcept (result : Except ε α) : FallibleProgram Op Reply ε α := ExceptT.mk (pure result)

def forEach (f : α → FallibleProgram Op Reply ε β) : List α → FallibleProgram Op Reply ε (List β)
  | [] => pure []
  | a :: as => do
    let b ← f a
    let bs ← forEach f as
    return b :: bs

/-- The outcome of a program whose failure is not passed on. -/
def attempt {ε' : Type} (p : FallibleProgram Op Reply ε α) :
    FallibleProgram Op Reply ε' (Except ε α) :=
  ExceptT.lift (ExceptT.run p)

def Only (allowed : Op → Prop) (p : FallibleProgram Op Reply ε α) : Prop :=
  Program.Only allowed (ExceptT.run p)

theorem only_pure (a : α) : Only allowed (pure a : FallibleProgram Op Reply ε α) := trivial

theorem only_throw (error : ε) : Only allowed (throw error : FallibleProgram Op Reply ε α) :=
  trivial

theorem only_fromExcept (result : Except ε α) :
    Only allowed (fromExcept result : FallibleProgram Op Reply ε α) := trivial

variable {op : Op}

theorem only_ask (h : allowed op) :
    Only allowed (ask op : FallibleProgram Op Reply ε (Reply op)) := ⟨h, fun _ => trivial⟩

variable {p : FallibleProgram Op Reply ε α} {f : α → FallibleProgram Op Reply ε β}

theorem Only.bind
    (h : Only allowed p) (hf : ∀ a, Only allowed (f a)) : Only allowed (p >>= f) := by
  refine Program.Only.bind h ?_
  rintro (error | a)
  · trivial
  · exact hf a

theorem only_call {f : Reply op → FallibleProgram Op Reply ε α} (h : allowed op)
    (hf : ∀ reply, Only allowed (f reply)) : Only allowed (ask op >>= f) := (only_ask h).bind hf

theorem only_forEach (h : ∀ a, Only allowed (f a))
    (as : List α) : Only allowed (forEach f as) := by
  induction as with
  | nil => exact only_pure []
  | cons a as ih => exact (h a).bind fun b => ih.bind fun bs => only_pure _

/-- Whatever its calls answer, the program returns only such values, if it does not fail. -/
def Yields (post : α → Prop) (p : FallibleProgram Op Reply ε α) : Prop :=
  Program.Yields (fun result => ∀ a, result = .ok a → post a) (ExceptT.run p)

theorem yields_true (p : FallibleProgram Op Reply ε α) : Yields (fun _ => True) p :=
  Program.yields_of_forall (fun _ _ _ => trivial) _

theorem Yields.mono {post post' : α → Prop} (h : Yields post p)
    (hp : ∀ a, post a → post' a) : Yields post' p :=
  Program.Yields.mono h fun _ hr a ha => hp a (hr a ha)

theorem yields_fromExcept {post : α → Prop} {result : Except ε α}
    (h : ∀ a, result = .ok a → post a) :
    Yields post (fromExcept result : FallibleProgram Op Reply ε α) := h

theorem Yields.bind {post : α → Prop} {post' : β → Prop} (h : Yields post p)
    (hf : ∀ a, post a → Yields post' (f a)) : Yields post' (p >>= f) := by
  refine Program.Yields.bind h ?_
  rintro (error | a) hr
  · exact fun b hb => nomatch hb
  · exact hf a (hr a rfl)

end FallibleProgram

namespace Setting

open FallibleProgram

variable {Op : Type} {Reply : Op → Type} {ε α β σ : Type} {c : Setting Op Reply σ}

/-- Whatever grows between its calls, the program keeps the invariant, and what it returns
satisfies `post`. -/
def Returns (setting : Setting Op Reply σ) (post : α → σ → Prop)
    (p : FallibleProgram Op Reply ε α) (s : σ) : Prop :=
  setting.Safe (fun result s' => ∀ a, result = .ok a → post a s') (ExceptT.run p) s

variable {p : FallibleProgram Op Reply ε α} {s : σ}

theorem Returns.weaken {post post' : α → σ → Prop}
    (h : c.Returns post p s) (hp : ∀ a s', c.Grows s s' → c.Inv s' → post a s' → post' a s') :
    c.Returns post' p s :=
  Safe.weaken h fun _ s' hg hi hr a ha => hp a s' hg hi (hr a ha)

variable {post : α → σ → Prop}

theorem returns_pure {a : α} (h : ∀ s', c.Grows s s' → c.Inv s' → post a s') :
    c.Returns post (pure a : FallibleProgram Op Reply ε α) s := by
  intro s' hg hi a' ha
  cases ha
  exact h s' hg hi

theorem returns_throw {error : ε} :
    c.Returns post (throw error : FallibleProgram Op Reply ε α) s := by
  intro s' _ _ a ha
  cases ha

theorem returns_fromExcept {result : Except ε α}
    (h : ∀ a, result = .ok a → ∀ s', c.Grows s s' → c.Inv s' → post a s') :
    c.Returns post (fromExcept result : FallibleProgram Op Reply ε α) s :=
  fun s' hg hi a ha => h a ha s' hg hi

variable {f : α → FallibleProgram Op Reply ε β}

theorem Returns.bind {post : β → σ → Prop} (hi : c.Inv s)
    (h : c.Returns (fun a => c.Returns post (f a)) p s) : c.Returns post (p >>= f) s := by
  refine Safe.bind hi (Safe.weaken h ?_)
  rintro (error | a) s' - - hr
  · intro later _ _ b hb
    cases hb
  · exact hr a rfl

theorem returns_call {op : Op} {f : Reply op → FallibleProgram Op Reply ε α}
    (h : ∀ s', c.Grows s s' → c.Inv s' → ∀ reply s'', c.calls s' op reply s'' →
      c.Inv s'' ∧ c.Grows s' s'' ∧ c.Returns post (f reply) s'') :
    c.Returns post (ask op >>= f) s := h

theorem returns_forEach {P : α → β → σ → Prop}
    {as : List α} (hi : c.Inv s) (hs : ∀ {a b s s'}, P a b s → c.Grows s s' → P a b s')
    (h : ∀ a ∈ as, ∀ s', c.Grows s s' → c.Inv s' → c.Returns (fun b s'' => P a b s'') (f a) s') :
    c.Returns (fun bs s' => List.Forall₂ (P · · s') as bs) (forEach f as) s := by
  induction as generalizing s with
  | nil => exact returns_pure fun _ _ _ => .nil
  | cons a as ih =>
    refine Returns.bind hi ((h a List.mem_cons_self s (c.refl s) hi).weaken ?_)
    intro b s₁ hg₁ hi₁ hb
    refine Returns.bind hi₁ ((ih hi₁ ?_).weaken ?_)
    · intro a' ha' s' hg
      exact h a' (List.mem_cons_of_mem a ha') s' (c.trans hg₁ hg)
    · intro bs s₂ hg₂ _ hbs
      refine returns_pure fun s₃ hg₃ _ => .cons ?_ ?_
      · exact hs hb (c.trans hg₂ hg₃)
      · exact hbs.imp fun _ _ hp => hs hp hg₃

theorem Returns.of_yields {post : α → σ → Prop} {fact : α → Prop} (h : c.Returns post p s)
    (hp : Yields fact p) : c.Returns (fun a s' => post a s' ∧ fact a) p s :=
  (Safe.of_yields h hp).weaken fun _ _ _ _ hr a ha => ⟨hr.1 a ha, hr.2 a ha⟩

theorem returns_of_only {allowed : Op → Prop}
    (h : Only allowed p)
    (hk : ∀ {s op reply s'}, allowed op → c.Inv s → c.calls s op reply s' →
      c.Inv s' ∧ c.Grows s s') : c.Returns (fun _ _ => True) p s :=
  (safe_of_only h hk).weaken fun _ _ _ _ _ _ _ => trivial

end Setting
