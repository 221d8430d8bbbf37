import Mathlib.Tactic.Common

/-! Programs that call on a shared state, and what such a program guarantees whatever happens
to the state between its calls. -/

/-- A program returns, or makes a call and goes on with the reply. -/
inductive Program (Op : Type) (Reply : Op → Type) (α : Type) : Type
  | done (a : α)
  | call (op : Op) (next : Reply op → Program Op Reply α)

namespace Program

variable {Op : Type} {Reply : Op → Type} {α β σ : Type}

def bind : Program Op Reply α → (α → Program Op Reply β) → Program Op Reply β
  | done a, f => f a
  | call op next, f => call op fun reply => (next reply).bind f

instance : Monad (Program Op Reply) where
  pure := done
  bind := bind

def ask (op : Op) : Program Op Reply (Reply op) := call op done

/-- The steps of a program, once it is known what every call answers. -/
def advance (answer : σ → (op : Op) → Reply op × σ) :
    ℕ → Program Op Reply α → σ → Program Op Reply α × σ
  | 0, p, s => (p, s)
  | _ + 1, done a, s => (done a, s)
  | n + 1, call op next, s => advance answer n (next (answer s op).1) (answer s op).2

/-- The program makes only allowed calls, whatever they answer. -/
def Only (allowed : Op → Prop) : Program Op Reply α → Prop
  | done _ => True
  | call op next => allowed op ∧ ∀ reply, (next reply).Only allowed

variable {allowed : Op → Prop} {p : Program Op Reply α} {f : α → Program Op Reply β}

theorem Only.bind
    (h : p.Only allowed) (hf : ∀ a, (f a).Only allowed) : (p >>= f).Only allowed := by
  induction p with
  | done a => exact hf a
  | call op next ih => exact ⟨h.1, fun reply => ih reply (h.2 reply)⟩

/-- Whatever its calls answer, the program returns only such values. -/
def Yields (post : α → Prop) : Program Op Reply α → Prop
  | done a => post a
  | call _ next => ∀ reply, (next reply).Yields post

variable {post : α → Prop}

theorem yields_of_forall (h : ∀ a, post a) (p : Program Op Reply α) :
    p.Yields post := by
  induction p with
  | done a => exact h a
  | call op next ih => exact ih

theorem Yields.bind {post' : β → Prop} (h : p.Yields post) (hf : ∀ a, post a → (f a).Yields post') :
    (p >>= f).Yields post' := by
  induction p with
  | done a => exact hf a h
  | call op next ih => exact fun reply => ih reply (h reply)

theorem Yields.mono {post' : α → Prop} (h : p.Yields post)
    (hp : ∀ a, post a → post' a) : p.Yields post' := by
  induction p with
  | done a => exact hp a h
  | call op next ih => exact fun reply => ih reply (h reply)

end Program

/-- A call is answered, or it fails before or after it took effect. -/
inductive Unreliable {Op : Type} {Reply : Op → Type} {σ : Type}
    (answer : σ → (op : Op) → Reply op × σ) (fault : (op : Op) → Reply op → Prop) :
    σ → (op : Op) → Reply op → σ → Prop
  | delivered (s : σ) (op : Op) : Unreliable answer fault s op (answer s op).1 (answer s op).2
  | lost {s : σ} {op : Op} {reply : Reply op} (h : fault op reply) :
    Unreliable answer fault s op reply (answer s op).2
  | failed {s : σ} {op : Op} {reply : Reply op} (h : fault op reply) :
    Unreliable answer fault s op reply s

theorem Unreliable.calls_cases {Op : Type} {Reply : Op → Type} {σ : Type}
    {answer : σ → (op : Op) → Reply op × σ} {fault : (op : Op) → Reply op → Prop} {s later : σ}
    {op : Op} {reply : Reply op} (h : Unreliable answer fault s op reply later) :
    (reply = (answer s op).1 ∧ later = (answer s op).2) ∨
      fault op reply ∧ (later = (answer s op).2 ∨ later = s) := by
  cases h with
  | delivered => exact .inl ⟨rfl, rfl⟩
  | lost hf => exact .inr ⟨hf, .inl rfl⟩
  | failed hf => exact .inr ⟨hf, .inr rfl⟩

/-- What calls may do to the shared state, what always holds of the state, and what of it never
goes away. -/
structure Setting (Op : Type) (Reply : Op → Type) (σ : Type) where
  calls : σ → (op : Op) → Reply op → σ → Prop
  Inv : σ → Prop
  Grows : σ → σ → Prop
  refl : ∀ s, Grows s s
  trans : ∀ {a b c}, Grows a b → Grows b c → Grows a c

namespace Setting

open Program

variable {Op : Type} {Reply : Op → Type} {α β σ : Type} {c : Setting Op Reply σ}

/-- Whatever grows between its calls, the program keeps the invariant and returns only what
satisfies `post`. -/
def Safe (setting : Setting Op Reply σ) (post : α → σ → Prop) : Program Op Reply α → σ → Prop
  | done a, s => ∀ s', setting.Grows s s' → setting.Inv s' → post a s'
  | call op next, s => ∀ s', setting.Grows s s' → setting.Inv s' →
    ∀ reply s'', setting.calls s' op reply s'' →
      setting.Inv s'' ∧ setting.Grows s' s'' ∧ setting.Safe post (next reply) s''

variable {p : Program Op Reply α}

variable {post : α → σ → Prop} {s : σ}

theorem Safe.grow {s' : σ}
    (h : c.Safe post p s) (hg : c.Grows s s') : c.Safe post p s' := by
  cases p with
  | done a | call op next =>
    intro later hl hi
    exact h later (c.trans hg hl) hi

theorem safe_done {a : α}
    (h : ∀ s', c.Grows s s' → c.Inv s' → post a s') :
    c.Safe post (pure a : Program Op Reply α) s := h

theorem Safe.weaken {post' : α → σ → Prop} (h : c.Safe post p s)
    (hp : ∀ a s', c.Grows s s' → c.Inv s' → post a s' → post' a s') : c.Safe post' p s := by
  induction p generalizing s with
  | done a =>
    intro s' hg hi
    exact hp a s' hg hi (h s' hg hi)
  | call op next ih =>
    intro s' hg hi reply s'' hc
    obtain ⟨hi', hg', hn⟩ := h s' hg hi reply s'' hc
    refine ⟨hi', hg', ih reply hn ?_⟩
    intro a later hl
    exact hp a later (c.trans hg (c.trans hg' hl))

theorem Safe.bind {post : β → σ → Prop} {f : α → Program Op Reply β} (hi : c.Inv s)
    (h : c.Safe (fun a => c.Safe post (f a)) p s) : c.Safe post (p >>= f) s := by
  induction p generalizing s with
  | done a => exact h s (c.refl s) hi
  | call op next ih =>
    intro s' hg hi' reply s'' hc
    obtain ⟨hi'', hg', hn⟩ := h s' hg hi' reply s'' hc
    exact ⟨hi'', hg', ih reply hi'' hn⟩

theorem safe_of_only {allowed : Op → Prop} (h : p.Only allowed)
    (hk : ∀ {s op reply s'}, allowed op → c.Inv s → c.calls s op reply s' →
      c.Inv s' ∧ c.Grows s s') : c.Safe (fun _ _ => True) p s := by
  induction p generalizing s with
  | done a => exact fun _ _ _ => trivial
  | call op next ih =>
    intro s' _ hi reply s'' hc
    obtain ⟨hi', hg⟩ := hk h.1 hi hc
    exact ⟨hi', hg, ih reply (h.2 reply)⟩

theorem Safe.of_yields {fact : α → Prop}
    (h : c.Safe post p s) (hp : p.Yields fact) : c.Safe (fun a s' => post a s' ∧ fact a) p s := by
  induction p generalizing s with
  | done a => exact fun s' hg hi => ⟨h s' hg hi, hp⟩
  | call op next ih =>
    intro s' hg hi reply s'' hc
    obtain ⟨hi', hg', hn⟩ := h s' hg hi reply s'' hc
    exact ⟨hi', hg', ih reply hn (hp reply)⟩

end Setting
