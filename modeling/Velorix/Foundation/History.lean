import Mathlib.Data.List.Induction
import Velorix.Foundation.Fallible
import Velorix.Foundation.Pool

/-! What a program does on its own: the calls that it made and their replies, whatever the others
do in between. -/

abbrev CallLog (Op : Type) (Reply : Op → Type) := List (Σ op : Op, Reply op)

namespace Program

variable {Op : Type} {Reply : Op → Type} {α β : Type} {credible : (op : Op) → Reply op → Prop}
  {guard : CallLog Op Reply → Op → Prop} {log : CallLog Op Reply}

/-- The calls lead from one program to the other. -/
inductive Path : Program Op Reply α → CallLog Op Reply → Program Op Reply α → Prop
  | nil (p) : Path p [] p
  | cons {op next reply calls q} (h : Path (next reply) calls q) :
      Path (call op next) (⟨op, reply⟩ :: calls) q

/-- Whatever credible replies it gets, every call of the program is justified by those before,
and what it returns satisfies `post`. -/
def Tracks (credible : (op : Op) → Reply op → Prop) (guard : CallLog Op Reply → Op → Prop)
    (post : α → CallLog Op Reply → Prop) : Program Op Reply α → CallLog Op Reply → Prop
  | done a, log => post a log
  | call op next, log => guard log op ∧ ∀ reply, credible op reply →
    (next reply).Tracks credible guard post (log ++ [⟨op, reply⟩])

variable {p : Program Op Reply α}

theorem Tracks.weaken {post post' : α → CallLog Op Reply → Prop}
    (h : p.Tracks credible guard post log) (hp : ∀ a log', post a log' → post' a log') :
    p.Tracks credible guard post' log := by
  induction p generalizing log with
  | done a => exact hp a log h
  | call op next ih => exact ⟨h.1, fun reply hr => ih reply (h.2 reply hr)⟩

theorem Tracks.bind {post : β → CallLog Op Reply → Prop} {f : α → Program Op Reply β}
    (h : p.Tracks credible guard (fun a => (f a).Tracks credible guard post) log) :
    (p >>= f).Tracks credible guard post log := by
  induction p generalizing log with
  | done a => exact h
  | call op next ih => exact ⟨h.1, fun reply hr => ih reply (h.2 reply hr)⟩

theorem tracks_of_only {allowed : Op → Prop} (h : p.Only allowed)
    (hg : ∀ log op, allowed op → guard log op) :
    p.Tracks credible guard (fun _ log' =>
      ∃ cs, log' = log ++ cs ∧ ∀ made ∈ cs, allowed made.1) log := by
  induction p generalizing log with
  | done a => exact ⟨[], (List.append_nil log).symm, nofun⟩
  | call op next ih =>
    refine ⟨hg log op h.1, ?_⟩
    intro reply hr
    refine (ih reply (h.2 reply)).weaken ?_
    rintro a log' ⟨cs, rfl, hcalls⟩
    refine ⟨⟨op, reply⟩ :: cs, by simp, ?_⟩
    exact List.forall_mem_cons.mpr ⟨h.1, hcalls⟩

def next? : Program Op Reply α → Option Op
  | done _ => none
  | call op _ => some op

theorem next?_eq_some {op : Op} : p.next? = some op ↔ ∃ next, p = call op next := by
  cases p with
  | done a => simp [next?]
  | call op' rest =>
    simp only [next?, Option.some.injEq, call.injEq]
    constructor
    · rintro rfl
      exact ⟨rest, rfl, HEq.rfl⟩
    · rintro ⟨next, rfl, -⟩
      rfl

theorem Tracks.path {post : α → CallLog Op Reply → Prop} (h : p.Tracks credible guard post log) :
    p.Tracks credible guard (fun a log' => post a log' ∧
      ∃ cs, log' = log ++ cs ∧ Path p cs (done a)) log := by
  induction p generalizing log with
  | done a => exact ⟨h, [], (List.append_nil log).symm, .nil _⟩
  | call op next ih =>
    refine ⟨h.1, ?_⟩
    intro reply hr
    refine (ih reply (h.2 reply hr)).weaken ?_
    rintro a log' ⟨hp, cs, rfl, hpath⟩
    exact ⟨hp, ⟨op, reply⟩ :: cs, by simp, .cons hpath⟩

end Program

namespace FallibleProgram

variable {Op : Type} {Reply : Op → Type} {ε α β : Type} {credible : (op : Op) → Reply op → Prop}
  {guard : CallLog Op Reply → Op → Prop} {log : CallLog Op Reply}

/-- Every call of the program is justified, and what it returns satisfies `post`. -/
def Tracks (credible : (op : Op) → Reply op → Prop) (guard : CallLog Op Reply → Op → Prop)
    (post : α → CallLog Op Reply → Prop) (p : FallibleProgram Op Reply ε α)
    (log : CallLog Op Reply) : Prop :=
  Program.Tracks credible guard (fun result log' => ∀ a, result = .ok a → post a log')
    (ExceptT.run p) log

theorem Tracks.weaken {post post' : α → CallLog Op Reply → Prop}
    {p : FallibleProgram Op Reply ε α} (h : Tracks credible guard post p log)
    (hp : ∀ a log', post a log' → post' a log') : Tracks credible guard post' p log :=
  Program.Tracks.weaken h fun _ log' hr a ha => hp a log' (hr a ha)

variable {post : α → CallLog Op Reply → Prop}

theorem tracks_pure {a : α} (h : post a log) :
    Tracks credible guard post (pure a : FallibleProgram Op Reply ε α) log := by
  intro a' ha
  cases ha
  exact h

theorem tracks_throw {error : ε} :
    Tracks credible guard post (throw error : FallibleProgram Op Reply ε α) log := by
  intro a ha
  cases ha

theorem tracks_fromExcept {result : Except ε α} (h : ∀ a, result = .ok a → post a log) :
    Tracks credible guard post (fromExcept result : FallibleProgram Op Reply ε α) log := h

theorem Tracks.bind {post : β → CallLog Op Reply → Prop} {p : FallibleProgram Op Reply ε α}
    {f : α → FallibleProgram Op Reply ε β}
    (h : Tracks credible guard (fun a => Tracks credible guard post (f a)) p log) :
    Tracks credible guard post (p >>= f) log := by
  refine Program.Tracks.bind (Program.Tracks.weaken h ?_)
  rintro (error | a) log' hr
  · intro b hb
    cases hb
  · exact hr a rfl

theorem tracks_call {op : Op} {post : α → CallLog Op Reply → Prop}
    {f : Reply op → FallibleProgram Op Reply ε α} (hg : guard log op)
    (h : ∀ reply, credible op reply → Tracks credible guard post (f reply) (log ++ [⟨op, reply⟩])) :
    Tracks credible guard post (ask op >>= f) log := ⟨hg, h⟩

theorem tracks_attempt {ε' : Type} {post : Except ε α → CallLog Op Reply → Prop}
    {p : FallibleProgram Op Reply ε α}
    (h : Program.Tracks credible guard post (ExceptT.run p) log) :
    Tracks credible guard post (attempt p : FallibleProgram Op Reply ε' _) log := by
  refine Program.Tracks.bind (Program.Tracks.weaken h ?_)
  intro result log' hr b hb
  cases hb
  exact hr

theorem tracks_of_only {allowed : Op → Prop} {p : FallibleProgram Op Reply ε α}
    (h : Only allowed p) (hg : ∀ log op, allowed op → guard log op) :
    Tracks credible guard (fun _ log' =>
      ∃ cs, log' = log ++ cs ∧ ∀ made ∈ cs, allowed made.1) p log :=
  (Program.tracks_of_only h hg).weaken fun _ _ hp _ _ => hp

theorem tracks_forEach {P : CallLog Op Reply → Prop} {R : α → β → Prop}
    {f : α → FallibleProgram Op Reply ε β}
    (h : ∀ a log, P log → Tracks credible guard (fun b log' => P log' ∧ R a b) (f a) log)
    (as : List α) {log : CallLog Op Reply} (hlog : P log) :
    Tracks credible guard (fun bs log' => P log' ∧ List.Forall₂ R as bs) (forEach f as) log := by
  induction as generalizing log with
  | nil => exact tracks_pure ⟨hlog, .nil⟩
  | cons a as ih =>
    refine Tracks.bind ((h a log hlog).weaken ?_)
    rintro b log₁ ⟨hlog₁, hb⟩
    refine Tracks.bind ((ih hlog₁).weaken ?_)
    rintro bs log₂ ⟨hlog₂, hbs⟩
    exact tracks_pure ⟨hlog₂, .cons hb hbs⟩

end FallibleProgram

namespace Pool

variable {Call Op : Type} {Reply : Op → Type} {Out Move σ : Type}
  {sys : System Call Op Reply Out Move σ} {pool next : Pool Call Op Reply Out σ}
  {e : PoolEvent Call Op Reply Out Move} {log : List (PoolEvent Call Op Reply Out Move)}

def noteEvent (id : ℕ) (calls : CallLog Op Reply) :
    PoolEvent Call Op Reply Out Move → CallLog Op Reply
  | .began id' _ => if id' = id then [] else calls
  | .called id' op reply => if id' = id then calls ++ [⟨op, reply⟩] else calls
  | _ => calls

def ownCalls (id : ℕ) (log : List (PoolEvent Call Op Reply Out Move)) : CallLog Op Reply :=
  log.foldl (noteEvent id) []

theorem ownCalls_snoc (id : ℕ) : ownCalls id (log ++ [e]) = noteEvent id (ownCalls id log) e := by
  simp [ownCalls]

/-- Where a call of the program stands in the run, and that its later calls follow it. -/
theorem exists_called_of_ownCalls {id : ℕ} {before after : CallLog Op Reply}
    {made : Σ op : Op, Reply op} (h : ownCalls id log = before ++ made :: after) :
    ∃ earlier later, log = earlier ++ .called id made.1 made.2 :: later ∧
      ∀ op reply, .called id op reply ∈ later → ⟨op, reply⟩ ∈ after := by
  induction log using List.reverseRecOn generalizing after with
  | nil => simp [ownCalls] at h
  | append_singleton log e ih =>
    -- an event that the program does not note leaves the place of the call
    have hk (hs : ownCalls id log = before ++ made :: after)
        (ho : ∀ op reply, e ≠ .called id op reply) :
        ∃ earlier later, log ++ [e] = earlier ++ .called id made.1 made.2 :: later ∧
          ∀ op reply, .called id op reply ∈ later → ⟨op, reply⟩ ∈ after := by
      obtain ⟨earlier, later, rfl, hl⟩ := ih hs
      refine ⟨earlier, later ++ [e], by simp, ?_⟩
      intro op reply hmem
      rcases List.mem_append.mp hmem with hmem | hmem
      · exact hl op reply hmem
      · exact absurd (List.mem_singleton.mp hmem).symm (ho op reply)
    rw [ownCalls_snoc] at h
    cases e with
    | began id' call =>
      by_cases hid : id' = id
      · simp [noteEvent, hid] at h
      · exact hk (by simpa [noteEvent, hid] using h) nofun
    | called id' op reply =>
      by_cases hid : id' = id
      · subst hid
        rw [noteEvent, if_pos rfl] at h
        rcases List.eq_nil_or_concat after with rfl | ⟨after', last, rfl⟩
        · obtain ⟨hlog, hm⟩ := List.append_inj' h rfl
          cases hm
          exact ⟨log, [], rfl, nofun⟩
        · rw [List.concat_eq_append] at h ⊢
          obtain ⟨hlog, hlast⟩ :=
            List.append_inj' (h.trans (List.append_assoc before (made :: after') [last]).symm) rfl
          cases hlast
          obtain ⟨earlier, later, rfl, hl⟩ := ih hlog
          refine ⟨earlier, later ++ [.called id' op reply], by simp, ?_⟩
          intro op' reply' hmem
          rcases List.mem_append.mp hmem with hmem | hmem
          · exact List.mem_append_left _ (hl op' reply' hmem)
          · cases List.mem_singleton.mp hmem
            simp
      · refine hk (by simpa [noteEvent, hid] using h) ?_
        intro op' reply' heq
        cases heq
        exact hid rfl
    | returned id' call out | crashed id' => exact hk h nofun
    | moved move => exact hk h nofun

theorem exists_accepts {start : σ} (htrace : Trace (Step sys) (idle start) log pool) (id : ℕ)
    (task : Activity Call Op Reply Out σ) (ht : pool.tasks id = some task) :
    ∃ s, sys.accepts s task.call := by
  refine htrace.invariant (P := fun _ pool => ∀ id task, pool.tasks id = some task →
    ∃ s, sys.accepts s task.call) nofun ?_ id task ht
  intro _ pool e next h hs id task ht
  cases hs with
  | began hf ha =>
    rw [tasks_setTask] at ht
    split_ifs at ht
    · cases ht
      exact ⟨_, ha⟩
    · exact h id task ht
  | called hc hcall =>
    rw [tasks_setTask] at ht
    split_ifs at ht
    · cases ht
      have haccepted := h _ _ hc
      exact haccepted
    · exact h id task ht
  | returned _ | crashed =>
    rw [tasks_setTask] at ht
    split_ifs at ht
    exact h id task ht
  | moved _ => exact h id task ht

theorem Driver.exists_called (driver : Driver sys) {id : ℕ} {op : Op}
    (h : (pool.tasks id).bind (·.rest.next?) = some op) :
    ∃ next, Step sys pool (.called id op (driver.answer pool.shared op).1) next := by
  obtain ⟨⟨call, began, rest⟩, ht, hn⟩ := Option.bind_eq_some_iff.mp h
  obtain ⟨next, rfl⟩ := Program.next?_eq_some.mp hn
  exact ⟨_, .called ht (driver.calls pool.shared op)⟩

section Tracked
variable {credible : (op : Op) → Reply op → Prop} {guard : Call → CallLog Op Reply → Op → Prop}
  {post : Call → Out → CallLog Op Reply → Prop}

/-- Every program under way goes on justifying its calls. -/
def Tracked (credible : (op : Op) → Reply op → Prop) (guard : Call → CallLog Op Reply → Op → Prop)
    (post : Call → Out → CallLog Op Reply → Prop)
    (log : List (PoolEvent Call Op Reply Out Move)) (pool : Pool Call Op Reply Out σ) : Prop :=
  ∀ id task, pool.tasks id = some task →
    task.rest.Tracks credible (guard task.call) (post task.call) (ownCalls id log)

theorem Tracked.step (h : Tracked credible guard post log pool)
    (hcalls : ∀ {s op reply s'}, sys.calls s op reply s' → credible op reply)
    (hb : ∀ {s call}, sys.accepts s call →
      (sys.body call).Tracks credible (guard call) (post call) [])
    (hs : Step sys pool e next) : Tracked credible guard post (log ++ [e]) next := by
  intro id task ht
  rw [ownCalls_snoc]
  cases hs with
  | began hf ha =>
    rename_i id' call
    rw [tasks_setTask] at ht
    by_cases hid : id = id'
    · rw [if_pos hid] at ht
      cases ht
      simpa [noteEvent, hid] using hb ha
    · rw [if_neg hid] at ht
      simpa [noteEvent, Ne.symm hid] using h id task ht
  | called hc hcall =>
    rename_i id' call began op rest reply s
    rw [tasks_setTask] at ht
    by_cases hid : id = id'
    · rw [if_pos hid] at ht
      cases ht
      subst hid
      simpa [noteEvent] using (h id _ hc).2 reply (hcalls hcall)
    · rw [if_neg hid] at ht
      simpa [noteEvent, Ne.symm hid] using h id task ht
  | returned _ | crashed =>
    rw [tasks_setTask] at ht
    split_ifs at ht
    exact h id task ht
  | moved _ => exact h id task ht

theorem Tracked.run {start : σ}
    (hcalls : ∀ {s op reply s'}, sys.calls s op reply s' → credible op reply)
    (hb : ∀ {s call}, sys.accepts s call →
      (sys.body call).Tracks credible (guard call) (post call) [])
    (htrace : Trace (Step sys) (idle start) log pool) : Tracked credible guard post log pool :=
  htrace.invariant (P := fun log pool => Tracked credible guard post log pool)
    (fun _ _ ht => nomatch ht) fun hi hs => hi.step hcalls hb hs

theorem Tracked.called (h : Tracked credible guard post log pool) {id : ℕ} {op : Op}
    {reply : Reply op} (hs : Step sys pool (.called id op reply) next) :
    ∃ task, pool.tasks id = some task ∧ guard task.call (ownCalls id log) op := by
  cases hs with
  | called hc hcall => exact ⟨_, hc, (h id _ hc).1⟩

theorem Tracked.returned (h : Tracked credible guard post log pool) {id : ℕ} {call : Call}
    {out : Out} (hs : Step sys pool (.returned id call out) next) :
    post call out (ownCalls id log) := by
  cases hs with
  | returned hc => exact h id _ hc

end Tracked

end Pool
