import Velorix.Foundation.Program
import Velorix.Foundation.Trace

/-! Any number of programs over one shared state. Their calls interleave freely, a program may
stop at any point, and the state may move on its own. -/

/-- What may be started over a shared state, and how that state moves. -/
structure System (Call Op : Type) (Reply : Op → Type) (Out Move σ : Type) where
  body : Call → Program Op Reply Out
  accepts : σ → Call → Prop
  calls : σ → (op : Op) → Reply op → σ → Prop
  moves : σ → Move → σ → Prop

/-- The same system, with a condition on every call that is made. -/
def System.restrict {Call Op : Type} {Reply : Op → Type} {Out Move σ : Type}
    (sys : System Call Op Reply Out Move σ) (condition : σ → Op → σ → Prop) :
    System Call Op Reply Out Move σ :=
  { sys with calls := fun s op reply s' => sys.calls s op reply s' ∧ condition s op s' }

/-- A program under way: what was asked for, in which state, and what is left to do. -/
structure Activity (Call Op : Type) (Reply : Op → Type) (Out σ : Type) where
  call : Call
  began : σ
  rest : Program Op Reply Out

structure Pool (Call Op : Type) (Reply : Op → Type) (Out σ : Type) where
  shared : σ
  tasks : ℕ → Option (Activity Call Op Reply Out σ)

inductive PoolEvent (Call Op : Type) (Reply : Op → Type) (Out Move : Type)
  | began (id : ℕ) (call : Call)
  | called (id : ℕ) (op : Op) (reply : Reply op)
  | returned (id : ℕ) (call : Call) (out : Out)
  | crashed (id : ℕ)
  | moved (move : Move)

namespace Pool

variable {Call Op : Type} {Reply : Op → Type} {Out Move σ : Type}

def idle (s : σ) : Pool Call Op Reply Out σ := ⟨s, fun _ => none⟩

def setTask (pool : Pool Call Op Reply Out σ) (id : ℕ) (s : σ)
    (task : Option (Activity Call Op Reply Out σ)) : Pool Call Op Reply Out σ :=
  ⟨s, Function.update pool.tasks id task⟩

inductive Step (sys : System Call Op Reply Out Move σ) :
    Pool Call Op Reply Out σ → PoolEvent Call Op Reply Out Move → Pool Call Op Reply Out σ → Prop
  | began {pool id call} (hfree : pool.tasks id = none) (h : sys.accepts pool.shared call) :
      Step sys pool (.began id call)
        (pool.setTask id pool.shared (some ⟨call, pool.shared, sys.body call⟩))
  | called {pool id call began op next reply s} (htask : pool.tasks id =
        some ⟨call, began, .call op next⟩)
      (h : sys.calls pool.shared op reply s) :
      Step sys pool (.called id op reply)
        (pool.setTask id s (some ⟨call, began, next reply⟩))
  | returned {pool id call began out} (htask : pool.tasks id = some ⟨call, began, .done out⟩) :
      Step sys pool (.returned id call out) (pool.setTask id pool.shared none)
  | crashed {pool id} : Step sys pool (.crashed id) (pool.setTask id pool.shared none)
  | moved {pool move s} (h : sys.moves pool.shared move s) :
      Step sys pool (.moved move) { pool with shared := s }

variable {sys : System Call Op Reply Out Move σ} {pool next : Pool Call Op Reply Out σ}
  {e : PoolEvent Call Op Reply Out Move} {log : List (PoolEvent Call Op Reply Out Move)}

@[simp]
theorem tasks_setTask (id id' : ℕ) (s : σ) (task : Option (Activity Call Op Reply Out σ)) :
    (pool.setTask id s task).tasks id' = if id' = id then task else pool.tasks id' := by
  simp [setTask, Function.update_apply]

@[simp] theorem shared_setTask (id : ℕ) (s : σ) (task : Option (Activity Call Op Reply Out σ)) :
    (pool.setTask id s task).shared = s := rfl

@[simp] theorem setTask_setTask (id : ℕ) (s s' : σ)
    (task task' : Option (Activity Call Op Reply Out σ)) :
    (pool.setTask id s task).setTask id s' task' = pool.setTask id s' task' := by
  simp [setTask]

theorem setTask_self {id : ℕ} {task : Option (Activity Call Op Reply Out σ)}
    (h : pool.tasks id = task) : pool.setTask id pool.shared task = pool := by
  subst h
  simp [setTask]

theorem Step.began_task {id : ℕ} {call : Call} (h : Step sys pool (.began id call) next) :
    next.shared = pool.shared ∧ next.tasks id = some ⟨call, pool.shared, sys.body call⟩ := by
  cases h with
  | began => exact ⟨rfl, by rw [tasks_setTask, if_pos rfl]⟩

theorem Step.restrict {condition : σ → Op → σ → Prop} (h : Step sys pool e next)
    (hc : ∀ id op reply, e = .called id op reply →
      condition pool.shared op next.shared) : Step (sys.restrict condition) pool e next := by
  cases h with
  | began hf ha => exact .began hf ha
  | called htask hcall => exact .called htask ⟨hcall, hc _ _ _ rfl⟩
  | returned htask => exact .returned htask
  | crashed => exact .crashed
  | moved hm => exact .moved hm

section Sound
variable (setting : Setting Op Reply σ) (post : Call → σ → Out → σ → Prop)

/-- Every program under way keeps its promise, whatever the others do. -/
structure Sound (pool : Pool Call Op Reply Out σ) : Prop where
  inv : setting.Inv pool.shared
  tasks : ∀ id task, pool.tasks id = some task →
    setting.Safe (post task.call task.began) task.rest pool.shared

/-- What the moves and the programs of a system must satisfy. -/
structure Respects (sys : System Call Op Reply Out Move σ) : Prop where
  calls : ∀ {s op reply s'}, sys.calls s op reply s' → setting.calls s op reply s'
  moves : ∀ {s move s'}, setting.Inv s → sys.moves s move s' →
    setting.Inv s' ∧ setting.Grows s s'
  body : ∀ {s call}, setting.Inv s → sys.accepts s call →
    setting.Safe (post call s) (sys.body call) s

variable {setting post}

theorem Sound.setTask (h : Sound setting post pool) (id : ℕ) {s : σ}
    {task : Option (Activity Call Op Reply Out σ)} (hi : setting.Inv s)
    (hg : setting.Grows pool.shared s)
    (htask : ∀ t, task = some t → setting.Safe (post t.call t.began) t.rest s) :
    Sound setting post (pool.setTask id s task) := by
  refine ⟨hi, ?_⟩
  intro id' task' htask'
  rw [tasks_setTask] at htask'
  split_ifs at htask' with hid
  · exact htask task' htask'
  · exact (h.tasks id' task' htask').grow hg

theorem Sound.step (hsys : Respects setting post sys) (h : Sound setting post pool)
    (hstep : Step sys pool e next) :
    Sound setting post next ∧ setting.Grows pool.shared next.shared := by
  cases hstep with
  | began hf ha =>
    refine ⟨h.setTask _ h.inv (setting.refl _) ?_, setting.refl _⟩
    intro t ht
    cases ht
    exact hsys.body h.inv ha
  | called htask hcall =>
    obtain ⟨hi, hg, hs⟩ := h.tasks _ _ htask pool.shared (setting.refl _) h.inv _ _
      (hsys.calls hcall)
    refine ⟨h.setTask _ hi hg ?_, hg⟩
    intro t ht
    cases ht
    exact hs
  | returned htask | crashed =>
    exact ⟨h.setTask _ h.inv (setting.refl _) nofun, setting.refl _⟩
  | moved hm =>
    obtain ⟨hi, hg⟩ := hsys.moves h.inv hm
    refine ⟨⟨hi, ?_⟩, hg⟩
    intro id task htask
    exact (h.tasks id task htask).grow hg

theorem Sound.run (hsys : Respects setting post sys) (h : Sound setting post pool)
    (ht : Trace (Step sys) pool log next) :
    Sound setting post next ∧ setting.Grows pool.shared next.shared := by
  induction ht with
  | nil => exact ⟨h, setting.refl _⟩
  | snoc _ hstep ih =>
    obtain ⟨hs, hg⟩ := ih.1.step hsys hstep
    exact ⟨hs, setting.trans ih.2 hg⟩

theorem sound_idle {s : σ} (h : setting.Inv s) :
    Sound setting post (idle s : Pool Call Op Reply Out σ) :=
  ⟨h, fun _ _ htask => nomatch htask⟩

theorem Sound.returned (h : Sound setting post pool) {id : ℕ} {call : Call} {began : σ} {out : Out}
    (htask : pool.tasks id = some ⟨call, began, .done out⟩) : post call began out pool.shared :=
  h.tasks id _ htask pool.shared (setting.refl _) h.inv

end Sound

section Attended
variable {setting : Setting Op Reply σ} {id : ℕ} {call : Call} {began : σ} {post : Out → σ → Prop}

/-- A step while the program `id` is under way in a setting of its own: its calls are answered
as that setting says, and it is not stopped. -/
structure Attended (sys : System Call Op Reply Out Move σ) (setting : Setting Op Reply σ) (id : ℕ)
    (pool : Pool Call Op Reply Out σ) (event : PoolEvent Call Op Reply Out Move)
    (next : Pool Call Op Reply Out σ) : Prop where
  step : Step sys pool event next
  calls : ∀ op reply, event = .called id op reply →
    setting.calls pool.shared op reply next.shared
  inv : setting.Inv next.shared
  grows : setting.Grows pool.shared next.shared
  underWay : event ≠ .crashed id ∧ ∀ call out, event ≠ .returned id call out

theorem Attended.safe (h : Attended sys setting id pool e next)
    (hi : setting.Inv pool.shared) {p : Program Op Reply Out}
    (htask : pool.tasks id = some ⟨call, began, p⟩) (hs : setting.Safe post p pool.shared) :
    ∃ rest, next.tasks id = some ⟨call, began, rest⟩ ∧ setting.Safe post rest next.shared := by
  obtain ⟨hstep, hc, -, hg, hcrash, hreturn⟩ := h
  cases hstep with
  | began hf ha =>
    refine ⟨p, ?_, hs⟩
    rw [tasks_setTask, if_neg, htask]
    rintro rfl
    rw [hf] at htask
    cases htask
  | called htask' hcall =>
    rename_i id' call' began' op rest reply s
    by_cases hid : id = id'
    · subst hid
      cases htask.symm.trans htask'
      obtain ⟨-, -, hr⟩ := hs _ (setting.refl _) hi _ _ (hc op reply rfl)
      refine ⟨rest reply, ?_, hr⟩
      rw [tasks_setTask, if_pos rfl]
    · refine ⟨p, ?_, hs.grow hg⟩
      rw [tasks_setTask, if_neg hid]
      exact htask
  | returned htask' =>
    rename_i id' call' began' out
    have hid : id ≠ id' := by
      rintro rfl
      exact hreturn call' out rfl
    refine ⟨p, ?_, hs⟩
    rw [tasks_setTask, if_neg hid, htask]
  | crashed =>
    rename_i id'
    have hid : id ≠ id' := by
      rintro rfl
      exact hcrash rfl
    refine ⟨p, ?_, hs⟩
    rw [tasks_setTask, if_neg hid, htask]
  | moved hm => exact ⟨p, htask, hs.grow hg⟩

theorem safe_of_attended (hi : setting.Inv pool.shared) {p : Program Op Reply Out}
    (htask : pool.tasks id = some ⟨call, began, p⟩) (hs : setting.Safe post p pool.shared)
    (ht : Trace (Attended sys setting id) pool log next) :
    setting.Inv next.shared ∧ ∃ rest, next.tasks id = some ⟨call, began, rest⟩ ∧
      setting.Safe post rest next.shared := by
  induction ht with
  | nil => exact ⟨hi, p, htask, hs⟩
  | snoc _ hstep ih =>
    obtain ⟨hi', rest, htask', hs'⟩ := ih
    exact ⟨hstep.inv, hstep.safe hi' htask' hs'⟩

theorem exists_attended_end (answer : σ → (op : Op) → Reply op × σ)
    (hsys : ∀ s op, sys.calls s op (answer s op).1 (answer s op).2)
    (hc : ∀ s op, setting.calls s op (answer s op).1 (answer s op).2)
    (hi : setting.Inv pool.shared) {p : Program Op Reply Out}
    (htask : pool.tasks id = some ⟨call, began, p⟩) (hs : setting.Safe post p pool.shared) :
    ∃ log next out, Trace (Attended sys setting id) pool log next ∧
      next.tasks id = some ⟨call, began, .done out⟩ := by
  induction p generalizing pool with
  | done a => exact ⟨[], pool, a, .nil, htask⟩
  | call op rest ih =>
    obtain ⟨hi', hg, hr⟩ := hs pool.shared (setting.refl _) hi _ _
      (hc pool.shared op)
    let later := pool.setTask id (answer pool.shared op).2
      (some ⟨call, began, rest (answer pool.shared op).1⟩)
    have ha : Attended sys setting id pool (.called id op (answer pool.shared op).1) later := by
      refine ⟨.called htask (hsys _ _), ?_, hi', hg, nofun, nofun⟩
      intro op' reply heq
      cases heq
      exact hc _ _
    have htask' : later.tasks id = some ⟨call, began, rest (answer pool.shared op).1⟩ := by
      rw [tasks_setTask, if_pos rfl]
    obtain ⟨log, last, out, ht, hl⟩ := ih _ hi' htask' hr
    exact ⟨_, last, out, (Trace.nil.snoc ha).append ht, hl⟩

end Attended

inductive Command (Call Move : Type)
  | start (id : ℕ) (call : Call)
  | advance (id : ℕ) (steps : ℕ)
  | finish (id : ℕ)
  | crash (id : ℕ)
  | move (move : Move)

/-- One way of answering every call, starting programs and moving the state. -/
structure Driver (sys : System Call Op Reply Out Move σ) where
  answer : σ → (op : Op) → Reply op × σ
  admits : σ → Call → Bool
  perform : σ → Move → Option σ
  calls : ∀ s op, sys.calls s op (answer s op).1 (answer s op).2
  accepts : ∀ {s call}, admits s call = true → sys.accepts s call
  moves : ∀ {s move s'}, perform s move = some s' → sys.moves s move s'

namespace Driver

/-- Carries out one command. What a program returned is reported. -/
def obey (driver : Driver sys) (pool : Pool Call Op Reply Out σ) :
    Command Call Move → Option (List (ℕ × Out) × Pool Call Op Reply Out σ)
  | .start id call =>
    match pool.tasks id with
    | some _ => none
    | none => if driver.admits pool.shared call then
        some ([], pool.setTask id pool.shared (some ⟨call, pool.shared, sys.body call⟩)) else none
  | .advance id steps =>
    match pool.tasks id with
    | none => none
    | some task =>
      let result := task.rest.advance driver.answer steps pool.shared
      some ([], pool.setTask id result.2 (some ⟨task.call, task.began, result.1⟩))
  | .finish id =>
    match pool.tasks id with
    | some ⟨_, _, .done out⟩ => some ([(id, out)], pool.setTask id pool.shared none)
    | _ => none
  | .crash id => some ([], pool.setTask id pool.shared none)
  | .move move => (driver.perform pool.shared move).map fun s => ([], { pool with shared := s })

def follow (driver : Driver sys) : List (Command Call Move) → Pool Call Op Reply Out σ →
    Option (List (ℕ × Out) × Pool Call Op Reply Out σ)
  | [], pool => some ([], pool)
  | command :: rest, pool => do
    let (first, pool) ← driver.obey pool command
    let (later, pool) ← driver.follow rest pool
    return (first ++ later, pool)

end Driver

def returns (log : List (PoolEvent Call Op Reply Out Move)) : List (ℕ × Out) :=
  log.filterMap fun
    | .returned id _ out => some (id, out)
    | _ => none

@[simp]
theorem returns_append (log later : List (PoolEvent Call Op Reply Out Move)) :
    returns (log ++ later) = returns log ++ returns later := List.filterMap_append

namespace Driver

variable {driver : Driver sys}

theorem trace_of_advance {id : ℕ} {call : Call} {began : σ} (steps : ℕ)
    {p : Program Op Reply Out} (htask : pool.tasks id = some ⟨call, began, p⟩) :
    ∃ log, returns log = [] ∧ Trace (Step sys) pool log
      (pool.setTask id (p.advance driver.answer steps pool.shared).2
        (some ⟨call, began, (p.advance driver.answer steps pool.shared).1⟩)) := by
  induction steps generalizing pool p with
  | zero =>
    refine ⟨[], rfl, ?_⟩
    rw [Program.advance, setTask_self htask]
    exact .nil
  | succ steps ih =>
    cases p with
    | done a =>
      refine ⟨[], rfl, ?_⟩
      rw [Program.advance, setTask_self htask]
      exact .nil
    | call op rest =>
      have htask' : (pool.setTask id (driver.answer pool.shared op).2
          (some ⟨call, began, rest (driver.answer pool.shared op).1⟩)).tasks id =
          some ⟨call, began, rest (driver.answer pool.shared op).1⟩ := by
        rw [tasks_setTask, if_pos rfl]
      obtain ⟨log, hl, ht⟩ := ih htask'
      rw [setTask_setTask] at ht
      refine ⟨_, ?_, (Trace.nil.snoc (.called htask (driver.calls _ op))).append ht⟩
      rw [returns_append, hl]
      rfl

theorem trace_of_obey {command : Command Call Move} {outs : List (ℕ × Out)}
    (h : driver.obey pool command = some (outs, next)) :
    ∃ log, returns log = outs ∧ Trace (Step sys) pool log next := by
  cases command with
  | start id call =>
    simp only [obey] at h
    split at h
    · cases h
    · rename_i hf
      split_ifs at h with ha
      cases h
      exact ⟨_, rfl, Trace.nil.snoc (.began hf (driver.accepts ha))⟩
  | advance id steps =>
    simp only [obey] at h
    split at h
    · cases h
    · rename_i task htask
      cases h
      exact trace_of_advance steps htask
  | finish id =>
    simp only [obey] at h
    split at h
    · rename_i htask
      cases h
      exact ⟨_, rfl, Trace.nil.snoc (.returned htask)⟩
    · cases h
  | crash id =>
    cases h
    exact ⟨_, rfl, Trace.nil.snoc .crashed⟩
  | move move =>
    obtain ⟨s, hs, heq⟩ := Option.map_eq_some_iff.mp h
    cases heq
    exact ⟨_, rfl, Trace.nil.snoc (.moved (driver.moves hs))⟩

theorem trace_of_follow {cs : List (Command Call Move)} {outs : List (ℕ × Out)}
    (h : driver.follow cs pool = some (outs, next)) :
    ∃ log, returns log = outs ∧ Trace (Step sys) pool log next := by
  induction cs generalizing pool outs with
  | nil =>
    cases h
    exact ⟨[], rfl, .nil⟩
  | cons command rest ih =>
    simp only [follow, Option.bind_eq_bind, Option.bind_eq_some_iff] at h
    obtain ⟨⟨first, middle⟩, ho, ⟨later, last⟩, hf, heq⟩ := h
    cases heq
    obtain ⟨log, hl, ht⟩ := trace_of_obey ho
    obtain ⟨log', hl', ht'⟩ := ih hf
    refine ⟨log ++ log', ?_, ht.append ht'⟩
    rw [returns_append, hl, hl']

end Driver

end Pool
