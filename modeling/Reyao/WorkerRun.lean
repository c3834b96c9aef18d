import Mathlib.Logic.Function.Basic
import Mathlib.Data.List.Nodup
import Reyao.Epoller
import Reyao.Lib.Run

/-!
# The loop of a worker (`worker.cc`, `coroutine.cc`)

`Worker::run` takes one task at a time: it resumes a coroutine, or calls a function
on the coroutine `coFunc`, which it uses again unless the function has suspended.
With nothing to run it resumes the idle coroutine, which waits for events.

A step is what happens between two switches of context, or the arrival of an event
or a timer that queues the coroutine that waits for it. What the functions do is up
to the labels: they queue functions, suspend, and return or throw. An operation that
runs into a failed assertion, or resumes a coroutine that has ended, has no result.
-/

namespace Reyao

/-- `Coroutine::State`. -/
inductive CoState : Type
  | INIT
  | RUNNING
  | SUSPEND
  | DONE
  | EXCEPT
  deriving DecidableEq, Repr

/-- `state_` and `func_` of a coroutine; the function of the idle coroutine is not
one of those that are queued. -/
structure CoroutineData (F : Type) : Type where
  state : CoState := .INIT
  func : Option F := none

/-- Where `run` is: at the head of its loop, in one of its calls of `resume`, or at
its end. -/
inductive LoopPc : Type
  | look
  | inCo
  | inFunc
  | inIdle
  | ended
  deriving DecidableEq

structure WorkerLoop (F : Type) : Type where
  pc : LoopPc := .look
  /-- The coroutines by their number; 0 is the idle coroutine. -/
  cos : Nat → CoroutineData F := fun _ => {}
  nextId : Nat := 1
  /-- `t_curCoroutine`; `none` is the main coroutine. -/
  cur : Option Nat := none
  tasks : List (Task Nat F) := []
  coFunc : Option Nat := none
  /-- The coroutines an event or a timer is to queue. -/
  waiting : Nat → Bool := fun _ => false
  /-- The functions `Entry` has called. -/
  started : List F := []

inductive LoopLabel (F : Type) : Type
  | addTask (f : F)
  /-- The event or the timer of a coroutine that has suspended. -/
  | arrive (c : Nat)
  /-- A round of `run` up to the next switch of context. -/
  | look
  | suspend
  | returns
  | throws
  | idleYields
  | idleReturns
  deriving DecidableEq

/-- The function a label queues. -/
def LoopLabel.queues {F : Type} : LoopLabel F → List F
  | .addTask f => [f]
  | _ => []

namespace WorkerLoop

variable {F : Type}

/-- The state of a coroutine. -/
def state (s : WorkerLoop F) (c : Nat) : CoState := (s.cos c).state

def setCo (s : WorkerLoop F) (c : Nat) (co : CoroutineData F) : WorkerLoop F :=
  { s with cos := Function.update s.cos c co }

def setState (s : WorkerLoop F) (c : Nat) (state : CoState) : WorkerLoop F :=
  s.setCo c { s.cos c with state := state }

/-- `reuse(func)`. -/
def reuse (s : WorkerLoop F) (c : Nat) (f : F) : Option (WorkerLoop F) :=
  if s.state c = .INIT ∨ s.state c = .DONE ∨ s.state c = .EXCEPT then
    some (s.setCo c { state := .INIT, func := some f })
  else none

/-- `resume()`; a coroutine that has not run yet starts in `Entry`, which calls its
function. -/
def resume (s : WorkerLoop F) (c : Nat) : Option (WorkerLoop F) :=
  match s.state c with
  | .INIT => some { s.setState c .RUNNING with
      cur := some c, started := s.started ++ (s.cos c).func.toList }
  | .SUSPEND => some { s.setState c .RUNNING with cur := some c }
  | _ => none

/-- What `run` does after a `resume`. -/
def resumed (s : WorkerLoop F) : WorkerLoop F :=
  match s.pc, s.coFunc with
  | .inFunc, some c =>
      { s with pc := .look, coFunc := if s.state c = .SUSPEND then none else some c }
  | _, _ => { s with pc := .look }

/-- `YieldToSuspend()`. -/
def yieldToSuspend (s : WorkerLoop F) (c : Nat) : Option (WorkerLoop F) :=
  if s.state c = .RUNNING then some { s.setState c .SUSPEND with cur := none } else none

/-- The end of `Entry`: the function has returned or thrown. -/
def exit (s : WorkerLoop F) (c : Nat) (threw : Bool) : WorkerLoop F :=
  { s.setCo c (if threw then { s.cos c with state := .EXCEPT } else { state := .DONE }) with
    cur := none }

/-- The branch of `run` without a task to run. -/
def runIdle (s : WorkerLoop F) : Option (WorkerLoop F) :=
  if s.state 0 = .DONE then some { s with pc := .ended }
  else do
    let s ← s.resume 0
    return { s with pc := .inIdle }

/-- A round of the loop of `run`. -/
def look (s : WorkerLoop F) : Option (WorkerLoop F) :=
  match s.tasks with
  | [] => s.runIdle
  | .co c :: rest => do
      let s := { s with tasks := rest }
      if s.state c ≠ .DONE ∧ s.state c ≠ .EXCEPT then
        let s ← s.resume c
        return { s with pc := .inCo }
      else s.runIdle
  | .func f :: rest => do
      let s := { s with tasks := rest }
      match s.coFunc with
      | some c =>
          let s ← s.reuse c f
          let s ← s.resume c
          return { s with pc := .inFunc }
      | none =>
          let c := s.nextId
          let s := { s.setCo c { func := some f } with nextId := c + 1, coFunc := some c }
          let s ← s.resume c
          return { s with pc := .inFunc }

/-- The coroutine that runs a function. -/
def running? (s : WorkerLoop F) : Option Nat := s.cur.filter (· ≠ 0)

/-- What can happen in a state. -/
def Enabled (s : WorkerLoop F) : LoopLabel F → Prop
  | .addTask _ => True
  | .arrive c => s.waiting c = true
  | .look => s.pc = .look
  | .suspend => s.running?.isSome
  | .returns => s.running?.isSome
  | .throws => s.running?.isSome
  | .idleYields => s.cur = some 0
  -- `canStop` is false while there are tasks
  | .idleReturns => s.cur = some 0 ∧ s.tasks = []

instance (s : WorkerLoop F) : (e : LoopLabel F) → Decidable (s.Enabled e)
  | .addTask _ => inferInstanceAs (Decidable True)
  | .arrive _ => inferInstanceAs (Decidable (_ = _))
  | .look => inferInstanceAs (Decidable (_ = _))
  | .suspend => inferInstanceAs (Decidable (_ = _))
  | .returns => inferInstanceAs (Decidable (_ = _))
  | .throws => inferInstanceAs (Decidable (_ = _))
  | .idleYields => inferInstanceAs (Decidable (_ = _))
  | .idleReturns => decidable_of_iff (s.cur = some 0 ∧ s.tasks.isEmpty = true)
      (and_congr_right fun _ => List.isEmpty_iff)

def step (s : WorkerLoop F) : LoopLabel F → Option (WorkerLoop F)
  | .addTask f => some { s with tasks := s.tasks ++ [.func f] }
  | .arrive c => some { s with
      tasks := s.tasks ++ [.co c], waiting := Function.update s.waiting c false }
  | .look => s.look
  | .suspend => do
      let c ← s.running?
      let s ← s.yieldToSuspend c
      return { s with waiting := Function.update s.waiting c true }.resumed
  | .returns => do
      let c ← s.running?
      return (s.exit c false).resumed
  | .throws => do
      let c ← s.running?
      return (s.exit c true).resumed
  | .idleYields => do
      let s ← s.yieldToSuspend 0
      return s.resumed
  | .idleReturns => some (s.exit 0 false).resumed

/-- A step of the worker or of what it waits for. -/
def Step (s : WorkerLoop F) (e : LoopLabel F) (s' : WorkerLoop F) : Prop :=
  s.Enabled e ∧ s.step e = some s'

end WorkerLoop

/-! ## What every step keeps -/

namespace WorkerLoop

variable {F : Type} {s s' : WorkerLoop F} {c : Nat}

/-- The coroutines and the functions in the queue. -/
def queuedCos (s : WorkerLoop F) : List Nat := s.tasks.filterMap Task.co?

def queuedFuncs (s : WorkerLoop F) : List F := s.tasks.filterMap Task.func?

theorem queuedCos_func (s : WorkerLoop F) (f : F) :
    (s.tasks ++ [Task.func f]).filterMap Task.co? = s.queuedCos := by
  rw [List.filterMap_append]
  exact List.append_nil _

theorem queuedCos_co (s : WorkerLoop F) (c : Nat) :
    (s.tasks ++ [Task.co c]).filterMap Task.co? = s.queuedCos ++ [c] := List.filterMap_append

theorem queuedFuncs_func (s : WorkerLoop F) (f : F) :
    (s.tasks ++ [Task.func f]).filterMap Task.func? = s.queuedFuncs ++ [f] := List.filterMap_append

theorem queuedFuncs_co (s : WorkerLoop F) (c : Nat) :
    (s.tasks ++ [Task.co c]).filterMap Task.func? = s.queuedFuncs := by
  rw [List.filterMap_append]
  exact List.append_nil _

theorem queuedCos_of_co {rest : List (Task Nat F)} (tasks : s.tasks = .co c :: rest) :
    s.queuedCos = c :: rest.filterMap Task.co? := by
  rw [queuedCos, tasks]
  rfl

theorem queuedCos_of_func {f : F} {rest : List (Task Nat F)} (tasks : s.tasks = .func f :: rest) :
    s.queuedCos = rest.filterMap Task.co? := by
  rw [queuedCos, tasks]
  rfl

theorem queuedFuncs_of_func {f : F} {rest : List (Task Nat F)} (tasks : s.tasks = .func f :: rest) :
    s.queuedFuncs = f :: rest.filterMap Task.func? := by
  rw [queuedFuncs, tasks]
  rfl

/-- The coroutine has returned or thrown. -/
def Ended (s : WorkerLoop F) (c : Nat) : Prop := s.state c = .DONE ∨ s.state c = .EXCEPT

/-- Where `run` is agrees with the coroutine that runs. -/
def AtPc (s : WorkerLoop F) : LoopPc → Prop
  | .look => s.cur = none
  | .ended => s.cur = none
  | .inIdle => s.cur = some 0
  | .inFunc => ∃ c, s.cur = some c ∧ s.coFunc = some c
  | .inCo => ∃ c, s.cur = some c ∧ c ≠ 0 ∧ s.coFunc ≠ some c

structure Orderly (s : WorkerLoop F) : Prop where
  at_pc : s.AtPc s.pc
  running_iff : ∀ c, s.state c = .RUNNING ↔ s.cur = some c
  coFunc : ∀ c, s.coFunc = some c → c ≠ 0 ∧ (s.cur = some c ∨ s.Ended c)
  queued : ∀ c ∈ s.queuedCos, s.state c = .SUSPEND ∧ c ≠ 0 ∧ s.waiting c = false
  once : s.queuedCos.Nodup
  waits : ∀ c, s.waiting c = true → s.state c = .SUSPEND ∧ c ≠ 0
  fresh : ∀ c, s.nextId ≤ c → s.cos c = {}
  first : 0 < s.nextId
  idle : s.state 0 ≠ .EXCEPT ∧ (s.cos 0).func = none

theorem orderly_start : ({} : WorkerLoop F).Orderly := by
  refine ⟨rfl, fun c => ⟨fun running => ?_, fun cur => ?_⟩, fun c func => ?_, fun c queued => ?_,
    List.nodup_nil, fun c waits => ?_, fun _ _ => rfl, Nat.one_pos, fun except => ?_, rfl⟩
  · cases running
  · cases cur
  · cases func
  · cases queued
  · cases waits
  · cases except

theorem state_update_of_ne {k : Nat} (other : k ≠ c) (co : CoroutineData F) :
    (Function.update s.cos c co k).state = s.state k := by
  rw [Function.update_of_ne other]
  rfl

/-- The idle coroutine stays what it is when another one changes. -/
theorem Orderly.idle_update (orderly : s.Orderly) {co : CoroutineData F}
    (idle : c = 0 → co.state ≠ .EXCEPT ∧ co.func = none) :
    (Function.update s.cos c co 0).state ≠ .EXCEPT ∧
      (Function.update s.cos c co 0).func = none := by
  by_cases here : c = 0
  · subst here
    rw [Function.update_self]
    exact idle rfl
  · rw [Function.update_of_ne (Ne.symm here)]
    exact orderly.idle

/-- A coroutine is switched to. -/
theorem Orderly.enter (orderly : s.Orderly) (quiet : s.cur = none) (c : Nat) (co : CoroutineData F)
    (rest : List (Task Nat F)) (pc : LoopPc) (coFunc : Option Nat) (nextId : Nat)
    (started : List F) (runs : co.state = .RUNNING)
    (cos_left : List.Sublist (rest.filterMap Task.co?) s.queuedCos)
    (not_queued : c ∉ rest.filterMap Task.co?) (not_waiting : s.waiting c = false)
    (next : s.nextId ≤ nextId) (small : c < nextId)
    (same_func : ∀ k, coFunc = some k → k ≠ 0 ∧ (k = c ∨ s.coFunc = some k))
    (idle : c = 0 → co.func = none)
    (at_pc : ∀ t : WorkerLoop F, t.cur = some c → t.coFunc = coFunc → t.AtPc pc) :
    ({ s with pc := pc, cos := Function.update s.cos c co, nextId := nextId, cur := some c,
              tasks := rest, coFunc := coFunc, started := started } : WorkerLoop F).Orderly := by
  have other {k : Nat} (here : k ≠ c) := state_update_of_ne (s := s) here co
  refine ⟨at_pc _ rfl rfl, fun k => ?_, fun k is_func => ?_, fun k queued => ?_,
    orderly.once.sublist cos_left, fun k waits => ?_, fun k large => ?_,
    Nat.lt_of_lt_of_le orderly.first next, ?_⟩
  · by_cases here : k = c
    · subst here
      refine iff_of_true ?_ rfl
      change (Function.update s.cos k co k).state = .RUNNING
      rw [Function.update_self]
      exact runs
    · refine iff_of_false (fun running => ?_) fun same => here (Option.some.inj same).symm
      have was := (orderly.running_iff k).mp ((other here).symm.trans running)
      rw [quiet] at was
      cases was
  · obtain ⟨positive, here | was⟩ := same_func k is_func
    · exact ⟨positive, Or.inl (congrArg some here.symm)⟩
    · refine ⟨positive, ?_⟩
      by_cases here : k = c
      · exact Or.inl (congrArg some here.symm)
      · refine Or.inr ?_
        rcases (orderly.coFunc k was).2 with is_cur | ended
        · rw [quiet] at is_cur
          cases is_cur
        · exact ended.imp (other here).trans (other here).trans
  · have elsewhere : k ≠ c := by
      rintro rfl
      exact not_queued queued
    obtain ⟨suspended, positive, idle⟩ := orderly.queued k (cos_left.subset queued)
    exact ⟨(other elsewhere).trans suspended, positive, idle⟩
  · have elsewhere : k ≠ c := by
      rintro rfl
      rw [not_waiting] at waits
      cases waits
    obtain ⟨suspended, positive⟩ := orderly.waits k waits
    exact ⟨(other elsewhere).trans suspended, positive⟩
  · have elsewhere : k ≠ c := by
      rintro rfl
      exact absurd (Nat.lt_of_lt_of_le small large) (Nat.lt_irrefl _)
    change Function.update s.cos c co k = {}
    rw [Function.update_of_ne elsewhere]
    exact orderly.fresh k (Nat.le_trans next large)
  · refine orderly.idle_update fun here => ⟨?_, idle here⟩
    rw [runs]
    exact CoState.noConfusion

/-- A coroutine switches back to `run`. -/
theorem Orderly.leave (orderly : s.Orderly) (cur : s.cur = some c) (co : CoroutineData F)
    (stops : co.state ≠ .RUNNING) {waiting : Nat → Bool} {coFunc : Option Nat}
    (same_waits : ∀ k ≠ c, waiting k = s.waiting k)
    (waits : waiting c = true → co.state = .SUSPEND ∧ c ≠ 0)
    (same_func : ∀ k, coFunc = some k → s.coFunc = some k ∧
      (k = c → co.state = .DONE ∨ co.state = .EXCEPT))
    (idle : c = 0 → co.state ≠ .EXCEPT ∧ co.func = none) :
    ({ s with pc := .look, cos := Function.update s.cos c co, cur := none, coFunc := coFunc,
              waiting := waiting } : WorkerLoop F).Orderly := by
  have runs : s.state c = .RUNNING := (orderly.running_iff c).mpr cur
  have here : (Function.update s.cos c co c).state = co.state := by
    rw [Function.update_self]
  have other {k : Nat} (here : k ≠ c) := state_update_of_ne (s := s) here co
  have suspended_elsewhere : ∀ {k}, s.state k = .SUSPEND → k ≠ c := by
    rintro k suspended rfl
    rw [runs] at suspended
    cases suspended
  refine ⟨rfl, fun k => iff_of_false (fun running => ?_) fun is_cur => ?_, fun k is_func => ?_,
    fun k queued => ?_, orderly.once, fun k is_waiting => ?_, fun k large => ?_, orderly.first, ?_⟩
  · by_cases same : k = c
    · subst same
      exact stops (here.symm.trans running)
    · have was := (orderly.running_iff k).mp ((other same).symm.trans running)
      rw [cur] at was
      exact same (Option.some.inj was).symm
  · cases is_cur
  · obtain ⟨was, ends⟩ := same_func k is_func
    obtain ⟨positive, is_cur | ended⟩ := orderly.coFunc k was
    · have same : k = c := by
        rw [cur] at is_cur
        exact (Option.some.inj is_cur).symm
      subst same
      exact ⟨positive, Or.inr ((ends rfl).imp here.trans here.trans)⟩
    · refine ⟨positive, Or.inr ?_⟩
      by_cases same : k = c
      · subst same
        exact (ends rfl).imp here.trans here.trans
      · exact ended.imp (other same).trans (other same).trans
  · obtain ⟨suspended, positive, not_waiting⟩ := orderly.queued k queued
    have elsewhere := suspended_elsewhere suspended
    exact ⟨(other elsewhere).trans suspended, positive, (same_waits k elsewhere).trans not_waiting⟩
  · by_cases same : k = c
    · subst same
      obtain ⟨suspends, positive⟩ := waits is_waiting
      exact ⟨here.trans suspends, positive⟩
    · obtain ⟨suspended, positive⟩ := orderly.waits k ((same_waits k same).symm.trans is_waiting)
      exact ⟨(other same).trans suspended, positive⟩
  · have elsewhere : k ≠ c := by
      rintro rfl
      have new : s.state k = .INIT := by
        rw [state, orderly.fresh k large]
      rw [new] at runs
      cases runs
    change Function.update s.cos c co k = {}
    rw [Function.update_of_ne elsewhere]
    exact orderly.fresh k large
  · exact orderly.idle_update idle

/-- What a step of `run` does to the functions: one may pass from the queue to those
that have been started. -/
def SameFuncs (s s' : WorkerLoop F) : Prop :=
  s'.started ++ s'.queuedFuncs = s.started ++ s.queuedFuncs

theorem resume_suspended (suspended : s.state c = .SUSPEND) :
    s.resume c = some { s.setState c .RUNNING with cur := some c } := by
  rw [resume, suspended]

theorem resume_init (init : s.state c = .INIT) :
    s.resume c = some { s.setState c .RUNNING with
      cur := some c, started := s.started ++ (s.cos c).func.toList } := by
  rw [resume, init]

/-- The idle coroutine can be resumed until it is done. -/
theorem runIdle_orderly (orderly : s.Orderly) (here : s.pc = .look) (idle : s.tasks = []) :
    ∃ s', s.runIdle = some s' ∧ s'.Orderly ∧ s.SameFuncs s' := by
  have quiet : s.cur = none := by
    have at_pc := orderly.at_pc
    rwa [here] at at_pc
  have not_queued : 0 ∉ s.tasks.filterMap Task.co? := by
    rw [idle]
    exact List.not_mem_nil
  have not_waiting : s.waiting 0 = false := by
    cases waits : s.waiting 0 with
    | false => rfl
    | true => exact absurd rfl (orderly.waits 0 waits).2
  have entered := fun started : List F => orderly.enter quiet 0
    { s.cos 0 with state := .RUNNING } s.tasks .inIdle s.coFunc s.nextId started rfl
    (List.Sublist.refl _) not_queued not_waiting (Nat.le_refl _) orderly.first
    (fun k is_func => ⟨(orderly.coFunc k is_func).1, Or.inr is_func⟩) (fun _ => orderly.idle.2)
    fun _ cur _ => cur
  rw [runIdle]
  cases at_state : s.state 0 with
  | DONE =>
      rw [if_pos rfl]
      exact ⟨_, rfl, ⟨quiet, orderly.running_iff, orderly.coFunc, orderly.queued, orderly.once,
        orderly.waits, orderly.fresh, orderly.first, orderly.idle⟩, rfl⟩
  | INIT =>
      rw [if_neg CoState.noConfusion, resume_init at_state, orderly.idle.2]
      refine ⟨_, rfl, entered _, ?_⟩
      change (s.started ++ []) ++ s.queuedFuncs = s.started ++ s.queuedFuncs
      rw [List.append_nil]
  | SUSPEND =>
      rw [if_neg CoState.noConfusion, resume_suspended at_state]
      exact ⟨_, rfl, entered _, rfl⟩
  | RUNNING =>
      have cur := (orderly.running_iff 0).mp at_state
      rw [quiet] at cur
      cases cur
  | EXCEPT => exact absurd at_state orderly.idle.1

theorem Orderly.quiet (orderly : s.Orderly) (here : s.pc = .look) : s.cur = none := by
  have at_pc := orderly.at_pc
  rwa [here] at at_pc

/-- A coroutine at the head of the queue. -/
theorem look_co (orderly : s.Orderly) (here : s.pc = .look) {rest : List (Task Nat F)}
    (tasks : s.tasks = .co c :: rest) :
    ∃ s', s.look = some s' ∧ s'.Orderly ∧ s.SameFuncs s' := by
  have cos := queuedCos_of_co tasks
  obtain ⟨suspended, positive, not_waiting⟩ :=
    orderly.queued c (by rw [cos]; exact List.mem_cons_self)
  have once := orderly.once
  rw [cos, List.nodup_cons] at once
  have small : c < s.nextId := by
    by_contra large
    rw [state, orderly.fresh c (Nat.not_lt.mp large)] at suspended
    cases suspended
  have not_func : s.coFunc ≠ some c := by
    intro is_func
    rcases (orderly.coFunc c is_func).2 with cur | done | except
    · rw [orderly.quiet here] at cur
      cases cur
    · rw [suspended] at done
      cases done
    · rw [suspended] at except
      cases except
  have entered := orderly.enter (orderly.quiet here) c { s.cos c with state := .RUNNING } rest .inCo
    s.coFunc s.nextId s.started rfl (by rw [cos]; exact List.sublist_cons_self _ _) once.1
    not_waiting (Nat.le_refl _) small
    (fun k is_func => ⟨(orderly.coFunc k is_func).1, Or.inr is_func⟩)
    (fun zero => absurd zero positive)
    fun _ cur func => ⟨c, cur, positive, by rw [func]; exact not_func⟩
  have after : ({ s with tasks := rest } : WorkerLoop F).state c = .SUSPEND := suspended
  refine ⟨_, ?_, entered, ?_⟩
  · simp only [look, tasks]
    rw [after, if_pos ⟨CoState.noConfusion, CoState.noConfusion⟩, resume_suspended after]
    rfl
  · change s.started ++ rest.filterMap Task.func? = s.started ++ s.queuedFuncs
    rw [queuedFuncs, tasks]
    rfl

/-- Resuming a coroutine that has just been given a function. -/
theorem resume_setCo (s : WorkerLoop F) (c : Nat) (f : F) :
    (s.setCo c { func := some f }).resume c = some { s with
      cos := Function.update s.cos c { state := .RUNNING, func := some f },
      cur := some c, started := s.started ++ [f] } := by
  have at_c : (s.setCo c { func := some f }).cos c = { func := some f } := Function.update_self _ _ _
  rw [resume_init (by rw [state, at_c]), setState, at_c, setCo, setCo, Function.update_idem]
  rfl

/-- A function goes to the coroutine that runs functions. -/
theorem look_some {c : Nat} {f : F} {rest : List (Task Nat F)} (tasks : s.tasks = .func f :: rest)
    (is_func : s.coFunc = some c) :
    s.look = (({ s with tasks := rest } : WorkerLoop F).reuse c f).bind fun t =>
      (t.resume c).bind fun u => some { u with pc := .inFunc } := by
  simp only [look, tasks]
  split
  · rename_i c' same
    cases is_func.symm.trans same
    rfl
  · rename_i no_func
    cases is_func.symm.trans no_func

/-- Where there is none, it goes to a new coroutine. -/
theorem look_none {f : F} {rest : List (Task Nat F)} (tasks : s.tasks = .func f :: rest)
    (no_func : s.coFunc = none) :
    s.look = ((({ s with
        tasks := rest, nextId := s.nextId + 1, coFunc := some s.nextId } : WorkerLoop F).setCo
          s.nextId { func := some f }).resume s.nextId).bind fun u =>
      some { u with pc := .inFunc } := by
  simp only [look, tasks]
  split
  · rename_i c same
    cases no_func.symm.trans same
  · rfl

/-- A function at the head of the queue, on the coroutine that is used again or on a
new one. -/
theorem look_func (orderly : s.Orderly) (here : s.pc = .look) {f : F} {rest : List (Task Nat F)}
    (tasks : s.tasks = .func f :: rest) :
    ∃ s', s.look = some s' ∧ s'.Orderly ∧ s.SameFuncs s' := by
  have quiet := orderly.quiet here
  have cos := queuedCos_of_func tasks
  have funcs : (s.started ++ [f]) ++ rest.filterMap Task.func? = s.started ++ s.queuedFuncs := by
    rw [queuedFuncs_of_func tasks, List.append_assoc]
    rfl
  have apart : ∀ {c}, s.state c ≠ .SUSPEND → c ∉ rest.filterMap Task.co? ∧ s.waiting c = false := by
    intro c awake
    refine ⟨fun queued => awake (orderly.queued c (by rw [cos]; exact queued)).1, ?_⟩
    cases waits : s.waiting c with
    | false => rfl
    | true => exact absurd (orderly.waits c waits).1 awake
  cases is_func : s.coFunc with
  | some c =>
      obtain ⟨positive, is_cur | ended⟩ := orderly.coFunc c is_func
      · rw [quiet] at is_cur
        cases is_cur
      · have awake : s.state c ≠ .SUSPEND := by
          rcases ended with done | except
          · rw [done]
            exact CoState.noConfusion
          · rw [except]
            exact CoState.noConfusion
        have small : c < s.nextId := by
          by_contra large
          rw [Ended, state, orderly.fresh c (Nat.not_lt.mp large)] at ended
          rcases ended with done | except
          · cases done
          · cases except
        obtain ⟨not_queued, not_waiting⟩ := apart awake
        have entered := orderly.enter quiet c { state := .RUNNING, func := some f } rest .inFunc
          s.coFunc s.nextId (s.started ++ [f]) rfl (by rw [cos]) not_queued not_waiting
          (Nat.le_refl _) small
          (fun k same => ⟨(orderly.coFunc k same).1, Or.inr same⟩)
          (fun zero => absurd zero positive) fun _ cur func => ⟨c, cur, func.trans is_func⟩
        have reused : ({ s with tasks := rest } : WorkerLoop F).reuse c f =
            some (({ s with tasks := rest } : WorkerLoop F).setCo c { func := some f }) :=
          if_pos (Or.inr ended)
        refine ⟨_, ?_, entered, funcs⟩
        rw [look_some tasks is_func]
        exact Option.bind_eq_some_iff.mpr
          ⟨_, reused, Option.bind_eq_some_iff.mpr ⟨_, resume_setCo _ _ _, rfl⟩⟩
  | none =>
      have new : s.state s.nextId ≠ .SUSPEND := by
        rw [state, orderly.fresh _ (Nat.le_refl _)]
        exact CoState.noConfusion
      obtain ⟨not_queued, not_waiting⟩ := apart new
      have positive : s.nextId ≠ 0 := Nat.ne_of_gt orderly.first
      have entered := orderly.enter quiet s.nextId { state := .RUNNING, func := some f } rest
        .inFunc (some s.nextId) (s.nextId + 1) (s.started ++ [f]) rfl (by rw [cos]) not_queued
        not_waiting (Nat.le_succ _) (Nat.lt_succ_self _)
        (fun k same => ⟨Option.some.inj same ▸ positive, Or.inl (Option.some.inj same).symm⟩)
        (fun zero => absurd zero positive) fun _ cur func => ⟨s.nextId, cur, func⟩
      refine ⟨_, ?_, entered, funcs⟩
      rw [look_none tasks is_func]
      exact Option.bind_eq_some_iff.mpr ⟨_, resume_setCo
        { s with tasks := rest, nextId := s.nextId + 1, coFunc := some s.nextId } _ _, rfl⟩

/-- `run` keeps `coFunc` unless the function on it has suspended. -/
theorem resumed_spec (orderly : s.Orderly) (cur : s.cur = some c) {t : WorkerLoop F}
    (pc : t.pc = s.pc) (func : t.coFunc = s.coFunc) :
    ∃ coFunc, t.resumed = { t with pc := .look, coFunc := coFunc } ∧
      ∀ k, coFunc = some k → s.coFunc = some k ∧ (k = c → t.state c ≠ .SUSPEND) := by
  have at_pc := orderly.at_pc
  cases here : s.pc with
  | look =>
      rw [here] at at_pc
      cases cur.symm.trans at_pc
  | ended =>
      rw [here] at at_pc
      cases cur.symm.trans at_pc
  | inIdle =>
      rw [here] at at_pc
      refine ⟨t.coFunc, by rw [resumed, pc, here], fun k is_func => ⟨func ▸ is_func, ?_⟩⟩
      rintro rfl
      cases cur.symm.trans at_pc
      exact absurd rfl (orderly.coFunc 0 (func ▸ is_func)).1
  | inCo =>
      rw [here] at at_pc
      obtain ⟨c', cur', -, not_func⟩ := at_pc
      cases cur.symm.trans cur'
      refine ⟨t.coFunc, by rw [resumed, pc, here], fun k is_func => ⟨func ▸ is_func, ?_⟩⟩
      rintro rfl
      exact absurd (func ▸ is_func) not_func
  | inFunc =>
      rw [here] at at_pc
      obtain ⟨c', cur', is_func⟩ := at_pc
      cases cur.symm.trans cur'
      refine ⟨if t.state c = .SUSPEND then none else some c, ?_, fun k kept => ?_⟩
      · rw [resumed, pc, here, func, is_func]
      · split at kept
        · cases kept
        · rename_i awake
          cases kept
          exact ⟨is_func, fun _ => awake⟩

/-- The coroutine that runs is not waited for. -/
theorem Orderly.not_waiting (orderly : s.Orderly) (cur : s.cur = some c) : s.waiting c = false := by
  cases waits : s.waiting c with
  | false => rfl
  | true =>
      have running := (orderly.running_iff c).mpr cur
      rw [(orderly.waits c waits).1] at running
      cases running

/-- A function, or the idle coroutine, returns or throws. -/
theorem exit_orderly (orderly : s.Orderly) (cur : s.cur = some c) (threw : Bool)
    (idle : c = 0 → threw = false) :
    (s.exit c threw).resumed.Orderly ∧ s.SameFuncs (s.exit c threw).resumed := by
  obtain ⟨coFunc, resumed, same_func⟩ := resumed_spec orderly cur (t := s.exit c threw) rfl rfl
  rw [resumed]
  refine ⟨?_, rfl⟩
  have not_waiting := orderly.not_waiting cur
  have waits : s.waiting c = true → ∀ {p : Prop}, p := by
    intro waits
    rw [not_waiting] at waits
    cases waits
  cases threw with
  | false =>
      exact orderly.leave cur { state := .DONE } CoState.noConfusion (fun _ _ => rfl)
        (fun is_waiting => waits is_waiting)
        (fun k is_func => ⟨(same_func k is_func).1, fun _ => Or.inl rfl⟩)
        fun _ => ⟨CoState.noConfusion, rfl⟩
  | true =>
      exact orderly.leave cur { s.cos c with state := .EXCEPT } CoState.noConfusion
        (fun _ _ => rfl) (fun is_waiting => waits is_waiting)
        (fun k is_func => ⟨(same_func k is_func).1, fun _ => Or.inr rfl⟩)
        fun zero => Bool.noConfusion (idle zero)

theorem yieldToSuspend_eq (orderly : s.Orderly) (cur : s.cur = some c) :
    s.yieldToSuspend c = some { s.setState c .SUSPEND with cur := none } :=
  if_pos ((orderly.running_iff c).mpr cur)

/-- `YieldToSuspend` of the coroutine that runs. -/
theorem yield_orderly (orderly : s.Orderly) (cur : s.cur = some c) {waiting : Nat → Bool}
    (same_waits : ∀ k ≠ c, waiting k = s.waiting k) (waits : waiting c = true → c ≠ 0) :
    ({ s.setState c .SUSPEND with cur := none, waiting := waiting } : WorkerLoop F).resumed.Orderly ∧
      s.SameFuncs
        ({ s.setState c .SUSPEND with cur := none, waiting := waiting } : WorkerLoop F).resumed := by
  obtain ⟨coFunc, resumed, same_func⟩ := resumed_spec orderly cur
    (t := { s.setState c .SUSPEND with cur := none, waiting := waiting }) rfl rfl
  rw [resumed]
  refine ⟨?_, rfl⟩
  refine orderly.leave cur { s.cos c with state := .SUSPEND } CoState.noConfusion same_waits
    (fun is_waiting => ⟨rfl, waits is_waiting⟩) (fun k is_func => ?_)
    fun zero => ⟨CoState.noConfusion, zero ▸ orderly.idle.2⟩
  obtain ⟨was, awake⟩ := same_func k is_func
  refine ⟨was, fun same => absurd ?_ (awake same)⟩
  change (Function.update s.cos c _ c).state = .SUSPEND
  rw [Function.update_self]

theorem cur_of_running (running : s.running? = some c) : s.cur = some c ∧ c ≠ 0 := by
  rw [running?, Option.filter_eq_some_iff] at running
  exact ⟨running.1, of_decide_eq_true running.2⟩

theorem SameFuncs.append_nil (same : s.SameFuncs s') :
    s'.started ++ s'.queuedFuncs = (s.started ++ s.queuedFuncs) ++ [] :=
  same.trans (List.append_nil _).symm

/-- A coroutine that is suspended is queued. -/
theorem Orderly.queue (orderly : s.Orderly) (suspended : s.state c = .SUSPEND) (positive : c ≠ 0)
    (not_queued : c ∉ s.queuedCos) :
    ({ s with tasks := s.tasks ++ [.co c], waiting := Function.update s.waiting c false } :
      WorkerLoop F).Orderly := by
  have cos := s.queuedCos_co c
  refine ⟨orderly.at_pc, orderly.running_iff, orderly.coFunc, ?_, ?_, ?_, orderly.fresh,
    orderly.first, orderly.idle⟩
  · intro k queued
    rw [queuedCos, cos] at queued
    rcases List.mem_append.mp queued with before | last
    · have other : k ≠ c := by
        rintro rfl
        exact not_queued before
      obtain ⟨suspended', positive', not_waiting⟩ := orderly.queued k before
      exact ⟨suspended', positive', (Function.update_of_ne other _ _).trans not_waiting⟩
    · cases List.mem_singleton.mp last
      exact ⟨suspended, positive, Function.update_self _ _ _⟩
  · rw [queuedCos, cos]
    exact List.nodup_append.mpr ⟨orderly.once, List.nodup_singleton c, by
      rintro k before _ last rfl
      exact not_queued (List.mem_singleton.mp last ▸ before)⟩
  · intro k is_waiting
    have other : k ≠ c := by
      rintro rfl
      cases (Function.update_self k false s.waiting).symm.trans is_waiting
    exact orderly.waits k ((Function.update_of_ne other _ _).symm.trans is_waiting)

/-- Every step has a result and keeps the worker orderly. -/
theorem step_orderly {e : LoopLabel F} (orderly : s.Orderly) (enabled : s.Enabled e) :
    ∃ s', s.step e = some s' ∧ s'.Orderly ∧
      s'.started ++ s'.queuedFuncs = (s.started ++ s.queuedFuncs) ++ e.queues := by
  cases e with
  | addTask f =>
      have cos := s.queuedCos_func f
      refine ⟨_, rfl, ⟨orderly.at_pc, orderly.running_iff, orderly.coFunc, ?_, ?_, orderly.waits,
        orderly.fresh, orderly.first, orderly.idle⟩, ?_⟩
      · intro c queued
        exact orderly.queued c (cos ▸ queued)
      · change ((s.tasks ++ [Task.func f]).filterMap Task.co?).Nodup
        rw [cos]
        exact orderly.once
      · change s.started ++ (s.tasks ++ [Task.func f]).filterMap Task.func? = _
        rw [queuedFuncs_func, ← List.append_assoc]
        rfl
  | arrive c =>
      obtain ⟨suspended, positive⟩ := orderly.waits c enabled
      have not_queued : c ∉ s.queuedCos := by
        intro queued
        have not_waiting := (orderly.queued c queued).2.2
        rw [enabled] at not_waiting
        cases not_waiting
      refine ⟨_, rfl, orderly.queue suspended positive not_queued, ?_⟩
      change s.started ++ (s.tasks ++ [Task.co c]).filterMap Task.func? = _
      rw [queuedFuncs_co]
      exact (List.append_nil _).symm
  | look =>
      obtain ⟨s', ran, orderly', same⟩ : ∃ s', s.look = some s' ∧ s'.Orderly ∧ s.SameFuncs s' := by
        cases tasks : s.tasks with
        | nil =>
            have looks : s.look = s.runIdle := by rw [look, tasks]
            rw [looks]
            exact runIdle_orderly orderly enabled tasks
        | cons task rest =>
            cases task with
            | co c => exact look_co orderly enabled tasks
            | func f => exact look_func orderly enabled tasks
      exact ⟨s', ran, orderly', same.append_nil⟩
  | suspend =>
      obtain ⟨c, running⟩ := Option.isSome_iff_exists.mp enabled
      obtain ⟨cur, positive⟩ := cur_of_running running
      obtain ⟨orderly', same⟩ := yield_orderly orderly cur
        (fun k other => Function.update_of_ne other true s.waiting) fun _ => positive
      exact ⟨_, Option.bind_eq_some_iff.mpr ⟨c, running, Option.bind_eq_some_iff.mpr
        ⟨_, yieldToSuspend_eq orderly cur, rfl⟩⟩, orderly', same.append_nil⟩
  | returns =>
      obtain ⟨c, running⟩ := Option.isSome_iff_exists.mp enabled
      obtain ⟨cur, positive⟩ := cur_of_running running
      obtain ⟨orderly', same⟩ := exit_orderly orderly cur false fun _ => rfl
      exact ⟨_, Option.bind_eq_some_iff.mpr ⟨c, running, rfl⟩, orderly', same.append_nil⟩
  | throws =>
      obtain ⟨c, running⟩ := Option.isSome_iff_exists.mp enabled
      obtain ⟨cur, positive⟩ := cur_of_running running
      obtain ⟨orderly', same⟩ := exit_orderly orderly cur true fun zero => absurd zero positive
      exact ⟨_, Option.bind_eq_some_iff.mpr ⟨c, running, rfl⟩, orderly', same.append_nil⟩
  | idleYields =>
      obtain ⟨orderly', same⟩ := yield_orderly orderly enabled (fun _ _ => rfl)
        fun waits => (orderly.waits 0 waits).2
      exact ⟨_, Option.bind_eq_some_iff.mpr ⟨_, yieldToSuspend_eq orderly enabled, rfl⟩, orderly',
        same.append_nil⟩
  | idleReturns =>
      obtain ⟨orderly', same⟩ := exit_orderly orderly enabled.1 false fun _ => rfl
      exact ⟨_, rfl, orderly', same.append_nil⟩

/-! ## Exceptions -/

end WorkerLoop

/-- A coroutine that has returned in place of one that has thrown. -/
def CoroutineData.calmed {F : Type} (co : CoroutineData F) : CoroutineData F :=
  if co.state = .EXCEPT then { state := .DONE } else co

/-- A return in place of an exception. -/
def LoopLabel.calmed {F : Type} : LoopLabel F → LoopLabel F
  | .throws => .returns
  | e => e

namespace WorkerLoop

variable {F : Type} {s s' : WorkerLoop F} {c : Nat}

/-- The worker as it would be if no function had thrown. -/
def calmed (s : WorkerLoop F) : WorkerLoop F := { s with cos := fun c => (s.cos c).calmed }

theorem state_calmed (s : WorkerLoop F) (c : Nat) :
    s.calmed.state c = if s.state c = .EXCEPT then .DONE else s.state c := by
  change (if s.state c = .EXCEPT then ({ state := .DONE } : CoroutineData F) else s.cos c).state = _
  split
  · rfl
  · rfl

theorem setCo_calmed (s : WorkerLoop F) (c : Nat) (co : CoroutineData F) :
    (s.setCo c co).calmed = s.calmed.setCo c co.calmed := by
  have cos : (fun k => (Function.update s.cos c co k).calmed) =
      Function.update (fun k => (s.cos k).calmed) c co.calmed := by
    funext k
    by_cases here : k = c
    · rw [here, Function.update_self, Function.update_self]
    · rw [Function.update_of_ne here, Function.update_of_ne here]
  rw [calmed, setCo, calmed, setCo]
  simp only [cos]

theorem cos_calmed (calm : s.state c ≠ .EXCEPT) : s.calmed.cos c = s.cos c := if_neg calm

theorem setState_calmed (calm : s.state c ≠ .EXCEPT) {x : CoState} (later : x ≠ .EXCEPT) :
    (s.setState c x).calmed = s.calmed.setState c x := by
  have co : ({ s.cos c with state := x } : CoroutineData F).calmed = { s.cos c with state := x } :=
    if_neg later
  rw [setState, setState, setCo_calmed, co, cos_calmed calm]

theorem resume_calmed (ran : s.resume c = some s') : s.calmed.resume c = some s'.calmed := by
  have same := s.state_calmed c
  rw [resume] at ran
  split at ran
  · rename_i init
    cases ran
    have calm : s.state c ≠ .EXCEPT := by
      rw [init]
      exact CoState.noConfusion
    rw [if_neg calm, init] at same
    rw [resume_init same, cos_calmed calm]
    have running : (s.setState c .RUNNING).calmed = s.calmed.setState c .RUNNING :=
      setState_calmed calm CoState.noConfusion
    exact congrArg (fun t : WorkerLoop F => some { t with
      cur := some c, started := s.started ++ (s.cos c).func.toList }) running.symm
  · rename_i suspended
    cases ran
    have calm : s.state c ≠ .EXCEPT := by
      rw [suspended]
      exact CoState.noConfusion
    rw [if_neg calm, suspended] at same
    rw [resume_suspended same]
    have running : (s.setState c .RUNNING).calmed = s.calmed.setState c .RUNNING :=
      setState_calmed calm CoState.noConfusion
    exact congrArg (fun t : WorkerLoop F => some { t with cur := some c }) running.symm
  · cases ran

theorem reuse_calmed {f : F} (ran : s.reuse c f = some s') :
    s.calmed.reuse c f = some s'.calmed := by
  rw [reuse] at ran
  split at ran
  · rename_i ready
    cases ran
    have ready' : s.calmed.state c = .INIT ∨ s.calmed.state c = .DONE ∨
        s.calmed.state c = .EXCEPT := by
      rw [state_calmed]
      split
      · exact Or.inr (Or.inl rfl)
      · exact ready
    rw [reuse, if_pos ready', setCo_calmed]
    rfl
  · cases ran

theorem runIdle_calmed (ran : s.runIdle = some s') : s.calmed.runIdle = some s'.calmed := by
  rw [runIdle] at ran
  split at ran
  · rename_i done
    cases ran
    have done' : s.calmed.state 0 = .DONE := by
      rw [state_calmed, done]
      rfl
    rw [runIdle, if_pos done']
    rfl
  · rename_i not_done
    obtain ⟨t, resumes, ran⟩ := Option.bind_eq_some_iff.mp ran
    cases ran
    have not_done' : s.calmed.state 0 ≠ .DONE := by
      rw [state_calmed]
      split
      · rename_i except
        rw [resume, except] at resumes
        cases resumes
      · exact not_done
    rw [runIdle, if_neg not_done']
    exact Option.bind_eq_some_iff.mpr ⟨_, resume_calmed resumes, rfl⟩

theorem look_calmed (ran : s.look = some s') : s.calmed.look = some s'.calmed := by
  have same_tasks : s.calmed.tasks = s.tasks := rfl
  cases tasks : s.tasks with
  | nil =>
      rw [look, tasks] at ran
      rw [look, same_tasks, tasks]
      exact runIdle_calmed ran
  | cons task rest =>
      cases task with
      | co c =>
          simp only [look, tasks] at ran
          simp only [look, same_tasks, tasks]
          split at ran
          · rename_i goes_on
            obtain ⟨t, resumes, ran⟩ := Option.bind_eq_some_iff.mp ran
            cases ran
            have state : s.calmed.state c = s.state c := (state_calmed s c).trans (if_neg goes_on.2)
            have goes_on' : s.calmed.state c ≠ .DONE ∧ s.calmed.state c ≠ .EXCEPT := by
              rw [state]
              exact goes_on
            exact (if_pos goes_on').trans
              (Option.bind_eq_some_iff.mpr ⟨_, resume_calmed resumes, rfl⟩)
          · rename_i finished
            have finished' : ¬(s.calmed.state c ≠ .DONE ∧ s.calmed.state c ≠ .EXCEPT) := by
              rw [state_calmed]
              split
              · exact fun both => both.1 rfl
              · exact finished
            exact (if_neg finished').trans (runIdle_calmed ran)
      | func f =>
          have same_func : s.calmed.coFunc = s.coFunc := rfl
          cases is_func : s.coFunc with
          | some c =>
              rw [look_some tasks is_func] at ran
              rw [look_some (same_tasks.trans tasks) (same_func.trans is_func)]
              obtain ⟨t, reuses, ran⟩ := Option.bind_eq_some_iff.mp ran
              obtain ⟨u, resumes, ran⟩ := Option.bind_eq_some_iff.mp ran
              cases ran
              exact Option.bind_eq_some_iff.mpr ⟨_, reuse_calmed reuses,
                Option.bind_eq_some_iff.mpr ⟨_, resume_calmed resumes, rfl⟩⟩
          | none =>
              rw [look_none tasks is_func] at ran
              rw [look_none (same_tasks.trans tasks) (same_func.trans is_func)]
              obtain ⟨u, resumes, ran⟩ := Option.bind_eq_some_iff.mp ran
              cases ran
              have calm := resume_calmed (s := ({ s with
                tasks := rest, nextId := s.nextId + 1, coFunc := some s.nextId } :
                  WorkerLoop F).setCo s.nextId { func := some f }) resumes
              rw [setCo_calmed] at calm
              exact Option.bind_eq_some_iff.mpr ⟨_, calm, rfl⟩

theorem resumed_calmed (s : WorkerLoop F) : s.resumed.calmed = s.calmed.resumed := by
  have same : ∀ c, s.calmed.state c = .SUSPEND ↔ s.state c = .SUSPEND := by
    intro c
    rw [state_calmed]
    split
    · rename_i except
      rw [except]
      exact iff_of_false CoState.noConfusion CoState.noConfusion
    · exact Iff.rfl
  have same_pc : s.calmed.pc = s.pc := rfl
  have same_func : s.calmed.coFunc = s.coFunc := rfl
  rw [resumed, resumed, same_pc, same_func]
  split
  · simp only [same]
    rfl
  · rfl

theorem exit_calmed (s : WorkerLoop F) (c : Nat) (threw : Bool) :
    (s.exit c threw).calmed = s.calmed.exit c false := by
  have ended : (if threw then { s.cos c with state := .EXCEPT }
      else ({ state := .DONE } : CoroutineData F)).calmed = { state := .DONE } := by
    cases threw with
    | false => rfl
    | true => rfl
  have co := setCo_calmed s c
    (if threw then { s.cos c with state := .EXCEPT } else { state := .DONE })
  rw [ended] at co
  exact congrArg (fun t : WorkerLoop F => { t with cur := none }) co

theorem yield_calmed (ran : s.yieldToSuspend c = some s') :
    s.calmed.yieldToSuspend c = some s'.calmed := by
  rw [yieldToSuspend] at ran
  split at ran
  · rename_i running
    cases ran
    have calm : s.state c ≠ .EXCEPT := by
      rw [running]
      exact CoState.noConfusion
    have running' : s.calmed.state c = .RUNNING := by
      rw [state_calmed, if_neg calm, running]
    have suspended : (s.setState c .SUSPEND).calmed = s.calmed.setState c .SUSPEND :=
      setState_calmed calm CoState.noConfusion
    rw [yieldToSuspend, if_pos running', ← suspended]
    rfl
  · cases ran

theorem step_calmed {e : LoopLabel F} (ran : s.step e = some s') :
    s.calmed.step e.calmed = some s'.calmed := by
  cases e with
  | addTask f =>
      cases ran
      rfl
  | arrive c =>
      cases ran
      rfl
  | look => exact look_calmed ran
  | suspend =>
      obtain ⟨c, running, ran⟩ := Option.bind_eq_some_iff.mp ran
      obtain ⟨t, yields, ran⟩ := Option.bind_eq_some_iff.mp ran
      cases ran
      rw [resumed_calmed]
      exact Option.bind_eq_some_iff.mpr ⟨c, running,
        Option.bind_eq_some_iff.mpr ⟨_, yield_calmed yields, rfl⟩⟩
  | returns =>
      obtain ⟨c, running, ran⟩ := Option.bind_eq_some_iff.mp ran
      cases ran
      rw [resumed_calmed, exit_calmed]
      exact Option.bind_eq_some_iff.mpr ⟨c, running, rfl⟩
  | throws =>
      obtain ⟨c, running, ran⟩ := Option.bind_eq_some_iff.mp ran
      cases ran
      rw [resumed_calmed, exit_calmed]
      exact Option.bind_eq_some_iff.mpr ⟨c, running, rfl⟩
  | idleYields =>
      obtain ⟨t, yields, ran⟩ := Option.bind_eq_some_iff.mp ran
      cases ran
      rw [resumed_calmed]
      exact Option.bind_eq_some_iff.mpr ⟨_, yield_calmed yields, rfl⟩
  | idleReturns =>
      cases ran
      rw [resumed_calmed, exit_calmed]
      rfl

/-! ## Whole runs -/

/-- The functions that have been queued in a run, in order. -/
def queuedBy (es : List (LoopLabel F)) : List F := es.flatMap LoopLabel.queues

/-- What has been started and what is still queued is what has been queued. -/
theorem orderly_of_run {es : List (LoopLabel F)} (run : Lib.Run Step {} es s) :
    s.Orderly ∧ s.started ++ s.queuedFuncs = queuedBy es := by
  refine Lib.Run.historyInvariant (I := fun es (s : WorkerLoop F) =>
    s.Orderly ∧ s.started ++ s.queuedFuncs = queuedBy es) ⟨orderly_start, rfl⟩ ?_ run
  intro es s e s' ⟨orderly, funcs⟩ step
  obtain ⟨t, ran, orderly', funcs'⟩ := step_orderly orderly step.1
  cases step.2.symm.trans ran
  refine ⟨orderly', ?_⟩
  rw [funcs', funcs, queuedBy, queuedBy, List.flatMap_append, List.flatMap_singleton]

theorem run_calmed {es : List (LoopLabel F)} (run : Lib.Run Step {} es s) :
    Lib.Run Step {} (es.map LoopLabel.calmed) s.calmed := by
  induction run with
  | nil => exact Lib.Run.nil _
  | @snoc t u es e _ step ih =>
      rw [List.map_append]
      refine ih.snoc ⟨?_, step_calmed step.2⟩
      cases e with
      | _ => exact step.1

/-- In every run of a worker the functions that have been started are the first of
those queued, in order, and all of them when the queue is empty; the coroutines in
the queue have suspended, each is there once, and `coFunc` has ended when it gets a
function; no assertion fails; and the functions started are those that would have
been started if every exception had been a return. -/
theorem functions_start_in_order {es : List (LoopLabel F)} (run : Lib.Run Step {} es s) :
    s.started <+: queuedBy es ∧ (s.tasks = [] → s.started = queuedBy es) ∧
      ((∀ c ∈ s.queuedCos, s.state c = .SUSPEND) ∧ s.queuedCos.Nodup) ∧
      (s.pc = .look → ∀ c, s.coFunc = some c → s.Ended c) ∧
      (∀ e, s.Enabled e → (s.step e).isSome) ∧
      ∃ t : WorkerLoop F, Lib.Run Step {} (es.map LoopLabel.calmed) t ∧
        t.started = s.started ∧ t.tasks = s.tasks := by
  obtain ⟨orderly, funcs⟩ := orderly_of_run run
  refine ⟨⟨s.queuedFuncs, funcs⟩, fun empty => ?_,
    ⟨fun c queued => (orderly.queued c queued).1, orderly.once⟩, fun here c is_func => ?_,
    fun e enabled => ?_, s.calmed, run_calmed run, rfl, rfl⟩
  · rw [queuedFuncs, empty] at funcs
    rw [← funcs]
    exact (List.append_nil _).symm
  · refine (orderly.coFunc c is_func).2.resolve_left fun cur => ?_
    cases (orderly.quiet here).symm.trans cur
  · obtain ⟨s', ran, -⟩ := step_orderly orderly enabled
    rw [ran]
    rfl

/-- Two functions: the first throws, the second waits for an event and returns. -/
def throwThenWait : List (LoopLabel Nat) :=
  [.addTask 1, .addTask 2, .look, .throws, .look, .suspend, .look, .arrive 1, .idleYields, .look,
    .returns]

theorem throwThenWait_starts :
    ∃ s : WorkerLoop Nat, Lib.Run Step {} throwThenWait s ∧ s.tasks = [] ∧
      s.started = queuedBy throwThenWait ∧ s.started = [1, 2] := by
  have ends : (Lib.exec (fun (s : WorkerLoop Nat) e => if s.Enabled e then s.step e else none) {}
      throwThenWait).map (fun s => (s.tasks, s.started)) = some ([], [1, 2]) := by
    decide
  obtain ⟨s, ran, left⟩ := Option.map_eq_some_iff.mp ends
  obtain ⟨tasks, started⟩ := Prod.mk.inj left
  have run : Lib.Run Step {} throwThenWait s := by
    refine (Lib.run_of_exec ran).mono fun {s e t} (step : ite _ _ _ = some t) => ?_
    split at step
    · rename_i enabled
      exact ⟨enabled, step⟩
    · cases step
  exact ⟨s, run, tasks, (functions_start_in_order run).2.1 tasks, started⟩

end WorkerLoop

end Reyao
