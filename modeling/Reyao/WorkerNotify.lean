import Mathlib.Algebra.Order.Ring.Nat
import Reyao.Epoller
import Reyao.Lib.Run

/-!
# Waking a worker (`worker.h`, `worker.cc`, `epoller.cc`)

`Worker::run` takes tasks from its queue and, when there is none to run, blocks in
`epoll_wait`. Other threads add tasks under the mutex and then, outside of it,
write to the eventfd of the worker if they read that it polls.

A step is a section under the mutex, a write or a read of `polling_`, a write or a
read of the eventfd, or a turn of the worker's own loop. `addTask` calls made by
the coroutines of the worker are calls of a thread like all others.
-/

namespace Reyao

/-- An event `epoll_wait` reports to the worker: the eventfd, or a task that
`triggleEvent` queues. -/
inductive WorkerReport (C F : Type) : Type
  | eventfd
  | io (task : Option (Task C F))
  deriving DecidableEq

/-- Where the thread of a worker is. -/
inductive WorkerPc (C F : Type) : Type
  /-- At the head of the loop of `run`. -/
  | look
  | run (task : Task C F)
  /-- It has found nothing to run. -/
  | toIdle
  | canStop
  /-- In `wait`, before `polling_ = true`. -/
  | arm
  | enter
  | epoll_wait
  | returned (reports : List (WorkerReport C F))
  | expired (reports : List (WorkerReport C F))
  | handle (reports : List (WorkerReport C F))
  /-- Back in `run`, before `idle_ = false`. -/
  | leave
  | stopped
  deriving DecidableEq

/-- Where a thread that calls `addTask` is; `locked` in the overload for a range,
which calls `notify` under the mutex. -/
inductive CallerPc : Type
  | out
  | notify (locked : Bool)
  | write (locked : Bool)
  | unlock
  deriving DecidableEq

/-- The call has still to finish its `notify`. -/
def CallerPc.notifying : CallerPc → Bool
  | .notify _ => true
  | .write _ => true
  | _ => false

/-- A worker, its eventfd and the threads that add tasks. -/
structure Notice (T C F : Type) : Type where
  pc : WorkerPc C F := .look
  tasks : List (Task C F) := []
  /-- The coroutines in state `DONE` or `EXCEPT`. -/
  finished : C → Bool := fun _ => false
  idle : Bool := false
  /-- The idle coroutine is `DONE`. -/
  idleDone : Bool := false
  polling : Bool := false
  eventfd : Nat := 0
  mutex : Option T := none
  callers : T → CallerPc := fun _ => .out

inductive NoticeLabel (T C F : Type) : Type
  | addTask (t : T) (task : Option (Task C F))
  | addTasks (t : T) (tasks : List (Option (Task C F)))
  | readPolling (t : T)
  | writeEventfd (t : T)
  | unlock (t : T)
  | look
  | ran (c : C) (done : Bool)
  | idle
  | canStop (running : Bool) (timeout : Int)
  | arm
  | enter
  | wake (reports : List (WorkerReport C F))
  | interrupted
  | disarm
  | expire (funcs : List F)
  | handle
  | leave

namespace Notice

variable {T C F : Type}

/-- A function, or a coroutine that has not ended. -/
def runnable (s : Notice T C F) : Task C F → Bool
  | .co c => !s.finished c
  | .func _ => true

/-- `addTaskNoLock(cf)`; an empty task is dropped. -/
def addTaskNoLock (s : Notice T C F) (task : Option (Task C F)) : Bool × Notice T C F :=
  (s.tasks.isEmpty || s.idle, { s with tasks := s.tasks ++ task.toList })

/-- The loop of `addTask(begin, end)`. -/
def addRange (s : Notice T C F) : List (Option (Task C F)) → Bool × Notice T C F
  | [] => (false, s)
  | task :: rest =>
      let (need, s) := s.addTaskNoLock task
      let (more, s) := s.addRange rest
      (more || need, s)

/-- A write of 1 to the eventfd, which refuses to pass its largest value. -/
def bump (eventfd : Nat) : Nat := if eventfd + 1 < 2 ^ 64 - 1 then eventfd + 1 else eventfd

/-- The end of `notify`. -/
def CallerPc.afterNotify (locked : Bool) : CallerPc := if locked then .unlock else .out

variable [DecidableEq T] [DecidableEq C] [DecidableEq F]

def step (s : Notice T C F) : NoticeLabel T C F → Option (Notice T C F)
  | .addTask t task =>
      if s.callers t = .out ∧ s.mutex = none then
        let (need, s) := s.addTaskNoLock task
        some { s with callers := Function.update s.callers t (if need then .notify false else .out) }
      else none
  | .addTasks t tasks =>
      if s.callers t = .out ∧ s.mutex = none then
        let (need, s) := s.addRange tasks
        some { s with
          mutex := some t
          callers := Function.update s.callers t (if need then .notify true else .unlock) }
      else none
  | .readPolling t =>
      match s.callers t with
      | .notify locked => some { s with
          callers := Function.update s.callers t
            (if s.polling then .write locked else CallerPc.afterNotify locked) }
      | _ => none
  | .writeEventfd t =>
      match s.callers t with
      | .write locked => some { s with
          eventfd := bump s.eventfd
          callers := Function.update s.callers t (CallerPc.afterNotify locked) }
      | _ => none
  | .unlock t =>
      if s.callers t = .unlock then
        some { s with mutex := none, callers := Function.update s.callers t .out }
      else none
  | .look =>
      if s.pc = .look ∧ s.mutex = none then
        match s.tasks with
        | [] => some { s with pc := .toIdle }
        | task :: rest =>
            some { s with tasks := rest, pc := if s.runnable task then .run task else .toIdle }
      else none
  | .ran c done =>
      -- a function runs on a coroutine of its own
      match s.pc with
      | .run (.co c') =>
          if c = c' then some { s with
            pc := .look, finished := Function.update s.finished c done } else none
      | .run (.func _) => some { s with pc := .look, finished := Function.update s.finished c done }
      | _ => none
  | .idle =>
      if s.pc = .toIdle then
        if s.idleDone then some { s with pc := .stopped }
        else some { s with idle := true, pc := .canStop }
      else none
  | .canStop running timeout =>
      if s.pc = .canStop ∧ s.mutex = none then
        if !running && s.tasks.isEmpty && timeout == -1 then
          some { s with idleDone := true, pc := .leave }
        else some { s with pc := .arm }
      else none
  | .arm => if s.pc = .arm then some { s with polling := true, pc := .enter } else none
  | .enter => if s.pc = .enter then some { s with pc := .epoll_wait } else none
  | .wake reports =>
      if s.pc = .epoll_wait ∧ (.eventfd ∈ reports → 0 < s.eventfd) then
        some { s with pc := .returned reports }
      else none
  | .interrupted => if s.pc = .epoll_wait then some { s with pc := .arm } else none
  | .disarm =>
      match s.pc with
      | .returned reports => some { s with polling := false, pc := .expired reports }
      | _ => none
  | .expire funcs =>
      match s.pc with
      | .expired reports =>
          if s.mutex = none then
            let (_, s) := s.addRange (funcs.map fun f => some (.func f))
            some { s with pc := .handle reports }
          else none
      | _ => none
  | .handle =>
      match s.pc with
      | .handle [] => some { s with pc := .leave }
      | .handle (.eventfd :: reports) => some { s with eventfd := 0, pc := .handle reports }
      | .handle (.io task :: reports) =>
          if s.mutex = none then
            let (_, s) := s.addTaskNoLock task
            some { s with pc := .handle reports }
          else none
      | _ => none
  | .leave => if s.pc = .leave then some { s with idle := false, pc := .look } else none

end Notice

/-- On the way from an empty queue to `polling_ = true`. -/
def WorkerPc.gap {C F : Type} : WorkerPc C F → Bool
  | .toIdle => true
  | .canStop => true
  | .arm => true
  | _ => false

/-- From an empty queue to the return of `epoll_wait`. -/
def WorkerPc.asleep {C F : Type} : WorkerPc C F → Bool
  | .enter => true
  | .epoll_wait => true
  | pc => pc.gap

theorem WorkerPc.of_asleep {C F : Type} {pc : WorkerPc C F} (asleep : pc.asleep = true)
    (outside : pc.gap = false) : pc = .enter ∨ pc = .epoll_wait := by
  cases pc with
  | enter => exact Or.inl rfl
  | epoll_wait => exact Or.inr rfl
  | _ =>
      rw [WorkerPc.asleep] at asleep
      · rw [asleep] at outside
        cases outside
      · simp
      · simp

namespace Notice

variable {T C F : Type} {s s' : Notice T C F}

/-- A wake-up is under way: the eventfd can be read, or a call has still to finish
its `notify`. -/
def Signalled (s : Notice T C F) : Prop :=
  0 < s.eventfd ∨ ∃ t, (s.callers t).notifying = true

/-- What the steps keep that lose no wake-up. -/
structure Kept (s : Notice T C F) : Prop where
  polls : s.pc = .enter ∨ s.pc = .epoll_wait → s.polling = true
  idles : s.pc.asleep = true → s.pc ≠ .toIdle → s.idle = true
  signalled : s.pc.asleep = true → s.tasks ≠ [] → s.Signalled

/-- No call reads that the worker does not poll while the worker is on its way from
an empty queue to `polling_ = true`, and the worker takes a finished coroutine only
as the last task of its queue. -/
def NoGap (s : Notice T C F) : NoticeLabel T C F → Prop
  | .readPolling _ => s.polling = true ∨ s.pc.gap = false
  | .look => ∀ task rest, s.tasks = task :: rest → s.runnable task = false → rest = []
  | _ => True

theorem Kept.awake (awake : s.pc.asleep = false) : s.Kept := by
  have not_asleep : s.pc.asleep ≠ true := by
    rw [awake]
    exact Bool.false_ne_true
  refine ⟨fun polls => ?_, fun asleep => absurd asleep not_asleep,
    fun asleep => absurd asleep not_asleep⟩
  rcases polls with enters | waits
  · rw [enters] at awake
    cases awake
  · rw [waits] at awake
    cases awake

/-- A step further on the way to `epoll_wait`. -/
theorem Kept.deeper (kept : s.Kept) (asleep : s.pc.asleep = true) {pc : WorkerPc C F}
    {idle polling : Bool} (polls : pc = .enter ∨ pc = .epoll_wait → polling = true)
    (idles : pc ≠ .toIdle → idle = true) :
    ({ s with pc := pc, idle := idle, polling := polling } : Notice T C F).Kept :=
  ⟨polls, fun _ => idles, fun _ queued => kept.signalled asleep queued⟩

/-- Once past `idle_ = true`, the worker is idle all the way. -/
theorem Kept.further (kept : s.Kept) (asleep : s.pc.asleep = true) (past : s.pc ≠ .toIdle)
    {pc : WorkerPc C F} {polling : Bool}
    (polls : pc = .enter ∨ pc = .epoll_wait → polling = true) :
    ({ s with pc := pc, polling := polling } : Notice T C F).Kept :=
  kept.deeper asleep polls fun _ => kept.idles asleep past

/-- Nothing is queued when the worker starts on its way. -/
theorem Kept.empty {pc : WorkerPc C F} (here : pc = .toIdle) :
    ({ s with pc := pc, tasks := [] } : Notice T C F).Kept := by
  subst here
  refine ⟨fun polls => ?_, fun _ other => absurd rfl other, fun _ queued => absurd rfl queued⟩
  rcases polls with enters | waits
  · cases enters
  · cases waits

/-- A sleeping worker polls unless it is in the gap. -/
theorem Kept.polls_of_no_gap (kept : s.Kept) (no_gap : s.polling = true ∨ s.pc.gap = false)
    (asleep : s.pc.asleep = true) : s.polling = true := by
  rcases no_gap with polls | outside
  · exact polls
  · exact kept.polls (WorkerPc.of_asleep asleep outside)

theorem bump_pos (eventfd : Nat) : 0 < bump eventfd := by
  rw [bump]
  split
  · omega
  · omega

/-- Who does not see a reason to notify adds to tasks that are there. -/
theorem addRange_spec (tasks : List (Option (Task C F))) (s : Notice T C F) :
    ∃ queue, (s.addRange tasks).2 = { s with tasks := queue } ∧
      ((s.addRange tasks).1 = false → queue ≠ [] → s.tasks ≠ []) := by
  induction tasks generalizing s with
  | nil => exact ⟨s.tasks, rfl, fun _ => id⟩
  | cons task rest ih =>
      obtain ⟨queue, left, -⟩ := ih (s.addTaskNoLock task).2
      refine ⟨queue, left, fun quiet _ empty => ?_⟩
      have first : (s.tasks.isEmpty || s.idle) = false := (Bool.or_eq_false_iff.mp quiet).2
      rw [empty] at first
      cases first

variable [DecidableEq T]

/-- A call that does not stop notifying leaves the wake-up under way. -/
theorem Signalled.update {t : T} {pc : CallerPc} (signalled : s.Signalled)
    (goes_on : (s.callers t).notifying = true → pc.notifying = true) (same : s'.eventfd = s.eventfd)
    (callers : s'.callers = Function.update s.callers t pc) : s'.Signalled := by
  rcases signalled with readable | ⟨t', notifying⟩
  · left
    rw [same]
    exact readable
  · right
    rw [callers]
    by_cases here : t' = t
    · subst here
      refine ⟨t', ?_⟩
      rw [Function.update_self]
      exact goes_on notifying
    · refine ⟨t', ?_⟩
      rw [Function.update_of_ne here]
      exact notifying

/-- What a call leaves that does not touch the queue, and notifies as long as the worker
sleeps. -/
theorem Kept.called (kept : s.Kept) {t : T} {pc : CallerPc} {mutex : Option T}
    (goes_on : s.pc.asleep = true → (s.callers t).notifying = true → pc.notifying = true) :
    ({ s with mutex := mutex, callers := Function.update s.callers t pc } : Notice T C F).Kept :=
  ⟨kept.polls, kept.idles,
    fun asleep queued => (kept.signalled asleep queued).update (goes_on asleep) rfl rfl⟩

/-- What a call of `addTask` under the mutex leaves. -/
theorem Kept.added (kept : s.Kept) {t : T} (out : s.callers t = .out)
    {queue : List (Task C F)} {need : Bool} (quiet : need = false → queue ≠ [] → s.tasks ≠ [])
    {mutex : Option T} {pc : CallerPc} (notifies : need = true → pc.notifying = true) :
    ({ s with tasks := queue, mutex := mutex,
              callers := Function.update s.callers t pc } : Notice T C F).Kept := by
  refine ⟨kept.polls, kept.idles, fun asleep queued => ?_⟩
  cases need with
  | true =>
      refine Or.inr ⟨t, ?_⟩
      change (Function.update s.callers t pc t).notifying = true
      rw [Function.update_self]
      exact notifies rfl
  | false =>
      refine (kept.signalled asleep (quiet rfl queued)).update (fun notifying => ?_) rfl rfl
      rw [out] at notifying
      cases notifying

variable [DecidableEq C] [DecidableEq F]

/-! ### The ways a step can go -/

/-- The steps of a call of `addTask`. -/
inductive Calls (s : Notice T C F) : NoticeLabel T C F → Notice T C F → Prop
  | addTask {t : T} {task : Option (Task C F)} : s.callers t = .out → s.mutex = none →
      Calls s (.addTask t task) { s with
        tasks := s.tasks ++ task.toList
        callers := Function.update s.callers t
          (if s.tasks.isEmpty || s.idle then .notify false else .out) }
  | addTasks {t : T} {tasks : List (Option (Task C F))} {queue : List (Task C F)} :
      s.callers t = .out → s.mutex = none → (s.addRange tasks).2 = { s with tasks := queue } →
      ((s.addRange tasks).1 = false → queue ≠ [] → s.tasks ≠ []) →
      Calls s (.addTasks t tasks) { s with
        tasks := queue
        mutex := some t
        callers := Function.update s.callers t
          (if (s.addRange tasks).1 then .notify true else .unlock) }
  | readPolling {t : T} {locked : Bool} : s.callers t = .notify locked →
      Calls s (.readPolling t) { s with
        callers := Function.update s.callers t
          (if s.polling then .write locked else CallerPc.afterNotify locked) }
  | writeEventfd {t : T} {locked : Bool} : s.callers t = .write locked →
      Calls s (.writeEventfd t) { s with
        eventfd := bump s.eventfd
        callers := Function.update s.callers t (CallerPc.afterNotify locked) }
  | unlock {t : T} : s.callers t = .unlock →
      Calls s (.unlock t) { s with mutex := none, callers := Function.update s.callers t .out }

/-- The steps of the worker on its way to `epoll_wait`. -/
inductive Sinks (s : Notice T C F) : NoticeLabel T C F → Notice T C F → Prop
  | looks : s.pc = .look → s.mutex = none → s.tasks = [] → Sinks s .look { s with pc := .toIdle }
  | skips {task : Task C F} {rest : List (Task C F)} : s.pc = .look → s.mutex = none →
      s.tasks = task :: rest → s.runnable task = false →
      Sinks s .look { s with tasks := rest, pc := .toIdle }
  | idle : s.pc = .toIdle → s.idleDone = false →
      Sinks s .idle { s with idle := true, pc := .canStop }
  | canStop {running : Bool} {timeout : Int} : s.pc = .canStop → s.mutex = none →
      (!running && s.tasks.isEmpty && timeout == -1) = false →
      Sinks s (.canStop running timeout) { s with pc := .arm }
  | arm : s.pc = .arm → Sinks s .arm { s with polling := true, pc := .enter }
  | enter : s.pc = .enter → Sinks s .enter { s with pc := .epoll_wait }
  | interrupted : s.pc = .epoll_wait → Sinks s .interrupted { s with pc := .arm }

/-- The other steps of the worker. -/
inductive Rises (s : Notice T C F) : NoticeLabel T C F → Notice T C F → Prop
  | takes {task : Task C F} {rest : List (Task C F)} : s.pc = .look → s.mutex = none →
      s.tasks = task :: rest → s.runnable task = true →
      Rises s .look { s with tasks := rest, pc := .run task }
  | ran {c : C} {done : Bool} {task : Task C F} : s.pc = .run task →
      (∀ c', task = .co c' → c = c') → Rises s (.ran c done) { s with
        pc := .look, finished := Function.update s.finished c done }
  | stops : s.pc = .toIdle → s.idleDone = true → Rises s .idle { s with pc := .stopped }
  | canStop {running : Bool} {timeout : Int} : s.pc = .canStop → s.mutex = none →
      (!running && s.tasks.isEmpty && timeout == -1) = true →
      Rises s (.canStop running timeout) { s with idleDone := true, pc := .leave }
  | wake {reports : List (WorkerReport C F)} : s.pc = .epoll_wait →
      (.eventfd ∈ reports → 0 < s.eventfd) →
      Rises s (.wake reports) { s with pc := .returned reports }
  | disarm {reports : List (WorkerReport C F)} : s.pc = .returned reports →
      Rises s .disarm { s with polling := false, pc := .expired reports }
  | expire {funcs : List F} {reports : List (WorkerReport C F)} {queue : List (Task C F)} :
      s.pc = .expired reports → s.mutex = none →
      (s.addRange (funcs.map fun f => some (.func f))).2 = { s with tasks := queue } →
      Rises s (.expire funcs) { s with tasks := queue, pc := .handle reports }
  | handled : s.pc = .handle [] → Rises s .handle { s with pc := .leave }
  | readEventfd {reports : List (WorkerReport C F)} : s.pc = .handle (.eventfd :: reports) →
      Rises s .handle { s with eventfd := 0, pc := .handle reports }
  | triggers {task : Option (Task C F)} {reports : List (WorkerReport C F)} :
      s.pc = .handle (.io task :: reports) → s.mutex = none →
      Rises s .handle { s with tasks := s.tasks ++ task.toList, pc := .handle reports }
  | leave : s.pc = .leave → Rises s .leave { s with idle := false, pc := .look }

theorem goes_of_look (ran : s.step .look = some s') : s.Sinks .look s' ∨ s.Rises .look s' := by
  simp only [step] at ran
  obtain ⟨⟨here, free⟩, looks⟩ := Option.ite_none_right_eq_some.mp ran
  split at looks
  · rename_i empty
    cases looks
    exact Or.inl (.looks here free empty)
  · rename_i task rest queue
    cases looks
    cases runs : s.runnable task with
    | true => exact Or.inr (.takes here free queue runs)
    | false => exact Or.inl (.skips here free queue runs)

theorem rises_of_ran {c : C} {done : Bool} (ran : s.step (.ran c done) = some s') :
    s.Rises (.ran c done) s' := by
  simp only [step] at ran
  split at ran
  · rename_i c' here
    obtain ⟨rfl, is⟩ := Option.ite_none_right_eq_some.mp ran
    cases is
    refine .ran here fun c'' same => ?_
    cases same
    rfl
  · rename_i here
    cases ran
    exact .ran here nofun
  · cases ran

theorem goes_of_idle (ran : s.step .idle = some s') : s.Sinks .idle s' ∨ s.Rises .idle s' := by
  obtain ⟨here, idles⟩ := Option.ite_none_right_eq_some.mp ran
  split at idles
  · rename_i done
    cases idles
    exact Or.inr (.stops here done)
  · rename_i going
    cases idles
    exact Or.inl (.idle here (Bool.eq_false_iff.mpr going))

theorem goes_of_canStop {running : Bool} {timeout : Int}
    (ran : s.step (.canStop running timeout) = some s') :
    s.Sinks (.canStop running timeout) s' ∨ s.Rises (.canStop running timeout) s' := by
  obtain ⟨⟨here, free⟩, asks⟩ := Option.ite_none_right_eq_some.mp ran
  split at asks
  · rename_i stops
    cases asks
    exact Or.inr (.canStop here free stops)
  · rename_i stays
    cases asks
    exact Or.inl (.canStop here free (Bool.eq_false_iff.mpr stays))

theorem rises_of_expire {funcs : List F} (ran : s.step (.expire funcs) = some s') :
    s.Rises (.expire funcs) s' := by
  simp only [step] at ran
  split at ran
  · rename_i reports here
    obtain ⟨free, is⟩ := Option.ite_none_right_eq_some.mp ran
    obtain ⟨queue, left, -⟩ := s.addRange_spec (funcs.map fun f => some (.func f))
    rw [left] at is
    cases is
    exact .expire here free left
  · cases ran

theorem rises_of_handle (ran : s.step .handle = some s') : s.Rises .handle s' := by
  simp only [step] at ran
  split at ran
  · rename_i here
    cases ran
    exact .handled here
  · rename_i reports here
    cases ran
    exact .readEventfd here
  · rename_i task reports here
    obtain ⟨free, is⟩ := Option.ite_none_right_eq_some.mp ran
    cases is
    exact .triggers here free
  · cases ran

theorem goes_of_step {e : NoticeLabel T C F} (ran : s.step e = some s') :
    s.Calls e s' ∨ s.Sinks e s' ∨ s.Rises e s' := by
  cases e with
  | addTask t task =>
      obtain ⟨⟨out, free⟩, is⟩ := Option.ite_none_right_eq_some.mp ran
      cases is
      exact Or.inl (.addTask out free)
  | addTasks t tasks =>
      obtain ⟨⟨out, free⟩, is⟩ := Option.ite_none_right_eq_some.mp ran
      obtain ⟨queue, left, quiet⟩ := s.addRange_spec tasks
      rw [left] at is
      cases is
      exact Or.inl (.addTasks out free left quiet)
  | readPolling t =>
      simp only [step] at ran
      split at ran
      · rename_i locked notifies
        cases ran
        exact Or.inl (.readPolling notifies)
      · cases ran
  | writeEventfd t =>
      simp only [step] at ran
      split at ran
      · rename_i locked writes
        cases ran
        exact Or.inl (.writeEventfd writes)
      · cases ran
  | unlock t =>
      obtain ⟨unlocks, is⟩ := Option.ite_none_right_eq_some.mp ran
      cases is
      exact Or.inl (.unlock unlocks)
  | look => exact Or.inr (goes_of_look ran)
  | ran c done => exact Or.inr (Or.inr (rises_of_ran ran))
  | idle => exact Or.inr (goes_of_idle ran)
  | canStop running timeout => exact Or.inr (goes_of_canStop ran)
  | arm =>
      obtain ⟨here, is⟩ := Option.ite_none_right_eq_some.mp ran
      cases is
      exact Or.inr (Or.inl (.arm here))
  | enter =>
      obtain ⟨here, is⟩ := Option.ite_none_right_eq_some.mp ran
      cases is
      exact Or.inr (Or.inl (.enter here))
  | wake reports =>
      obtain ⟨⟨here, readable⟩, is⟩ := Option.ite_none_right_eq_some.mp ran
      cases is
      exact Or.inr (Or.inr (.wake here readable))
  | interrupted =>
      obtain ⟨here, is⟩ := Option.ite_none_right_eq_some.mp ran
      cases is
      exact Or.inr (Or.inl (.interrupted here))
  | disarm =>
      simp only [step] at ran
      split at ran
      · rename_i reports here
        cases ran
        exact Or.inr (Or.inr (.disarm here))
      · cases ran
  | expire funcs => exact Or.inr (Or.inr (rises_of_expire ran))
  | handle => exact Or.inr (Or.inr (rises_of_handle ran))
  | leave =>
      obtain ⟨here, is⟩ := Option.ite_none_right_eq_some.mp ran
      cases is
      exact Or.inr (Or.inr (.leave here))

/-! ### The invariant -/

omit [DecidableEq C] [DecidableEq F] in
/-- A call that adds tasks notifies, or the tasks are not the first. -/
theorem Kept.calls {e : NoticeLabel T C F} (kept : s.Kept) (no_gap : s.NoGap e)
    (goes : s.Calls e s') : s'.Kept := by
  cases goes with
  | @addTask t task out =>
      have quiet : (s.tasks.isEmpty || s.idle) = false → s.tasks ++ task.toList ≠ [] →
          s.tasks ≠ [] := by
        intro quiet _ empty
        rw [empty] at quiet
        cases quiet
      exact kept.added out quiet fun need => by simp [need, CallerPc.notifying]
  | addTasks out _ _ quiet =>
      exact kept.added out quiet fun need => by simp [need, CallerPc.notifying]
  | readPolling =>
      exact kept.called fun asleep _ => by
        rw [kept.polls_of_no_gap no_gap asleep]
        rfl
  | writeEventfd => exact ⟨kept.polls, kept.idles, fun _ _ => Or.inl (bump_pos _)⟩
  | unlock unlocks =>
      refine kept.called fun _ notifying => ?_
      rw [unlocks] at notifying
      cases notifying

omit [DecidableEq T] [DecidableEq C] [DecidableEq F] in
/-- The worker sets out with an empty queue. -/
theorem Kept.sinks {e : NoticeLabel T C F} (kept : s.Kept) (no_gap : s.NoGap e)
    (goes : s.Sinks e s') : s'.Kept := by
  cases goes with
  | looks _ _ empty =>
      have left : ({ s with pc := .toIdle, tasks := [] } : Notice T C F).Kept := Kept.empty rfl
      rwa [← empty] at left
  | skips _ _ queue ended =>
      rw [no_gap _ _ queue ended]
      exact Kept.empty rfl
  | idle here => exact kept.deeper (by rw [here]; rfl) (by simp) fun _ => rfl
  | canStop here => exact kept.further (by rw [here]; rfl) (by rw [here]; simp) (by simp)
  | arm here => exact kept.further (by rw [here]; rfl) (by rw [here]; simp) fun _ => rfl
  | enter here =>
      exact kept.further (by rw [here]; rfl) (by rw [here]; simp) fun _ => kept.polls (Or.inl here)
  | interrupted here => exact kept.further (by rw [here]; rfl) (by rw [here]; simp) (by simp)

omit [DecidableEq T] [DecidableEq F] in
/-- After any other step of it the worker is awake. -/
theorem Rises.awake {e : NoticeLabel T C F} (goes : s.Rises e s') : s'.pc.asleep = false := by
  cases goes <;> rfl

theorem step_kept {e : NoticeLabel T C F} (kept : s.Kept) (no_gap : s.NoGap e)
    (ran : s.step e = some s') : s'.Kept := by
  rcases goes_of_step ran with call | sinks | rises
  · exact kept.calls no_gap call
  · exact kept.sinks no_gap sinks
  · exact Kept.awake rises.awake

/-- The worker does not block without a readable eventfd while it has a task to run. -/
def Readable (s : Notice T C F) : Prop :=
  s.pc = .epoll_wait → (∃ task ∈ s.tasks, s.runnable task = true) → 0 < s.eventfd

/-- In every run without the gap, a worker that blocks while a task can run has a
wake-up under way. -/
theorem wakeup_signalled {es : List (NoticeLabel T C F)}
    (run : Lib.Run (Lib.Guarded NoGap (Lib.Steps step)) {} es s) (blocked : s.pc = .epoll_wait)
    (queued : ∃ task ∈ s.tasks, s.runnable task = true) : s.Signalled := by
  have start : ({} : Notice T C F).Kept := Kept.awake rfl
  have kept : s.Kept := run.invariant start fun kept step => step_kept kept step.1 step.2
  obtain ⟨task, member, -⟩ := queued
  exact kept.signalled (by rw [blocked]; rfl) (List.ne_nil_of_mem member)

/-! ### Runs of one worker and one other thread -/

/-- A worker that finds nothing to run blocks. -/
def fallAsleep : List (NoticeLabel Unit Nat Nat) := [.look, .idle, .canStop true (-1), .arm, .enter]

/-- A task for a blocked worker, up to the write to the eventfd. -/
def wakeUp : List (NoticeLabel Unit Nat Nat) := fallAsleep ++ [.addTask () (some (.func 1))]

/-- A task added when the worker has found nothing to run and does not poll yet. -/
def lostWakeUp : List (NoticeLabel Unit Nat Nat) :=
  [.look, .addTask () (some (.func 1)), .readPolling (), .idle, .canStop true (-1), .arm, .enter]

/-- A coroutine queued twice ends, and is found again before another task. -/
def behindFinished : List (NoticeLabel Unit Nat Nat) :=
  [.addTask () (some (.co 1)), .readPolling (), .addTask () (some (.co 1)),
    .addTask () (some (.func 1)), .look, .ran 1 true] ++ fallAsleep

/-- The state after some labels, as far as a wake-up depends on it. -/
def view (es : List (NoticeLabel Unit Nat Nat)) :
    Option (WorkerPc Nat Nat × List (Task Nat Nat) × Nat × CallerPc) :=
  (Lib.exec step {} es).map fun s => (s.pc, s.tasks, s.eventfd, s.callers ())

theorem state_of_view {es : List (NoticeLabel Unit Nat Nat)} {caller : CallerPc}
    (viewed : view es = some (.epoll_wait, [.func 1], 0, caller)) :
    ∃ s, Lib.Run (Lib.Steps step) {} es s ∧ s.pc = .epoll_wait ∧ s.tasks = [.func 1] ∧
      s.eventfd = 0 ∧ s.callers () = caller := by
  obtain ⟨s, ran, left⟩ := Option.map_eq_some_iff.mp viewed
  obtain ⟨pc, tasks, eventfd, callers⟩ := by simpa using left
  exact ⟨s, Lib.run_of_exec ran, pc, tasks, eventfd, callers⟩

/-- The eventfd of a blocked worker with a task to run is not readable before the
call that added the task has written to it, nor at all when the call came between
the look at the queue and `polling_ = true` or when a finished coroutine was taken. -/
theorem not_always_readable :
    (∃ s, Lib.Run (Lib.Steps step) {} wakeUp s ∧ ¬s.Readable) ∧
      (∃ s, Lib.Run (Lib.Steps step) {} lostWakeUp s ∧ ¬s.Readable ∧ ¬s.Signalled) ∧
      ∃ s, Lib.Run (Lib.Steps step) {} behindFinished s ∧ ¬s.Readable ∧ ¬s.Signalled := by
  have unreadable : ∀ {s : Notice Unit Nat Nat}, s.pc = .epoll_wait → s.tasks = [.func 1] →
      s.eventfd = 0 → ¬s.Readable := by
    intro s pc tasks eventfd readable
    have positive := readable pc ⟨.func 1, by rw [tasks]; exact List.mem_cons_self, rfl⟩
    omega
  have unsignalled : ∀ {s : Notice Unit Nat Nat}, s.eventfd = 0 → s.callers () = .out →
      ¬s.Signalled := by
    rintro s eventfd out (positive | ⟨_, notifying⟩)
    · omega
    · rw [out] at notifying
      cases notifying
  have wakes : view wakeUp = some (.epoll_wait, [.func 1], 0, .notify false) := by decide
  have loses : view lostWakeUp = some (.epoll_wait, [.func 1], 0, .out) := by decide
  have hides : view behindFinished = some (.epoll_wait, [.func 1], 0, .out) := by decide
  obtain ⟨s₁, run₁, pc₁, tasks₁, eventfd₁, -⟩ := state_of_view wakes
  obtain ⟨s₂, run₂, pc₂, tasks₂, eventfd₂, out₂⟩ := state_of_view loses
  obtain ⟨s₃, run₃, pc₃, tasks₃, eventfd₃, out₃⟩ := state_of_view hides
  exact ⟨⟨s₁, run₁, unreadable pc₁ tasks₁ eventfd₁⟩,
    ⟨s₂, run₂, unreadable pc₂ tasks₂ eventfd₂, unsignalled eventfd₂ out₂⟩,
    ⟨s₃, run₃, unreadable pc₃ tasks₃ eventfd₃, unsignalled eventfd₃ out₃⟩⟩

/-- A task added to a blocked worker. -/
theorem wakeUp_signalled :
    ∃ s, Lib.Run (Lib.Guarded NoGap (Lib.Steps step)) ({} : Notice Unit Nat Nat) wakeUp s ∧
      s.pc = .epoll_wait ∧ s.tasks = [.func 1] ∧ s.Signalled := by
  have ends : (Lib.exec step ({ pc := .toIdle } : Notice Unit Nat Nat) wakeUp.tail).map
      (fun s => (s.pc, s.tasks)) = some (.epoll_wait, [.func 1]) := by
    decide
  obtain ⟨s, ran, left⟩ := Option.map_eq_some_iff.mp ends
  obtain ⟨pc, tasks⟩ := Prod.mk.inj left
  have later : ∀ e ∈ wakeUp.tail, ∀ s : Notice Unit Nat Nat, s.NoGap e := by
    intro e member s
    simp only [wakeUp, fallAsleep, List.cons_append, List.nil_append, List.tail_cons, List.mem_cons,
      List.not_mem_nil, or_false] at member
    rcases member with rfl | rfl | rfl | rfl | rfl <;> trivial
  have first : Lib.Guarded NoGap (Lib.Steps step) ({} : Notice Unit Nat Nat) .look
      { pc := .toIdle } := by
    refine ⟨fun task rest queue => ?_, rfl⟩
    cases queue
  have guarded := Lib.Run.cons first ((Lib.run_of_exec ran).guarded later)
  exact ⟨s, guarded, pc, tasks,
    wakeup_signalled guarded pc ⟨.func 1, by rw [tasks]; exact List.mem_cons_self, rfl⟩⟩

end Notice

end Reyao
