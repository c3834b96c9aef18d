import Mathlib.Logic.Function.Basic
import Mathlib.Data.List.Basic
import Reyao.Lib.Run

/-!
# Starting and stopping a scheduler (`scheduler.cc`, `workerthread.cc`, `thread.cc`)

`startAsync` starts the init thread, which starts the worker threads one by one and
then runs the main worker. `Thread::start` returns when the new thread has counted
down its latch, and `startAsync` when the init thread has counted down `initLatch_`;
both come before the `run` of a worker sets its `running_`.

`stop` clears `running_` of every worker. It is called once, after `startAsync` has
returned.
-/

namespace Reyao

/-- The workers of a scheduler: that of the init thread, and those of the threads
`init` starts. -/
inductive WorkerId : Type
  | main
  | thread (i : Nat)
  deriving DecidableEq

/-- How far the thread of a worker is: absent, created, past its latch, and past
`running_ = true` in `Worker::run`. -/
inductive RunPc : Type
  | absent
  | created
  | entered
  | running
  deriving DecidableEq

/-- Where the init thread is. -/
inductive InitPc : Type
  | absent
  | created
  /-- Before the round `i` of the loop of `init`. -/
  | loop (i : Nat)
  /-- In `Thread::start` of the thread `i`. -/
  | starting (i : Nat)
  /-- Before `initLatch_.countDown()`. -/
  | inited
  | done
  deriving DecidableEq

/-- Where the caller of `startAsync` and `stop` is. -/
inductive StopPc : Type
  | out
  /-- In `Thread::start` of the init thread. -/
  | starting
  /-- In `initLatch_.wait()`. -/
  | waiting
  | started
  /-- In `stop`, with `worker->stop()` to call for these workers. -/
  | stopping (rest : List WorkerId)
  deriving DecidableEq

/-- `startAsync` has returned. -/
def StopPc.returned : StopPc → Bool
  | .started => true
  | .stopping _ => true
  | _ => false

structure Scheduler : Type where
  threadNum : Nat
  /-- `running_` of the scheduler. -/
  running : Bool := false
  workers : List WorkerId
  threads : List WorkerId := []
  initLatch : Bool := false
  /-- `running_` of the workers. -/
  workerRunning : WorkerId → Bool := fun _ => false
  runPc : WorkerId → RunPc := fun _ => .absent
  initPc : InitPc := .absent
  caller : StopPc := .out

inductive SchedulerLabel : Type
  | startAsync
  | initEnters
  | initStarted
  | startThread
  | threadEnters (i : Nat)
  | threadStarted
  | setRunning
  | countDown
  | startReturns
  /-- `running_ = true` in `Worker::run`. -/
  | run (w : WorkerId)
  | stop
  | stopNext
  deriving DecidableEq

namespace Scheduler

/-- `Scheduler(thread_num)`. -/
def new (thread_num : Nat) : Scheduler :=
  if thread_num = 1 then { threadNum := 1, workers := [.main] }
  else { threadNum := thread_num - 1, workers := [] }

/-- The workers there are after `init`. -/
def all (s : Scheduler) : List WorkerId := .main :: (List.range s.threadNum).map .thread

/-- `canStop`, with what it reads: the queue and the first expiry, -1 for none. -/
def canStop (s : Scheduler) (w : WorkerId) (has_task : Bool) (timeout : Int) : Bool :=
  !s.workerRunning w && !has_task && timeout == -1

def step (s : Scheduler) : SchedulerLabel → Option Scheduler
  | .startAsync =>
      if s.caller = .out then
        if s.running then some { s with caller := .started }
        else some { s with initPc := .created, caller := .starting }
      else none
  | .initEnters =>
      if s.initPc = .created then
        if s.running then some { s with initPc := .done } else some { s with initPc := .loop 0 }
      else none
  | .initStarted =>
      if s.caller = .starting ∧ s.initPc ≠ .created then some { s with caller := .waiting } else none
  | .startThread =>
      match s.initPc with
      | .loop i =>
          if i < s.threadNum then some { s with
            runPc := Function.update s.runPc (.thread i) .created, initPc := .starting i }
          else none
      | _ => none
  | .threadEnters i =>
      if s.runPc (.thread i) = .created then
        some { s with runPc := Function.update s.runPc (.thread i) .entered }
      else none
  | .threadStarted =>
      match s.initPc with
      | .starting i =>
          if s.runPc (.thread i) ≠ .created then some { s with
            workers := s.workers ++ [.thread i]
            threads := s.threads ++ [.thread i]
            initPc := .loop (i + 1) }
          else none
      | _ => none
  | .setRunning =>
      match s.initPc with
      | .loop i => if i < s.threadNum then none else some { s with running := true, initPc := .inited }
      | _ => none
  | .countDown =>
      if s.initPc = .inited then some { s with
        initLatch := true, runPc := Function.update s.runPc .main .entered, initPc := .done }
      else none
  | .startReturns =>
      if s.caller = .waiting ∧ s.initLatch = true then some { s with caller := .started } else none
  | .run w =>
      if s.runPc w = .entered then some { s with
        workerRunning := Function.update s.workerRunning w true
        runPc := Function.update s.runPc w .running }
      else none
  | .stop =>
      if s.caller = .started then
        if s.running then some { s with
          running := false
          caller := .stopping (.main :: if s.threads = [] then [] else s.workers) }
        else some s
      else none
  | .stopNext =>
      match s.caller with
      | .stopping (w :: rest) => some { s with
          workerRunning := Function.update s.workerRunning w false, caller := .stopping rest }
      | _ => none

/-- The first `i` threads have been started. -/
def Built (s : Scheduler) (i : Nat) : Prop :=
  s.threads = (List.range i).map .thread ∧ ∀ j < i, .thread j ∈ s.workers

/-- What `init` has done by its place. -/
def Progress (s : Scheduler) : InitPc → Prop
  | .absent => s.Built 0 ∧ s.running = false ∧ s.initLatch = false
  | .created => s.Built 0 ∧ s.running = false ∧ s.initLatch = false
  | .loop i => (i ≤ s.threadNum ∧ s.Built i) ∧ s.running = false ∧ s.initLatch = false
  | .starting i => (i < s.threadNum ∧ s.Built i) ∧ s.running = false ∧ s.initLatch = false
  | .inited => s.Built s.threadNum ∧ s.initLatch = false
  | .done => s.Built s.threadNum

/-- What `init` and `startAsync` keep. -/
structure Boot (s : Scheduler) : Prop where
  some_thread : 0 < s.threadNum
  progress : s.Progress s.initPc
  fresh : s.caller = .out → s.initPc = .absent
  started : s.caller.returned = true → s.initLatch = true

variable {s s' : Scheduler} {e : SchedulerLabel}

theorem Boot.at {pc : InitPc} (boot : s.Boot) (here : s.initPc = pc) : s.Progress pc :=
  here ▸ boot.progress

theorem boot_new {thread_num : Nat} (positive : 1 ≤ thread_num) : (new thread_num).Boot := by
  have nothing : ∀ s : Scheduler, s.threads = [] → s.Built 0 := fun s empty =>
    ⟨empty, fun _ impossible => absurd impossible (Nat.not_lt_zero _)⟩
  rw [new]
  split
  · exact ⟨Nat.one_pos, ⟨nothing _ rfl, rfl, rfl⟩, fun _ => rfl, Bool.noConfusion⟩
  · refine ⟨?_, ⟨nothing _ rfl, rfl, rfl⟩, fun _ => rfl, Bool.noConfusion⟩
    change 0 < thread_num - 1
    omega

theorem Built.next {i : Nat} (built : s.Built i) :
    ({ s with workers := s.workers ++ [.thread i], threads := s.threads ++ [.thread i],
              initPc := .loop (i + 1) } : Scheduler).Built (i + 1) := by
  refine ⟨?_, fun j small => ?_⟩
  · rw [List.range_succ, List.map_append, ← built.1]
    rfl
  · rcases Nat.lt_or_eq_of_le (Nat.le_of_lt_succ small) with earlier | rfl
    · exact List.mem_append_left _ (built.2 j earlier)
    · exact List.mem_append_right _ List.mem_cons_self

/-- `startAsync` has returned after the whole of `init` but the `run` of the main worker. -/
theorem Boot.whole (boot : s.Boot) (latched : s.initLatch = true) :
    s.initPc = .done ∧ s.Built s.threadNum := by
  cases here : s.initPc with
  | done => exact ⟨rfl, boot.at here⟩
  | inited =>
      have unlatched := (boot.at here).2
      rw [latched] at unlatched
      cases unlatched
  | _ =>
      have unlatched := (boot.at here).2.2
      rw [latched] at unlatched
      cases unlatched

/-- The ways a step can go, each with what it was taken under. -/
inductive Goes (s : Scheduler) : SchedulerLabel → Scheduler → Prop
  | startsAgain : s.caller = .out → s.running = true →
      Goes s .startAsync { s with caller := .started }
  | startAsync : s.caller = .out → s.running = false →
      Goes s .startAsync { s with initPc := .created, caller := .starting }
  | initReturns : s.initPc = .created → s.running = true →
      Goes s .initEnters { s with initPc := .done }
  | initEnters : s.initPc = .created → s.running = false →
      Goes s .initEnters { s with initPc := .loop 0 }
  | initStarted : s.caller = .starting → s.initPc ≠ .created →
      Goes s .initStarted { s with caller := .waiting }
  | startThread {i : Nat} : s.initPc = .loop i → i < s.threadNum →
      Goes s .startThread { s with
        runPc := Function.update s.runPc (.thread i) .created, initPc := .starting i }
  | threadEnters {i : Nat} : s.runPc (.thread i) = .created →
      Goes s (.threadEnters i) { s with runPc := Function.update s.runPc (.thread i) .entered }
  | threadStarted {i : Nat} : s.initPc = .starting i → s.runPc (.thread i) ≠ .created →
      Goes s .threadStarted { s with
        workers := s.workers ++ [.thread i]
        threads := s.threads ++ [.thread i]
        initPc := .loop (i + 1) }
  | setRunning {i : Nat} : s.initPc = .loop i → s.threadNum ≤ i →
      Goes s .setRunning { s with running := true, initPc := .inited }
  | countDown : s.initPc = .inited →
      Goes s .countDown { s with
        initLatch := true, runPc := Function.update s.runPc .main .entered, initPc := .done }
  | startReturns : s.caller = .waiting → s.initLatch = true →
      Goes s .startReturns { s with caller := .started }
  | run {w : WorkerId} : s.runPc w = .entered →
      Goes s (.run w) { s with
        workerRunning := Function.update s.workerRunning w true
        runPc := Function.update s.runPc w .running }
  | stop : s.caller = .started → s.running = true →
      Goes s .stop { s with
        running := false
        caller := .stopping (.main :: if s.threads = [] then [] else s.workers) }
  | stopsAgain : s.caller = .started → s.running = false → Goes s .stop s
  | stopNext {w : WorkerId} {rest : List WorkerId} : s.caller = .stopping (w :: rest) →
      Goes s .stopNext { s with
        workerRunning := Function.update s.workerRunning w false, caller := .stopping rest }

theorem goes_of_step (ran : s.step e = some s') : s.Goes e s' := by
  cases e with
  | startAsync =>
      simp only [step] at ran
      split at ran
      · rename_i out
        split at ran
        · rename_i runs
          cases ran
          exact .startsAgain out runs
        · rename_i idle
          cases ran
          exact .startAsync out (Bool.eq_false_iff.mpr idle)
      · cases ran
  | initEnters =>
      simp only [step] at ran
      split at ran
      · rename_i created
        split at ran
        · rename_i runs
          cases ran
          exact .initReturns created runs
        · rename_i idle
          cases ran
          exact .initEnters created (Bool.eq_false_iff.mpr idle)
      · cases ran
  | initStarted =>
      simp only [step] at ran
      split at ran
      · rename_i here
        cases ran
        exact .initStarted here.1 here.2
      · cases ran
  | startThread =>
      simp only [step] at ran
      split at ran
      · rename_i i here
        split at ran
        · rename_i more
          cases ran
          exact .startThread here more
        · cases ran
      · cases ran
  | threadEnters i =>
      simp only [step] at ran
      split at ran
      · rename_i created
        cases ran
        exact .threadEnters created
      · cases ran
  | threadStarted =>
      simp only [step] at ran
      split at ran
      · rename_i i here
        split at ran
        · rename_i entered
          cases ran
          exact .threadStarted here entered
        · cases ran
      · cases ran
  | setRunning =>
      simp only [step] at ran
      split at ran
      · rename_i i here
        split at ran
        · cases ran
        · rename_i all_started
          cases ran
          exact .setRunning here (Nat.not_lt.mp all_started)
      · cases ran
  | countDown =>
      simp only [step] at ran
      split at ran
      · rename_i inited
        cases ran
        exact .countDown inited
      · cases ran
  | startReturns =>
      simp only [step] at ran
      split at ran
      · rename_i latched
        cases ran
        exact .startReturns latched.1 latched.2
      · cases ran
  | run w =>
      simp only [step] at ran
      split at ran
      · rename_i entered
        cases ran
        exact .run entered
      · cases ran
  | stop =>
      simp only [step] at ran
      split at ran
      · rename_i started
        split at ran
        · rename_i runs
          cases ran
          exact .stop started runs
        · rename_i idle
          cases ran
          exact .stopsAgain started (Bool.eq_false_iff.mpr idle)
      · cases ran
  | stopNext =>
      simp only [step] at ran
      split at ran
      · rename_i at_stop
        cases ran
        exact .stopNext at_stop
      · cases ran

theorem Boot.step (boot : s.Boot) (ran : s.step e = some s') : s'.Boot := by
  have fresh : ∀ {pc}, s.initPc = pc → pc ≠ .absent → s.caller ≠ .out := by
    intro pc here moved out
    exact moved (here.symm.trans (boot.fresh out))
  cases goes_of_step ran with
  | startsAgain out runs =>
      obtain ⟨-, idle, -⟩ := boot.at (boot.fresh out)
      rw [runs] at idle
      cases idle
  | startAsync out idle =>
      obtain ⟨built, -, unlatched⟩ := boot.at (boot.fresh out)
      exact ⟨boot.some_thread, ⟨built, idle, unlatched⟩, StopPc.noConfusion, Bool.noConfusion⟩
  | initReturns created runs =>
      obtain ⟨-, idle, -⟩ := boot.at created
      rw [runs] at idle
      cases idle
  | initEnters created idle =>
      obtain ⟨built, -, unlatched⟩ := boot.at created
      exact ⟨boot.some_thread, ⟨⟨Nat.zero_le _, built⟩, idle, unlatched⟩,
        fun out => absurd out (fresh created InitPc.noConfusion), boot.started⟩
  | initStarted =>
      exact ⟨boot.some_thread, boot.progress, StopPc.noConfusion, Bool.noConfusion⟩
  | startThread here more =>
      obtain ⟨⟨-, built⟩, quiet⟩ := boot.at here
      exact ⟨boot.some_thread, ⟨⟨more, built⟩, quiet⟩,
        fun out => absurd out (fresh here InitPc.noConfusion), boot.started⟩
  | threadEnters =>
      exact ⟨boot.some_thread, boot.progress, boot.fresh, boot.started⟩
  | threadStarted here entered =>
      obtain ⟨⟨more, built⟩, quiet⟩ := boot.at here
      exact ⟨boot.some_thread, ⟨⟨more, built.next⟩, quiet⟩,
        fun out => absurd out (fresh here InitPc.noConfusion), boot.started⟩
  | @setRunning i here all_started =>
      obtain ⟨⟨less, built⟩, -, unlatched⟩ := boot.at here
      have last : i = s.threadNum := Nat.le_antisymm less all_started
      exact ⟨boot.some_thread, ⟨last ▸ built, unlatched⟩,
        fun out => absurd out (fresh here InitPc.noConfusion), boot.started⟩
  | countDown inited =>
      exact ⟨boot.some_thread, (boot.at inited).1,
        fun out => absurd out (fresh inited InitPc.noConfusion), fun _ => rfl⟩
  | startReturns waiting latched =>
      exact ⟨boot.some_thread, boot.progress, StopPc.noConfusion, fun _ => latched⟩
  | run =>
      exact ⟨boot.some_thread, boot.progress, boot.fresh, boot.started⟩
  | stop started runs =>
      have latched := boot.started (by rw [started]; rfl)
      obtain ⟨here, built⟩ := boot.whole latched
      refine ⟨boot.some_thread, ?_, StopPc.noConfusion, fun _ => latched⟩
      change Progress _ s.initPc
      rw [here]
      exact built
  | stopsAgain => exact boot
  | stopNext at_stop =>
      exact ⟨boot.some_thread, boot.progress, StopPc.noConfusion,
        fun _ => boot.started (by rw [at_stop]; rfl)⟩

/-- The `run` of a worker has set `running_`, and `stop` has cleared it. -/
def Stopped (s : Scheduler) (w : WorkerId) : Prop :=
  s.runPc w = .running ∧ s.workerRunning w = false

/-- What `stop` has done so far. -/
def Halts (s : Scheduler) : Prop :=
  ∀ rest, s.caller = .stopping rest → ∀ w ∈ s.all, w ∈ rest ∨ s.Stopped w

/-- `worker->stop()` is called for a worker whose `run` has set `running_`. -/
def StopsRunning (s : Scheduler) (e : SchedulerLabel) : Prop :=
  e = .stopNext → ∀ w rest, s.caller = .stopping (w :: rest) → s.runPc w = .running

/-- Workers that run stay as they are while others move. -/
theorem Halts.congr (halts : s.Halts) (same : s'.threadNum = s.threadNum)
    (caller : s'.caller = s.caller) (stays : ∀ w, s.Stopped w → s'.Stopped w) : s'.Halts := by
  intro rest at_stop w member
  rw [all, same] at member
  rw [caller] at at_stop
  exact (halts rest at_stop w member).imp_right (stays w)

/-- Before `init` has counted down its latch nothing is being stopped. -/
theorem halts_of_init (boot : s.Boot) (busy : s.initPc ≠ .done) (caller : s'.caller = s.caller) :
    s'.Halts := by
  intro rest at_stop
  rw [caller] at at_stop
  exact absurd (boot.whole (boot.started (by rw [at_stop]; rfl))).1 busy

theorem halts_out (outside : ∀ rest, s.caller ≠ .stopping rest) : s.Halts :=
  fun rest at_stop => absurd at_stop (outside rest)

/-- `stop` is to call `worker->stop()` for every worker. -/
theorem mem_stopping (boot : s.Boot) (started : s.caller = .started) {w : WorkerId}
    (member : w ∈ s.all) : w ∈ WorkerId.main :: if s.threads = [] then [] else s.workers := by
  obtain ⟨-, threads, workers⟩ := boot.whole (boot.started (by rw [started]; rfl))
  have some_thread : s.threads ≠ [] := by
    rw [threads]
    simp only [ne_eq, List.map_eq_nil_iff, List.range_eq_nil]
    exact Nat.ne_of_gt boot.some_thread
  rw [if_neg some_thread]
  rcases List.mem_cons.mp member with rfl | is_thread
  · exact List.mem_cons_self
  · obtain ⟨i, inside, rfl⟩ := List.mem_map.mp is_thread
    exact List.mem_cons_of_mem _ (workers i (List.mem_range.mp inside))

theorem Halts.step (boot : s.Boot) (halts : s.Halts) (meets : s.StopsRunning e)
    (ran : s.step e = some s') : s'.Halts := by
  have moved : ∀ {w : WorkerId} {pc : RunPc}, s.runPc w ≠ .running → ∀ {t : Scheduler},
      t.runPc = Function.update s.runPc w pc → (∀ w' ≠ w, t.workerRunning w' = s.workerRunning w') →
      ∀ w', s.Stopped w' → t.Stopped w' := by
    intro w pc not_running t runs same w' stopped
    have other : w' ≠ w := by
      rintro rfl
      exact not_running stopped.1
    rw [Stopped, runs, Function.update_of_ne other, same w' other]
    exact stopped
  cases goes_of_step ran with
  | startsAgain => exact halts_out fun _ => StopPc.noConfusion
  | startAsync => exact halts_out fun _ => StopPc.noConfusion
  | initReturns => exact halts.congr rfl rfl fun _ => id
  | initEnters => exact halts.congr rfl rfl fun _ => id
  | initStarted => exact halts_out fun _ => StopPc.noConfusion
  | startThread here more =>
      exact halts_of_init boot (by rw [here]; exact InitPc.noConfusion) rfl
  | threadEnters created =>
      exact halts.congr rfl rfl
        (moved (by rw [created]; exact RunPc.noConfusion) rfl fun _ _ => rfl)
  | threadStarted => exact halts.congr rfl rfl fun _ => id
  | setRunning => exact halts.congr rfl rfl fun _ => id
  | countDown inited =>
      exact halts_of_init boot (by rw [inited]; exact InitPc.noConfusion) rfl
  | startReturns => exact halts_out fun _ => StopPc.noConfusion
  | run entered =>
      exact halts.congr rfl rfl (moved (by rw [entered]; exact RunPc.noConfusion) rfl
        fun _ other => Function.update_of_ne other _ _)
  | stop started runs =>
      intro rest at_stop w member
      cases at_stop
      exact Or.inl (mem_stopping boot started member)
  | stopsAgain => exact halts
  | @stopNext w rest at_stop =>
      intro rest' same w' member
      cases same
      by_cases here : w' = w
      · subst here
        exact Or.inr ⟨meets rfl w' rest at_stop, Function.update_self _ _ _⟩
      · rcases halts _ at_stop w' member with later | stopped
        · exact Or.inl ((List.mem_cons.mp later).resolve_left here)
        · exact Or.inr ⟨stopped.1, (Function.update_of_ne here _ _).trans stopped.2⟩

/-- If `stop` reaches every worker after the `run` of the worker has set `running_`,
then from the end of `stop` on no worker runs, and each whose queue and timers are
empty can stop. -/
theorem stop_is_kept {thread_num : Nat} (positive : 1 ≤ thread_num) {es : List SchedulerLabel}
    (run : Lib.Run (Lib.Guarded StopsRunning (Lib.Steps step)) (new thread_num) es s)
    (stopped : s.caller = .stopping []) {w : WorkerId} (member : w ∈ s.all) :
    s.workerRunning w = false ∧ s.canStop w false (-1) = true := by
  have start : (new thread_num).Boot ∧ (new thread_num).Halts := by
    refine ⟨boot_new positive, halts_out fun rest at_stop => ?_⟩
    rw [new] at at_stop
    split at at_stop
    · cases at_stop
    · cases at_stop
  have kept : s.Boot ∧ s.Halts := run.invariant (I := fun s => s.Boot ∧ s.Halts) start
    fun held step => ⟨held.1.step step.2, held.2.step held.1 step.1 step.2⟩
  have halted : s.workerRunning w = false :=
    ((kept.2 [] stopped w member).resolve_left List.not_mem_nil).2
  refine ⟨halted, ?_⟩
  rw [canStop, halted]
  rfl

/-- Two threads, up to the return of `startAsync`. -/
def startTwo : List SchedulerLabel :=
  [.startAsync, .initEnters, .initStarted, .startThread, .threadEnters 0, .threadStarted,
    .setRunning, .countDown, .startReturns]

/-- A `stop` before the thread of the second worker is in `run`. -/
def earlyStop : List SchedulerLabel :=
  startTwo ++ [.run .main, .stop, .stopNext, .stopNext, .run (.thread 0)]

theorem earlyStop_leaves : (Lib.exec step (new 2) earlyStop).map (fun s =>
    (s.caller, s.all, s.workerRunning (.thread 0), s.canStop (.thread 0) false (-1))) =
      some (.stopping [], [.main, .thread 0], true, false) := by
  decide

/-- A stop request can be lost. -/
theorem not_stop_is_kept :
    ¬∀ (thread_num : Nat), 1 ≤ thread_num → ∀ (es : List SchedulerLabel) (s : Scheduler),
      Lib.Run (Lib.Steps step) (new thread_num) es s → s.caller = .stopping [] →
        ∀ w ∈ s.all, s.workerRunning w = false := by
  intro kept
  obtain ⟨s, ran, left⟩ := Option.map_eq_some_iff.mp earlyStop_leaves
  obtain ⟨stopped, workers, running, -⟩ : s.caller = .stopping [] ∧ s.all = [.main, .thread 0] ∧
      s.workerRunning (.thread 0) = true ∧ _ := by
    simpa using left
  have halted := kept 2 (by decide) earlyStop s (Lib.run_of_exec ran) stopped (.thread 0)
    (by rw [workers]; decide)
  rw [running] at halted
  cases halted

theorem step_stopNext {w : WorkerId} {rest : List WorkerId}
    (stops : s.caller = .stopping (w :: rest)) :
    Lib.Steps step s .stopNext { s with
      workerRunning := Function.update s.workerRunning w false, caller := .stopping rest } := by
  simp only [Lib.Steps, step, stops]

theorem stopsRunning_of {w : WorkerId} {rest : List WorkerId}
    (stops : s.caller = .stopping (w :: rest)) (runs : s.runPc w = .running) :
    s.StopsRunning .stopNext := by
  intro _ w' rest' stops'
  cases stops.symm.trans stops'
  exact runs

/-- A `stop` when both workers run. -/
def lateStop : List SchedulerLabel := startTwo ++ [.run .main, .run (.thread 0), .stop]

theorem lateStop_leaves : (Lib.exec step (new 2) lateStop).map (fun s =>
    (s.caller, s.runPc .main, s.runPc (.thread 0), s.all)) =
      some (.stopping [.main, .thread 0], .running, .running, [.main, .thread 0]) := by
  decide

theorem lateStop_is_kept :
    ∃ (es : List SchedulerLabel) (s : Scheduler),
      Lib.Run (Lib.Guarded StopsRunning (Lib.Steps step)) (new 2) es s ∧
        s.caller = .stopping [] ∧ s.workerRunning (.thread 0) = false := by
  obtain ⟨s, ran, left⟩ := Option.map_eq_some_iff.mp lateStop_leaves
  obtain ⟨stops, main, thread, workers⟩ : s.caller = .stopping [.main, .thread 0] ∧
      s.runPc .main = .running ∧ s.runPc (.thread 0) = .running ∧ s.all = [.main, .thread 0] := by
    simpa using left
  have before : Lib.Run (Lib.Guarded StopsRunning (Lib.Steps step)) (new 2) lateStop s := by
    refine (Lib.run_of_exec ran).guarded fun e member s is_stop => ?_
    subst is_stop
    exact absurd member (by decide)
  have first := before.snoc ⟨stopsRunning_of stops main, step_stopNext stops⟩
  have second := first.snoc ⟨stopsRunning_of rfl thread, step_stopNext rfl⟩
  refine ⟨_, _, second, rfl, (stop_is_kept (by decide) second rfl ?_).1⟩
  change .thread 0 ∈ s.all
  rw [workers]
  decide

end Scheduler

end Reyao
