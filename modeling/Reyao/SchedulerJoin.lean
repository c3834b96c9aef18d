import Mathlib.Algebra.Order.BigOperators.Group.Finset
import Reyao.SchedulerStop

/-!
# Waiting for a scheduler to end (`scheduler.cc`)

After it has told every worker to stop, `stop` has all threads joined. Where hooks are
enabled, as they are on the thread of a worker, it leaves that to `joinThread_`. Elsewhere
it calls `joinThread` itself. `joinThread` waits for the init thread, which runs the main
worker, and for the worker threads, and then lets `wait` pass `quitLatch_`.

If hooks are disabled on the thread of a worker that calls `stop`, the thread joins itself.
`pthread_join` then returns `EDEADLK` at once, which `Thread::join` does not look at, so
`joinThread` goes on without that worker (`join_in_place_skips`).

A run has the steps of `SchedulerStop`, and after them those of the joining. What `canStop`
reads of the queue and the timers is part of the step with which a worker ends: here a
worker may come to read anything.
-/

namespace Reyao

open Lib

/-- Where the thread that runs `joinThread` is. -/
inductive JoinPc : Type
  | absent
  /-- `joinThread_`, before its latch is counted down. -/
  | created
  /-- Before `initThread_.join()`. -/
  | initThread
  /-- With these threads to join. -/
  | threads (rest : List WorkerId)
  | done
  deriving DecidableEq

/-- Where the caller of `stop` is when the workers have been told. -/
inductive AfterStop : Type
  | before
  /-- In `joinThread_.start()`. -/
  | starting
  /-- In `joinThread()`. -/
  | joining
  | returned
  deriving DecidableEq

/-- Where the caller of `wait` is. -/
inductive WaitPc : Type
  | out
  | waiting
  | returned
  deriving DecidableEq

structure SchedulerJoin : Type where
  base : Scheduler
  /-- `run` of the worker has returned, and with it its thread. -/
  ended : WorkerId → Bool := fun _ => false
  joiner : JoinPc := .absent
  stopPc : AfterStop := .before
  quitLatch : Bool := false
  waiter : WaitPc := .out

inductive JoinLabel : Type
  | boot (e : SchedulerLabel)
  /-- `canStop` holds of what the worker reads: its queue and the first expiry. -/
  | leave (w : WorkerId) (has_task : Bool) (timeout : Int)
  /-- `stop` goes on when all workers have been told. -/
  | stopGoesOn
  | joinEnters
  | joinStarted
  | joinInit
  | joinNext
  | joinDone
  | joinReturns
  | wait
  | waitReturns
  deriving DecidableEq

/-- Who calls `stop`: the worker on whose thread it is called, if any, and `IsHookEnable()`
there. -/
structure StopCaller : Type where
  worker : Option WorkerId
  hook : Bool
  deriving DecidableEq

/-- `stop` runs on the thread of `w`, and would join it from there. -/
def StopCaller.JoinsItself (c : StopCaller) (w : WorkerId) : Prop :=
  c.worker = some w ∧ c.hook = false

namespace SchedulerJoin

/-- `Scheduler(thread_num)`. -/
def new (thread_num : Nat) : SchedulerJoin := { base := Scheduler.new thread_num }

/-- `Thread::join` of the thread of `w` comes back: the thread has ended, or it is the one that
joins, for which `pthread_join` returns `EDEADLK`. -/
def joins (c : StopCaller) (s : SchedulerJoin) (w : WorkerId) : Bool :=
  s.ended w || decide (s.stopPc = .joining ∧ c.worker = some w)

def step (c : StopCaller) (s : SchedulerJoin) : JoinLabel → Option SchedulerJoin
  | .boot e => (s.base.step e).map fun base => { s with base := base }
  | .leave w has_task timeout =>
      -- the thread that is in `stop` cannot end
      if s.base.runPc w = .running ∧ s.ended w = false ∧ s.base.canStop w has_task timeout = true ∧
          (c.worker = some w → s.stopPc = .returned) then
        some { s with ended := Function.update s.ended w true }
      else none
  | .stopGoesOn =>
      if s.base.caller = .stopping [] ∧ s.stopPc = .before then
        if s.base.threads = [] then some { s with stopPc := .returned }
        else if c.hook then some { s with stopPc := .starting, joiner := .created }
        else some { s with stopPc := .joining, joiner := .initThread }
      else none
  | .joinEnters => if s.joiner = .created then some { s with joiner := .initThread } else none
  | .joinStarted =>
      if s.stopPc = .starting ∧ s.joiner ≠ .created then some { s with stopPc := .returned }
      else none
  | .joinInit =>
      -- `initThread_.isStart()` from `startAsync` on
      if s.joiner = .initThread ∧ (s.base.initPc = .absent ∨ s.joins c .main = true) then
        some { s with joiner := .threads s.base.threads }
      else none
  | .joinNext =>
      match s.joiner with
      | .threads (w :: rest) =>
          if s.joins c w then some { s with joiner := .threads rest } else none
      | _ => none
  | .joinDone =>
      if s.joiner = .threads [] then some { s with joiner := .done, quitLatch := true } else none
  | .joinReturns =>
      if s.stopPc = .joining ∧ s.joiner = .done then some { s with stopPc := .returned } else none
  | .wait => if s.waiter = .out then some { s with waiter := .waiting } else none
  | .waitReturns =>
      if s.waiter = .waiting ∧ s.quitLatch = true then some { s with waiter := .returned } else none

/-- The ways a step can go. -/
inductive Goes (c : StopCaller) (s : SchedulerJoin) : JoinLabel → SchedulerJoin → Prop
  | boot {e : SchedulerLabel} {b : Scheduler} : s.base.step e = some b →
      Goes c s (.boot e) { s with base := b }
  | leave {w : WorkerId} {has_task : Bool} {timeout : Int} : s.base.runPc w = .running →
      s.ended w = false → s.base.canStop w has_task timeout = true →
      (c.worker = some w → s.stopPc = .returned) →
      Goes c s (.leave w has_task timeout) { s with ended := Function.update s.ended w true }
  | nothingToJoin : s.base.caller = .stopping [] → s.stopPc = .before → s.base.threads = [] →
      Goes c s .stopGoesOn { s with stopPc := .returned }
  | startsJoin : s.base.caller = .stopping [] → s.stopPc = .before → c.hook = true →
      Goes c s .stopGoesOn { s with stopPc := .starting, joiner := .created }
  | joins : s.base.caller = .stopping [] → s.stopPc = .before → c.hook = false →
      Goes c s .stopGoesOn { s with stopPc := .joining, joiner := .initThread }
  | joinEnters : s.joiner = .created → Goes c s .joinEnters { s with joiner := .initThread }
  | joinStarted : s.stopPc = .starting → s.joiner ≠ .created →
      Goes c s .joinStarted { s with stopPc := .returned }
  | joinInit : s.joiner = .initThread → (s.base.initPc = .absent ∨ s.joins c .main = true) →
      Goes c s .joinInit { s with joiner := .threads s.base.threads }
  | joinNext {w : WorkerId} {rest : List WorkerId} : s.joiner = .threads (w :: rest) →
      s.joins c w = true → Goes c s .joinNext { s with joiner := .threads rest }
  | joinDone : s.joiner = .threads [] →
      Goes c s .joinDone { s with joiner := .done, quitLatch := true }
  | joinReturns : s.stopPc = .joining → s.joiner = .done →
      Goes c s .joinReturns { s with stopPc := .returned }
  | wait : s.waiter = .out → Goes c s .wait { s with waiter := .waiting }
  | waitReturns : s.waiter = .waiting → s.quitLatch = true →
      Goes c s .waitReturns { s with waiter := .returned }

variable {c : StopCaller} {s s' : SchedulerJoin} {e : JoinLabel}

theorem goes_of_step (ran : s.step c e = some s') : Goes c s e s' := by
  cases e with
  | boot e =>
      obtain ⟨b, base, rfl⟩ := Option.map_eq_some_iff.mp ran
      exact .boot base
  | leave w has_task timeout =>
      simp only [step] at ran
      split at ran
      · rename_i can
        cases ran
        exact .leave can.1 can.2.1 can.2.2.1 can.2.2.2
      · cases ran
  | stopGoesOn =>
      simp only [step] at ran
      split at ran
      · rename_i here
        split at ran
        · rename_i empty
          cases ran
          exact .nothingToJoin here.1 here.2 empty
        · split at ran
          · rename_i hook
            cases ran
            exact .startsJoin here.1 here.2 hook
          · rename_i plain
            cases ran
            exact .joins here.1 here.2 (Bool.eq_false_iff.mpr plain)
      · cases ran
  | joinEnters =>
      simp only [step] at ran
      split at ran
      · rename_i created
        cases ran
        exact .joinEnters created
      · cases ran
  | joinStarted =>
      simp only [step] at ran
      split at ran
      · rename_i here
        cases ran
        exact .joinStarted here.1 here.2
      · cases ran
  | joinInit =>
      simp only [step] at ran
      split at ran
      · rename_i here
        cases ran
        exact .joinInit here.1 here.2
      · cases ran
  | joinNext =>
      simp only [step] at ran
      split at ran
      · rename_i w rest here
        split at ran
        · rename_i over_
          cases ran
          exact .joinNext here over_
        · cases ran
      · cases ran
  | joinDone =>
      simp only [step] at ran
      split at ran
      · rename_i here
        cases ran
        exact .joinDone here
      · cases ran
  | joinReturns =>
      simp only [step] at ran
      split at ran
      · rename_i here
        cases ran
        exact .joinReturns here.1 here.2
      · cases ran
  | wait =>
      simp only [step] at ran
      split at ran
      · rename_i out
        cases ran
        exact .wait out
      · cases ran
  | waitReturns =>
      simp only [step] at ran
      split at ran
      · rename_i here
        cases ran
        exact .waitReturns here.1 here.2
      · cases ran

/-! ## `wait` returns after the last thread -/

/-- The thread of `w` has ended, or it was joined by itself. -/
def Left (c : StopCaller) (s : SchedulerJoin) (w : WorkerId) : Prop :=
  s.ended w = true ∨ c.JoinsItself w

/-- What `joinThread` has done by its place. -/
def Joined (c : StopCaller) (s : SchedulerJoin) : JoinPc → Prop
  | .threads rest => Left c s .main ∧ ∀ w ∈ s.base.threads, w ∈ rest ∨ Left c s w
  | .done => Left c s .main ∧ ∀ w ∈ s.base.threads, Left c s w
  | _ => True

/-- What the joining keeps. -/
structure Joining (c : StopCaller) (s : SchedulerJoin) : Prop where
  boot : s.base.Boot
  /-- Nothing is joined before the workers have been told. -/
  told : s.stopPc ≠ .before → s.base.caller = .stopping []
  /-- Who is past the beginning has a joiner under way, and nobody else has. -/
  begun : s.joiner ≠ .absent ↔ s.stopPc ≠ .before
  inPlace : s.stopPc = .joining → c.hook = false
  joined : Joined c s s.joiner
  latched : s.quitLatch = true ↔ s.joiner = .done
  passed : s.waiter = .returned → s.quitLatch = true

theorem joining_new {thread_num : Nat} (positive : 1 ≤ thread_num) :
    Joining c (new thread_num) where
  boot := Scheduler.boot_new positive
  told started := absurd rfl started
  begun := iff_of_false (fun there => there rfl) fun started => started rfl
  inPlace := AfterStop.noConfusion
  joined := trivial
  latched := iff_of_false Bool.noConfusion JoinPc.noConfusion
  passed := WaitPc.noConfusion

/-- There is always a thread to join. -/
theorem some_thread {b : Scheduler} (boot : b.Boot) (latched : b.initLatch = true) :
    b.threads ≠ [] := by
  rw [(boot.whole latched).2.1, ne_eq, List.map_eq_nil_iff, List.range_eq_nil]
  exact Nat.ne_of_gt boot.some_thread

/-- While and after `stop` tells the workers, the rest of the scheduler only lets workers into
their loops. -/
theorem stopping_cases {b b' : Scheduler} {f : SchedulerLabel} {rest : List WorkerId}
    (boot : b.Boot) (stops : b.caller = .stopping rest) (ran : b.step f = some b') :
    (∃ i, b.runPc (.thread i) = .created ∧
      b' = { b with runPc := Function.update b.runPc (.thread i) .entered }) ∨
    (∃ w, b.runPc w = .entered ∧ b' = { b with
      workerRunning := Function.update b.workerRunning w true
      runPc := Function.update b.runPc w .running }) ∨
    (∃ w later, rest = w :: later ∧ b' = { b with
      workerRunning := Function.update b.workerRunning w false, caller := .stopping later }) := by
  have done := (boot.whole (boot.started (by rw [stops]; rfl))).1
  cases Scheduler.goes_of_step ran with
  | startsAgain out => rw [stops] at out; cases out
  | startAsync out => rw [stops] at out; cases out
  | initReturns created => rw [done] at created; cases created
  | initEnters created => rw [done] at created; cases created
  | initStarted starting => rw [stops] at starting; cases starting
  | startThread here => rw [done] at here; cases here
  | threadStarted here => rw [done] at here; cases here
  | setRunning here => rw [done] at here; cases here
  | countDown here => rw [done] at here; cases here
  | startReturns waiting => rw [stops] at waiting; cases waiting
  | stop started => rw [stops] at started; cases started
  | stopsAgain started => rw [stops] at started; cases started
  | threadEnters created => exact Or.inl ⟨_, created, rfl⟩
  | run entered => exact Or.inr (Or.inl ⟨_, entered, rfl⟩)
  | stopNext more =>
      rw [stops] at more
      exact Or.inr (Or.inr ⟨_, _, StopPc.stopping.inj more, rfl⟩)

theorem settled {b b' : Scheduler} {f : SchedulerLabel} (boot : b.Boot)
    (told : b.caller = .stopping []) (ran : b.step f = some b') :
    b'.caller = .stopping [] ∧ b'.threads = b.threads := by
  rcases stopping_cases boot told ran with ⟨_, -, rfl⟩ | ⟨_, -, rfl⟩ | ⟨_, _, impossible, -⟩
  · exact ⟨told, rfl⟩
  · exact ⟨told, rfl⟩
  · cases impossible

theorem Joined.mono {t : SchedulerJoin} {pc : JoinPc} (joined : Joined c s pc)
    (threads : t.base.threads = s.base.threads)
    (ended : ∀ w, s.ended w = true → t.ended w = true) : Joined c t pc := by
  have left : ∀ w, Left c s w → Left c t w := fun w => Or.imp_left (ended w)
  unfold Joined at joined ⊢
  rw [threads]
  cases pc with
  | threads rest => exact ⟨left _ joined.1, fun w member => (joined.2 w member).imp_right (left w)⟩
  | done => exact ⟨left _ joined.1, fun w member => left w (joined.2 w member)⟩
  | _ => trivial

/-- Whom the joiner passes has ended, or joins itself. -/
theorem Joining.left (kept : Joining c s) {w : WorkerId} (back : s.joins c w = true) :
    Left c s w := by
  unfold joins at back
  rw [Bool.or_eq_true, decide_eq_true_eq] at back
  exact back.imp_right fun self => ⟨self.2, kept.inPlace self.1⟩

theorem Joining.step (kept : Joining c s) (ran : s.step c e = some s') : Joining c s' := by
  -- the latch opens when the last thread has been joined
  have closed : ∀ {pc : JoinPc}, s.joiner ≠ .done → pc ≠ .done →
      (s.quitLatch = true ↔ pc = .done) := by
    intro pc here next
    exact iff_of_false (fun latched => here (kept.latched.mp latched)) next
  have before : ∀ {pc : AfterStop}, s.stopPc = pc → pc ≠ .before → s.stopPc ≠ .before := by
    rintro pc rfl past
    exact past
  cases goes_of_step ran with
  | boot base =>
      refine ⟨kept.boot.step base, fun started => (settled kept.boot (kept.told started) base).1,
        kept.begun, kept.inPlace, ?_, kept.latched, kept.passed⟩
      rcases eq_or_ne s.joiner .absent with nothing | begun
      · dsimp only
        rw [nothing]
        trivial
      · have told := kept.told (kept.begun.mp begun)
        exact kept.joined.mono (settled kept.boot told base).2 fun _ => id
  | @leave w has_task timeout =>
      refine ⟨kept.boot, kept.told, kept.begun, kept.inPlace,
        kept.joined.mono rfl fun w' over_ => ?_, kept.latched, kept.passed⟩
      rcases eq_or_ne w' w with rfl | other
      · exact Function.update_self _ _ _
      · exact (Function.update_of_ne other _ _).trans over_
  | nothingToJoin told _ empty =>
      have latched := kept.boot.started (by rw [told]; rfl)
      exact absurd empty (some_thread kept.boot latched)
  | startsJoin told here =>
      have nothing := Classical.not_not.mp (kept.begun.not.mpr (Classical.not_not.mpr here))
      refine ⟨kept.boot, fun _ => told, iff_of_true JoinPc.noConfusion AfterStop.noConfusion,
        AfterStop.noConfusion, trivial, closed ?_ JoinPc.noConfusion, kept.passed⟩
      rw [nothing]
      exact JoinPc.noConfusion
  | joins told here plain =>
      have nothing := Classical.not_not.mp (kept.begun.not.mpr (Classical.not_not.mpr here))
      refine ⟨kept.boot, fun _ => told, iff_of_true JoinPc.noConfusion AfterStop.noConfusion,
        fun _ => plain, trivial, closed ?_ JoinPc.noConfusion, kept.passed⟩
      rw [nothing]
      exact JoinPc.noConfusion
  | joinEnters created =>
      have begun := kept.begun.mp (by rw [created]; exact JoinPc.noConfusion)
      exact ⟨kept.boot, kept.told, iff_of_true JoinPc.noConfusion begun, kept.inPlace, trivial,
        closed (by rw [created]; exact JoinPc.noConfusion) JoinPc.noConfusion, kept.passed⟩
  | joinStarted starting =>
      have begun := before starting AfterStop.noConfusion
      exact ⟨kept.boot, fun _ => kept.told begun,
        iff_of_true (kept.begun.mpr begun) AfterStop.noConfusion, AfterStop.noConfusion,
        kept.joined, kept.latched, kept.passed⟩
  | joinInit here back =>
      have begun := kept.begun.mp (by rw [here]; exact JoinPc.noConfusion)
      have init := (kept.boot.whole (kept.boot.started (by rw [kept.told begun]; rfl))).1
      have main := kept.left (back.resolve_left (by rw [init]; exact InitPc.noConfusion))
      exact ⟨kept.boot, kept.told, iff_of_true JoinPc.noConfusion begun, kept.inPlace,
        ⟨main, fun w member => Or.inl member⟩,
        closed (by rw [here]; exact JoinPc.noConfusion) JoinPc.noConfusion, kept.passed⟩
  | @joinNext w rest here back =>
      have begun := kept.begun.mp (by rw [here]; exact JoinPc.noConfusion)
      have joined := kept.joined
      rw [here] at joined
      refine ⟨kept.boot, kept.told, iff_of_true JoinPc.noConfusion begun, kept.inPlace,
        ⟨joined.1, fun w' member => ?_⟩,
        closed (by rw [here]; exact JoinPc.noConfusion) JoinPc.noConfusion, kept.passed⟩
      rcases joined.2 w' member with later | left
      · rcases List.mem_cons.mp later with rfl | after
        · exact Or.inr (kept.left back)
        · exact Or.inl after
      · exact Or.inr left
  | joinDone here =>
      have begun := kept.begun.mp (by rw [here]; exact JoinPc.noConfusion)
      have joined := kept.joined
      rw [here] at joined
      exact ⟨kept.boot, kept.told, iff_of_true JoinPc.noConfusion begun, kept.inPlace,
        ⟨joined.1, fun w member => (joined.2 w member).resolve_left List.not_mem_nil⟩,
        iff_of_true rfl rfl, fun _ => rfl⟩
  | joinReturns joining =>
      have begun := before joining AfterStop.noConfusion
      exact ⟨kept.boot, fun _ => kept.told begun,
        iff_of_true (kept.begun.mpr begun) AfterStop.noConfusion, AfterStop.noConfusion,
        kept.joined, kept.latched, kept.passed⟩
  | wait =>
      exact ⟨kept.boot, kept.told, kept.begun, kept.inPlace, kept.joined, kept.latched,
        WaitPc.noConfusion⟩
  | waitReturns _ latched =>
      exact ⟨kept.boot, kept.told, kept.begun, kept.inPlace, kept.joined, kept.latched,
        fun _ => latched⟩

/-- The workers of the scheduler are the main one and those of its threads. -/
theorem mem_all {b : Scheduler} (boot : b.Boot) (latched : b.initLatch = true) {w : WorkerId} :
    w ∈ b.all ↔ w = .main ∨ w ∈ b.threads := by
  unfold Scheduler.all
  rw [List.mem_cons, (boot.whole latched).2.1]

theorem Joining.waited (kept : Joining c s) (returned : s.waiter = .returned) :
    s.base.caller = .stopping [] ∧ ∀ w ∈ s.base.all, Left c s w := by
  have here := kept.latched.mp (kept.passed returned)
  have told := kept.told (kept.begun.mp (by rw [here]; exact JoinPc.noConfusion))
  have joined := kept.joined
  rw [here] at joined
  refine ⟨told, fun w member => ?_⟩
  rcases (mem_all kept.boot (kept.boot.started (by rw [told]; rfl))).mp member with rfl | thread
  · exact joined.1
  · exact joined.2 w thread

/-- `wait` returns only after every worker has been told to stop and the `run` of each has
returned, with its thread: the main worker's too. Only a worker whose thread has called `stop`
without hooks may still be in its `run`. -/
theorem wait_returns_last {thread_num : Nat} (positive : 1 ≤ thread_num) {es : List JoinLabel}
    (run : Run (Steps (SchedulerJoin.step c)) (new thread_num) es s)
    (returned : s.waiter = .returned) :
    s.base.caller = .stopping [] ∧ ∀ w ∈ s.base.all, ¬c.JoinsItself w → s.ended w = true := by
  have kept : Joining c s :=
    run.invariant (joining_new positive) fun kept ran => kept.step ran
  obtain ⟨told, left⟩ := kept.waited returned
  exact ⟨told, fun w member other => (left w member).resolve_right other⟩

/-- A scheduler of one thread up to a `stop` that has told its workers. -/
def toldOne : List JoinLabel :=
  [.startAsync, .initEnters, .initStarted, .startThread, .threadEnters 0, .threadStarted,
    .setRunning, .countDown, .startReturns, .run .main, .run (.thread 0), .stop, .stopNext,
    .stopNext, .stopNext].map .boot

/-- The rest, with `stop` on the thread of the main worker. -/
def joinedOne : List JoinLabel :=
  [.wait, .stopGoesOn, .joinEnters, .joinStarted, .leave .main false (-1), .joinInit,
    .leave (.thread 0) false (-1), .joinNext, .joinDone, .waitReturns]

/-- The main worker's thread, with hooks enabled. -/
def onMain : StopCaller := ⟨some .main, true⟩

theorem joinedOne_leaves : (exec (SchedulerJoin.step onMain) (new 1) (toldOne ++ joinedOne)).map
    SchedulerJoin.waiter = some .returned := by
  decide

theorem wait_returns_last_one : ∃ s : SchedulerJoin, s.waiter = .returned ∧
    s.base.caller = .stopping [] ∧ ∀ w ∈ s.base.all, s.ended w = true := by
  obtain ⟨s, ran, returned⟩ := Option.map_eq_some_iff.mp joinedOne_leaves
  obtain ⟨told, ended⟩ := wait_returns_last (by decide) (run_of_exec ran) returned
  exact ⟨s, returned, told, fun w member => ended w member fun self => Bool.noConfusion self.2⟩

/-! ## `stop` and `wait` come to an end -/

/-- `stop` reaches each worker when its `run` has set `running_`. -/
def StopsRunning (s : SchedulerJoin) (e : JoinLabel) : Prop :=
  ∀ f, e = .boot f → s.base.StopsRunning f

/-- What the joining keeps besides, when no stop request is lost. -/
structure Ending (c : StopCaller) (s : SchedulerJoin) : Prop where
  joining : Joining c s
  halts : s.base.Halts
  rest : ∀ rest, s.joiner = .threads rest → ∀ w ∈ rest, w ∈ s.base.threads
  present : ∀ w, s.base.runPc w ≠ .absent → w ∈ s.base.all

theorem ending_new {thread_num : Nat} (positive : 1 ≤ thread_num) :
    Ending c (new thread_num) where
  joining := joining_new positive
  halts := Scheduler.halts_out fun rest at_stop => by
    unfold new Scheduler.new at at_stop
    dsimp only at at_stop
    split at at_stop <;> cases at_stop
  rest _ := JoinPc.noConfusion
  present w there := by
    refine absurd ?_ there
    unfold new Scheduler.new
    dsimp only
    split <;> rfl

/-- Only the workers of the scheduler have threads. -/
theorem present_step {b b' : Scheduler} {f : SchedulerLabel}
    (present : ∀ w, b.runPc w ≠ .absent → w ∈ b.all) (ran : b.step f = some b') :
    ∀ w, b'.runPc w ≠ .absent → w ∈ b'.all := by
  have moves : ∀ {w : WorkerId} {pc : RunPc}, w ∈ b.all → ∀ w',
      Function.update b.runPc w pc w' ≠ .absent → w' ∈ b.all := by
    intro w pc member w' there
    rcases eq_or_ne w' w with rfl | other
    · exact member
    · rw [Function.update_of_ne other] at there
      exact present w' there
  cases Scheduler.goes_of_step ran with
  | startThread _ more =>
      exact moves (List.mem_cons_of_mem _ (List.mem_map_of_mem (List.mem_range.mpr more)))
  | threadEnters created =>
      exact moves (present _ (by rw [created]; exact RunPc.noConfusion))
  | countDown => exact moves List.mem_cons_self
  | run entered => exact moves (present _ (by rw [entered]; exact RunPc.noConfusion))
  | _ => exact present

theorem Ending.step (kept : Ending c s) (meets : s.StopsRunning e) (ran : s.step c e = some s') :
    Ending c s' := by
  have next := kept.joining.step ran
  cases goes_of_step ran with
  | boot base =>
      refine ⟨next, kept.halts.step kept.joining.boot (meets _ rfl) base,
        fun rest here w member => ?_, present_step kept.present base⟩
      dsimp only at here ⊢
      have begun := kept.joining.begun.mp (by rw [here]; exact JoinPc.noConfusion)
      rw [(settled kept.joining.boot (kept.joining.told begun) base).2]
      exact kept.rest rest here w member
  | startsJoin => exact ⟨next, kept.halts, fun _ => JoinPc.noConfusion, kept.present⟩
  | joins => exact ⟨next, kept.halts, fun _ => JoinPc.noConfusion, kept.present⟩
  | joinEnters => exact ⟨next, kept.halts, fun _ => JoinPc.noConfusion, kept.present⟩
  | joinInit =>
      refine ⟨next, kept.halts, fun rest here w member => ?_, kept.present⟩
      cases here
      exact member
  | @joinNext w rest here _ =>
      refine ⟨next, kept.halts, fun later there w' member => ?_, kept.present⟩
      cases there
      exact kept.rest _ here w' (List.mem_cons_of_mem _ member)
  | joinDone => exact ⟨next, kept.halts, fun _ => JoinPc.noConfusion, kept.present⟩
  | _ => exact ⟨next, kept.halts, kept.rest, kept.present⟩

theorem Ending.run {thread_num : Nat} (positive : 1 ≤ thread_num) {es : List JoinLabel}
    (run : Run (Guarded StopsRunning (Steps (SchedulerJoin.step c))) (new thread_num) es s) :
    Ending c s :=
  run.invariant (ending_new positive) fun kept step => kept.step step.1 step.2

/-- Nothing can go on, but for a new call of `wait`. -/
def Rests (c : StopCaller) (s : SchedulerJoin) : Prop := ∀ e, e ≠ .wait → s.step c e = none

/-- At rest after `stop` has been called, nobody is left in `stop`, `wait` or `run`. -/
theorem Ending.rests (kept : Ending c s) {rest : List WorkerId}
    (stopped : s.base.caller = .stopping rest) (rests : Rests c s) :
    s.stopPc = .returned ∧ s.quitLatch = true ∧ (∀ w ∈ s.base.all, s.ended w = true) ∧
      s.waiter ≠ .waiting := by
  have told : s.base.caller = .stopping [] := by
    cases rest with
    | nil => exact stopped
    | cons w later =>
        have stuck := rests (.boot .stopNext) JoinLabel.noConfusion
        simp only [SchedulerJoin.step, Scheduler.step, stopped, Option.map_some] at stuck
        cases stuck
  have latched := kept.joining.boot.started (by rw [told]; rfl)
  have begun : s.stopPc ≠ .before := by
    intro before
    have stuck := rests .stopGoesOn JoinLabel.noConfusion
    simp only [SchedulerJoin.step, if_pos (And.intro told before),
      if_neg (some_thread kept.joining.boot latched)] at stuck
    split at stuck <;> cases stuck
  have entered : s.joiner ≠ .created := by
    intro created
    have stuck := rests .joinEnters JoinLabel.noConfusion
    simp only [SchedulerJoin.step, created] at stuck
    cases stuck
  have started : s.stopPc ≠ .starting := by
    intro starting
    have stuck := rests .joinStarted JoinLabel.noConfusion
    simp only [SchedulerJoin.step, if_pos (And.intro starting entered)] at stuck
    cases stuck
  -- a worker that cannot end is the one in `stop`
  have halted : ∀ w ∈ s.base.all, s.ended w = true ∨
      (c.worker = some w ∧ s.stopPc ≠ .returned) := by
    intro w member
    obtain ⟨running, halted⟩ := (kept.halts [] told w member).resolve_left List.not_mem_nil
    refine or_iff_not_imp_left.mpr fun alive => ?_
    rw [← Classical.not_imp]
    intro free
    have can : s.base.canStop w false (-1) = true := by
      unfold Scheduler.canStop
      rw [halted]
      rfl
    have stuck := rests (.leave w false (-1)) JoinLabel.noConfusion
    simp only [SchedulerJoin.step, if_pos (And.intro running
      (And.intro (Bool.eq_false_iff.mpr alive) (And.intro can free)))] at stuck
    cases stuck
  -- it is in `joinThread` then, which passes its own thread
  have passes : ∀ w ∈ s.base.all, s.joins c w = true := by
    intro w member
    unfold joins
    rw [Bool.or_eq_true, decide_eq_true_eq]
    refine (halted w member).imp_right fun inside => ⟨?_, inside.1⟩
    cases place : s.stopPc with
    | before => exact absurd place begun
    | starting => exact absurd place started
    | joining => rfl
    | returned => exact absurd place inside.2
  have over_ : s.joiner = .done := by
    cases place : s.joiner with
    | absent => exact absurd place (kept.joining.begun.mpr begun)
    | created => exact absurd place entered
    | initThread =>
        have main := passes .main List.mem_cons_self
        have stuck := rests .joinInit JoinLabel.noConfusion
        simp only [SchedulerJoin.step, if_pos (And.intro place (Or.inr main))] at stuck
        cases stuck
    | threads later =>
        cases later with
        | nil =>
            have stuck := rests .joinDone JoinLabel.noConfusion
            simp only [SchedulerJoin.step, if_pos place] at stuck
            cases stuck
        | cons w later =>
            have thread := kept.rest _ place w List.mem_cons_self
            have back := passes w ((mem_all kept.joining.boot latched).mpr (Or.inr thread))
            have stuck := rests .joinNext JoinLabel.noConfusion
            simp only [SchedulerJoin.step, place, back, if_true] at stuck
            cases stuck
    | done => rfl
  have returned : s.stopPc = .returned := by
    cases place : s.stopPc with
    | before => exact absurd place begun
    | starting => exact absurd place started
    | joining =>
        have stuck := rests .joinReturns JoinLabel.noConfusion
        simp only [SchedulerJoin.step, if_pos (And.intro place over_)] at stuck
        cases stuck
    | returned => rfl
  have open_ := kept.joining.latched.mpr over_
  refine ⟨returned, open_, fun w member => ?_, fun waiting => ?_⟩
  · exact (halted w member).resolve_right fun inside => inside.2 returned
  · have stuck := rests .waitReturns JoinLabel.noConfusion
    simp only [SchedulerJoin.step, if_pos (And.intro waiting open_)] at stuck
    cases stuck

/-- Nothing goes on after that. -/
theorem Ending.rests_of (kept : Ending c s) (returned : s.stopPc = .returned)
    (latched : s.quitLatch = true) (ended : ∀ w ∈ s.base.all, s.ended w = true)
    (passed : s.waiter ≠ .waiting) : Rests c s := by
  have told := kept.joining.told (by rw [returned]; exact AfterStop.noConfusion)
  have over_ := kept.joining.latched.mp latched
  -- every worker with a thread is in its loop
  have running : ∀ w, s.base.runPc w ≠ .absent → s.base.runPc w = .running := by
    intro w there
    have halted := kept.halts [] told w (kept.present w there)
    exact (halted.resolve_left List.not_mem_nil).1
  intro e old
  rw [Option.eq_none_iff_forall_ne_some]
  intro s' ran
  cases goes_of_step ran with
  | boot base =>
      rcases stopping_cases kept.joining.boot told base with
        ⟨i, created, -⟩ | ⟨w, entered, -⟩ | ⟨_, _, impossible, -⟩
      · have now := running _ (by rw [created]; exact RunPc.noConfusion)
        rw [created] at now
        cases now
      · have now := running _ (by rw [entered]; exact RunPc.noConfusion)
        rw [entered] at now
        cases now
      · cases impossible
  | leave here alive =>
      rw [ended _ (kept.present _ (by rw [here]; exact RunPc.noConfusion))] at alive
      cases alive
  | nothingToJoin _ before => rw [returned] at before; cases before
  | startsJoin _ before => rw [returned] at before; cases before
  | joins _ before => rw [returned] at before; cases before
  | joinEnters created => rw [over_] at created; cases created
  | joinStarted starting => rw [returned] at starting; cases starting
  | joinInit here => rw [over_] at here; cases here
  | joinNext here => rw [over_] at here; cases here
  | joinDone here => rw [over_] at here; cases here
  | joinReturns joining => rw [returned] at joining; cases joining
  | wait => exact old rfl
  | waitReturns waiting => exact passed waiting

/-! ### And they do come to rest -/

def RunPc.cost : RunPc → Nat
  | .absent => 3
  | .created => 2
  | .entered => 1
  | .running => 0

/-- What a worker has left to do. -/
def workerCost (s : SchedulerJoin) (w : WorkerId) : Nat :=
  RunPc.cost (s.base.runPc w) + if s.ended w then 0 else 1

/-- What `joinThread` has left to do with `n` threads. -/
def JoinPc.cost (n : Nat) : JoinPc → Nat
  | .absent => n + 4
  | .created => n + 3
  | .initThread => n + 2
  | .threads rest => rest.length + 1
  | .done => 0

def AfterStop.cost : AfterStop → Nat
  | .before => 2
  | .starting => 1
  | .joining => 1
  | .returned => 0

def WaitPc.cost : WaitPc → Nat
  | .waiting => 1
  | _ => 0

def StopPc.cost : StopPc → Nat
  | .stopping rest => rest.length
  | _ => 0

def workersCost (s : SchedulerJoin) : Nat := ∑ w ∈ s.base.all.toFinset, s.workerCost w

/-- What is left to do from `stop` on. -/
def rank (s : SchedulerJoin) : Nat :=
  StopPc.cost s.base.caller + s.workersCost + JoinPc.cost s.base.threads.length s.joiner +
    AfterStop.cost s.stopPc + WaitPc.cost s.waiter

/-- One worker goes on. -/
theorem workersCost_lt {t : SchedulerJoin} (all : t.base.all = s.base.all) {w : WorkerId}
    (member : w ∈ s.base.all) (less : t.workerCost w < s.workerCost w)
    (others : ∀ w' ≠ w, t.workerCost w' = s.workerCost w') : t.workersCost < s.workersCost := by
  unfold workersCost
  rw [all]
  refine Finset.sum_lt_sum (fun w' _ => ?_) ⟨w, List.mem_toFinset.mpr member, less⟩
  rcases eq_or_ne w' w with rfl | other
  · exact Nat.le_of_lt less
  · exact Nat.le_of_eq (others w' other)

/-- A step of a caller or of the joiner. -/
theorem rank_lt {s' : SchedulerJoin} (base : s'.base = s.base) (ended : s'.ended = s.ended)
    (less : JoinPc.cost s.base.threads.length s'.joiner + AfterStop.cost s'.stopPc +
        WaitPc.cost s'.waiter <
      JoinPc.cost s.base.threads.length s.joiner + AfterStop.cost s.stopPc +
        WaitPc.cost s.waiter) : s'.rank < s.rank := by
  have same : s'.workersCost = s.workersCost := by
    unfold workersCost workerCost
    rw [base, ended]
  unfold rank
  rw [base, same]
  omega

theorem Ending.rank_step (kept : Ending c s) {rest : List WorkerId}
    (stops : s.base.caller = .stopping rest) (ran : s.step c e = some s') (old : e ≠ .wait) :
    s'.rank < s.rank ∧ ∃ rest', s'.base.caller = .stopping rest' := by
  have same : ∀ {w w' : WorkerId} {pc : RunPc}, w' ≠ w →
      Function.update s.base.runPc w pc w' = s.base.runPc w' := fun other =>
    Function.update_of_ne other _ _
  cases goes_of_step ran with
  | boot base =>
      rcases stopping_cases kept.joining.boot stops base with
        ⟨i, created, rfl⟩ | ⟨w, entered, rfl⟩ | ⟨w, later, rfl, rfl⟩
      · refine ⟨?_, rest, stops⟩
        have less := workersCost_lt (s := s)
          (t := { s with base := { s.base with
            runPc := Function.update s.base.runPc (.thread i) .entered } }) rfl
          (kept.present _ (by rw [created]; exact RunPc.noConfusion))
          (by simp [workerCost, created, RunPc.cost]) fun w' other => by
            simp only [workerCost, same other]
        unfold rank
        dsimp only at less ⊢
        omega
      · refine ⟨?_, rest, stops⟩
        have less := workersCost_lt (s := s)
          (t := { s with base := { s.base with
            workerRunning := Function.update s.base.workerRunning w true
            runPc := Function.update s.base.runPc w .running } }) rfl
          (kept.present _ (by rw [entered]; exact RunPc.noConfusion))
          (by simp [workerCost, entered, RunPc.cost]) fun w' other => by
            simp only [workerCost, same other]
        unfold rank
        dsimp only at less ⊢
        omega
      · refine ⟨?_, later, rfl⟩
        unfold rank
        rw [stops]
        simp only [StopPc.cost, List.length_cons]
        change later.length + s.workersCost + _ + _ + _ < _
        omega
  | @leave w has_task timeout running alive =>
      refine ⟨?_, rest, stops⟩
      have less := workersCost_lt (s := s)
        (t := { s with ended := Function.update s.ended w true }) rfl
        (kept.present _ (by rw [running]; exact RunPc.noConfusion))
        (by simp [workerCost, alive]) fun w' other => by
          simp only [workerCost, Function.update_of_ne other]
      unfold rank
      dsimp only at less ⊢
      omega
  | nothingToJoin _ before =>
      refine ⟨rank_lt rfl rfl ?_, rest, stops⟩
      simp only [before, AfterStop.cost]
      omega
  | startsJoin _ before =>
      have nothing :=
        Classical.not_not.mp (kept.joining.begun.not.mpr (Classical.not_not.mpr before))
      refine ⟨rank_lt rfl rfl ?_, rest, stops⟩
      simp only [before, nothing, AfterStop.cost, JoinPc.cost]
      omega
  | joins _ before =>
      have nothing :=
        Classical.not_not.mp (kept.joining.begun.not.mpr (Classical.not_not.mpr before))
      refine ⟨rank_lt rfl rfl ?_, rest, stops⟩
      simp only [before, nothing, AfterStop.cost, JoinPc.cost]
      omega
  | joinEnters created =>
      refine ⟨rank_lt rfl rfl ?_, rest, stops⟩
      simp only [created, JoinPc.cost]
      omega
  | joinStarted starting =>
      refine ⟨rank_lt rfl rfl ?_, rest, stops⟩
      simp only [starting, AfterStop.cost]
      omega
  | joinInit here =>
      refine ⟨rank_lt rfl rfl ?_, rest, stops⟩
      simp only [here, JoinPc.cost]
      omega
  | joinNext here =>
      refine ⟨rank_lt rfl rfl ?_, rest, stops⟩
      simp only [here, JoinPc.cost, List.length_cons]
      omega
  | joinDone here =>
      refine ⟨rank_lt rfl rfl ?_, rest, stops⟩
      simp only [here, JoinPc.cost]
      omega
  | joinReturns joining =>
      refine ⟨rank_lt rfl rfl ?_, rest, stops⟩
      simp only [joining, AfterStop.cost]
      omega
  | wait => exact absurd rfl old
  | waitReturns waiting =>
      refine ⟨rank_lt rfl rfl ?_, rest, stops⟩
      simp only [waiting, WaitPc.cost]
      omega

theorem Ending.rank_run (kept : Ending c s) {rest : List WorkerId}
    (stops : s.base.caller = .stopping rest) {t : SchedulerJoin} {es : List JoinLabel}
    (run : Run (Guarded StopsRunning (Steps (SchedulerJoin.step c))) s es t)
    (old : ∀ e ∈ es, e ≠ .wait) : es.length + t.rank ≤ s.rank := by
  have whole : Ending c t ∧ (∃ rest', t.base.caller = .stopping rest') ∧
      es.length + t.rank ≤ s.rank := by
    induction run with
    | nil => exact ⟨kept, ⟨rest, stops⟩, Nat.le_of_eq (Nat.zero_add _)⟩
    | @snoc t u es e prior last ih =>
        obtain ⟨here, ⟨rest', stops'⟩, before⟩ := ih fun e member =>
          old e (List.mem_append_left _ member)
        obtain ⟨less, stops''⟩ := here.rank_step stops' last.2
          (old e (List.mem_append_right _ List.mem_cons_self))
        refine ⟨here.step last.1 last.2, stops'', ?_⟩
        rw [List.length_append, List.length_singleton]
        omega
  exact whole.2.2

/-- From `stop` on, if it reaches each worker in its loop and each worker gets to see an empty
queue and no timer, a bounded number of steps is left; and none is left exactly when `stop` has
returned, every `run` has returned, and nobody is left in `wait`. -/
theorem shutdown_ends {thread_num : Nat} (positive : 1 ≤ thread_num) {es : List JoinLabel}
    (run : Run (Guarded StopsRunning (Steps (SchedulerJoin.step c))) (new thread_num) es s)
    {rest : List WorkerId} (stopped : s.base.caller = .stopping rest) :
    (∃ bound, ∀ fs t, Run (Guarded StopsRunning (Steps (SchedulerJoin.step c))) s fs t →
      (∀ e ∈ fs, e ≠ .wait) → fs.length ≤ bound) ∧
    (Rests c s ↔ s.stopPc = .returned ∧ s.quitLatch = true ∧
      (∀ w ∈ s.base.all, s.ended w = true) ∧ s.waiter ≠ .waiting) := by
  have kept := Ending.run positive run
  refine ⟨⟨s.rank, fun fs t later old => ?_⟩, ⟨kept.rests stopped, ?_⟩⟩
  · have bound := kept.rank_run stopped later old
    omega
  · rintro ⟨returned, latched, ended, passed⟩
    exact kept.rests_of returned latched ended passed

/-- Whether a step meets `StopsRunning`. -/
def stopsRunning (s : SchedulerJoin) : JoinLabel → Bool
  | .boot .stopNext =>
      match s.base.caller with
      | .stopping (w :: _) => s.base.runPc w == .running
      | _ => true
  | _ => true

theorem guarded_of_step {e : JoinLabel}
    (ran : (if s.stopsRunning e then SchedulerJoin.step c s e else none) = some s') :
    Guarded StopsRunning (Steps (SchedulerJoin.step c)) s e s' := by
  split at ran
  · rename_i meets
    refine ⟨?_, ran⟩
    rintro f rfl rfl w rest stops
    simp only [stopsRunning, stops, beq_iff_eq] at meets
    exact meets
  · cases ran

theorem shutdownOne_leaves :
    (exec (fun s e => if s.stopsRunning e then SchedulerJoin.step onMain s e else none) (new 1)
      (toldOne ++ joinedOne)).map (fun s => (s.base.caller, s.stopPc, s.quitLatch, s.waiter)) =
        some (.stopping [], .returned, true, .returned) := by
  decide

theorem shutdown_ends_one : ∃ s : SchedulerJoin,
    Run (Guarded StopsRunning (Steps (SchedulerJoin.step onMain))) (new 1)
      (toldOne ++ joinedOne) s ∧ Rests onMain s := by
  obtain ⟨s, ran, left⟩ := Option.map_eq_some_iff.mp shutdownOne_leaves
  obtain ⟨told, returned, latched, passed⟩ : s.base.caller = .stopping [] ∧
      s.stopPc = .returned ∧ s.quitLatch = true ∧ s.waiter = .returned := by
    simpa using left
  have run := (run_of_exec ran).mono guarded_of_step
  have kept : Joining onMain s := (Ending.run (by decide) run).joining
  have ended : ∀ w ∈ s.base.all, s.ended w = true := fun w member =>
    ((kept.waited passed).2 w member).resolve_right fun self => Bool.noConfusion self.2
  refine ⟨s, run, (shutdown_ends (by decide) run told).2.mpr ?_⟩
  exact ⟨returned, latched, ended, by rw [passed]; exact WaitPc.noConfusion⟩

/-! ## Why the threads are joined elsewhere -/

/-- What `stop` without hooks on the thread of `w` keeps. -/
structure InPlace (w : WorkerId) (s : SchedulerJoin) : Prop where
  joining : Joining ⟨some w, false⟩ s
  place : s.stopPc ≠ .starting
  alive : s.stopPc ≠ .returned → s.ended w = false
  opened : s.stopPc = .returned → s.quitLatch = true

theorem InPlace.step {w : WorkerId} (kept : InPlace w s)
    (ran : s.step ⟨some w, false⟩ e = some s') : InPlace w s' := by
  have next := kept.joining.step ran
  cases goes_of_step ran with
  | @leave w' has_task timeout running alive can free =>
      refine ⟨next, kept.place, fun within => ?_, kept.opened⟩
      rcases eq_or_ne w' w with rfl | other
      · exact absurd (free rfl) within
      · exact (Function.update_of_ne other.symm _ _).trans (kept.alive within)
  | nothingToJoin told _ empty =>
      have latched := kept.joining.boot.started (by rw [told]; rfl)
      exact absurd empty (some_thread kept.joining.boot latched)
  | startsJoin _ _ hook => exact Bool.noConfusion hook
  | joins _ before =>
      have alive := kept.alive (by rw [before]; exact AfterStop.noConfusion)
      exact ⟨next, AfterStop.noConfusion, fun _ => alive, AfterStop.noConfusion⟩
  | joinStarted starting => exact absurd starting kept.place
  | joinDone => exact ⟨next, kept.place, kept.alive, fun _ => rfl⟩
  | joinReturns _ done =>
      exact ⟨next, AfterStop.noConfusion, fun within => absurd rfl within,
        fun _ => kept.joining.latched.mpr done⟩
  | _ => exact ⟨next, kept.place, kept.alive, kept.opened⟩

end SchedulerJoin

end Reyao
