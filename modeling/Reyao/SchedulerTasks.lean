import Mathlib.Data.Int.CardIntervalMod
import Reyao.SchedulerStop

/-!
# Where a task goes (`scheduler.h`, `scheduler.cc`)

`addTask(cf)` gives tasks to the workers of `workers_` in turn, and `addTask(cf, t)` to
the worker that `workerMap_` has for the thread `t`. A scheduler of one thread has its
main worker first in `workers_` and never comes to the second one; any other has the
worker threads only. The main worker is in `workerMap_` under the thread that made the
scheduler, each other worker under its own thread, whose `id_` is set before
`Thread::start` returns.

`tid i` is the id the system gives to the thread of the worker `i`, and `creator` that
of the thread that made the scheduler.

`getNextWorker` reads and writes `index_` without a lock, and `init` fills `workers_` without
one. So calls of `addTask(cf)` are taken to be made one at a time, and not during a
`push_back` of `init`: each is one step here. Two at the same time may get the same worker.
-/

namespace Reyao

open Lib

/-- What `addTask` came to. -/
inductive TaskResult : Type
  | queued (w : WorkerId)
  /-- `addTask to invalid thread` was logged. -/
  | invalid
  /-- `workers_.at(index_)` has thrown. -/
  | outOfRange
  deriving DecidableEq

namespace Scheduler

/-- The worker whose turn it is, and `index_` after that. One step, as calls of `addTask(cf)` are
made one at a time. -/
def getNextWorker (b : Scheduler) (index : Nat) : Option (WorkerId × Nat) :=
  b.workers[index]?.map fun worker => (worker, (index + 1) % b.threadNum)

/-- What `addTask` finds for the thread `t`, and `index_` after that. -/
def route (b : Scheduler) (workerMap : Int → Option WorkerId) (index : Nat) (t : Int) :
    TaskResult × Nat :=
  if t ≠ -1 then
    match workerMap t with
    | none => (.invalid, index)
    | some worker => (.queued worker, index)
  else
    match b.getNextWorker index with
    | none => (.outOfRange, index)
    | some (worker, index) => (.queued worker, index)

/-- The ways `route` can go. -/
inductive Routed (b : Scheduler) (workerMap : Int → Option WorkerId) (index : Nat) (t : Int) :
    TaskResult → Nat → Prop
  | invalid : t ≠ -1 → workerMap t = none → Routed b workerMap index t .invalid index
  | pinned {w : WorkerId} : t ≠ -1 → workerMap t = some w →
      Routed b workerMap index t (.queued w) index
  | outOfRange : t = -1 → b.workers[index]? = none → Routed b workerMap index t .outOfRange index
  | next {w : WorkerId} : t = -1 → b.workers[index]? = some w →
      Routed b workerMap index t (.queued w) ((index + 1) % b.threadNum)

theorem routed (b : Scheduler) (workerMap : Int → Option WorkerId) (index : Nat) (t : Int) :
    Routed b workerMap index t (b.route workerMap index t).1 (b.route workerMap index t).2 := by
  unfold route
  split
  · rename_i pinned
    cases found : workerMap t with
    | none => exact .invalid pinned found
    | some w => exact .pinned pinned found
  · rename_i any
    have free : t = -1 := Classical.not_not.mp any
    unfold getNextWorker
    cases found : b.workers[index]? with
    | none => exact .outOfRange free found
    | some w => exact .next free found

end Scheduler

inductive TaskLabel (τ : Type) : Type
  | boot (e : SchedulerLabel)
  /-- A task, or an empty function. -/
  | addTask (cf : Option τ) (t : Int) (r : TaskResult)
  /-- `Worker::addTask`, called on the worker itself. -/
  | workerTask (w : WorkerId) (cf : Option τ)
  /-- `Worker::run` takes a task off its queue. -/
  | take (w : WorkerId)
  deriving DecidableEq

structure SchedulerTasks (τ : Type) : Type where
  base : Scheduler
  /-- `id_` of the worker threads. -/
  id : Nat → Int := fun _ => 0
  workerMap : Int → Option WorkerId
  index : Nat := 0
  /-- `tasks_` of the workers. -/
  tasks : WorkerId → List τ := fun _ => []
  /-- What `run` of the workers has taken. -/
  started : WorkerId → List τ := fun _ => []

namespace SchedulerTasks

variable {τ : Type}

/-- `Scheduler(thread_num)`, made on the thread `creator`. -/
def new (creator : Int) (thread_num : Nat) : SchedulerTasks τ where
  base := Scheduler.new thread_num
  workerMap := Function.update (fun _ => none) creator (some .main)

/-- `Worker::addTask`, which does not queue an empty function. -/
def push (s : SchedulerTasks τ) (w : WorkerId) : Option τ → SchedulerTasks τ
  | some task => { s with tasks := Function.update s.tasks w (s.tasks w ++ [task]) }
  | none => s

/-- The task goes to the worker that was found, if any. -/
def give (s : SchedulerTasks τ) (cf : Option τ) : TaskResult → SchedulerTasks τ
  | .queued worker => s.push worker cf
  | _ => s

def addTask (s : SchedulerTasks τ) (cf : Option τ) (t : Int) : TaskResult × SchedulerTasks τ :=
  let found := s.base.route s.workerMap s.index t
  (found.1, give { s with index := found.2 } cf found.1)

/-- What `RunThread` puts into `id_`, before it counts down the latch. -/
def setId (tid : Nat → Int) (id : Nat → Int) : SchedulerLabel → Nat → Int
  | .threadEnters i => Function.update id i (tid i)
  | _ => id

/-- What `init` puts into `workerMap_`, after `Thread::start` has returned. -/
def setWorker (s : SchedulerTasks τ) : SchedulerLabel → Int → Option WorkerId
  | .threadStarted =>
      match s.base.initPc with
      | .starting i => Function.update s.workerMap (s.id i) (some (.thread i))
      | _ => s.workerMap
  | _ => s.workerMap

def step (tid : Nat → Int) (s : SchedulerTasks τ) : TaskLabel τ → Option (SchedulerTasks τ)
  | .boot e => (s.base.step e).map fun base =>
      { s with base := base, id := setId tid s.id e, workerMap := s.setWorker e }
  | .addTask cf t r => if (s.addTask cf t).1 = r then some (s.addTask cf t).2 else none
  | .workerTask w cf => some (s.push w cf)
  | .take w =>
      if s.base.runPc w = .running then
        match s.tasks w with
        | [] => none
        | task :: rest => some { s with
            tasks := Function.update s.tasks w rest
            started := Function.update s.started w (s.started w ++ [task]) }
      else none

/-! ## What the history says -/

/-- The tasks queued for a worker. -/
def queuedTo (w : WorkerId) : TaskLabel τ → Option τ
  | .addTask cf _ (.queued w') => if w' = w then cf else none
  | .workerTask w' cf => if w' = w then cf else none
  | _ => none

/-- An `addTask(cf)` that did not throw. -/
def isTurn : TaskLabel τ → Bool
  | .addTask _ t (.queued _) => t == -1
  | _ => false

/-- An `addTask(cf)` that went to `w`. -/
def isTurnOf (w : WorkerId) : TaskLabel τ → Bool
  | .addTask _ t (.queued w') => t == -1 && w' == w
  | _ => false

def turns (es : List (TaskLabel τ)) : Nat := es.countP isTurn

def turnsOf (es : List (TaskLabel τ)) (w : WorkerId) : Nat := es.countP (isTurnOf w)

/-- How many workers are served in turn. -/
def pool (thread_num : Nat) : Nat := if thread_num = 1 then 1 else thread_num - 1

/-- Whose turn it is after `n` tasks. -/
def turn (thread_num n : Nat) : WorkerId :=
  if thread_num = 1 then .main else .thread (n % pool thread_num)

theorem pool_pos {thread_num : Nat} (positive : 1 ≤ thread_num) : 0 < pool thread_num := by
  unfold pool
  split <;> omega

/-! ## What `init` has built -/

section

variable {b b' : Scheduler} {e : SchedulerLabel}

/-- `workers_` are the worker threads so far, with the main worker before them if it is
the only one to be served. -/
structure Staffed (thread_num : Nat) (b : Scheduler) : Prop where
  boot : b.Boot
  threadNum : b.threadNum = pool thread_num
  workers : b.workers = (if thread_num = 1 then [.main] else []) ++ b.threads

theorem staffed_new {thread_num : Nat} (positive : 1 ≤ thread_num) :
    Staffed thread_num (Scheduler.new thread_num) := by
  refine ⟨Scheduler.boot_new positive, ?_, ?_⟩
  · unfold Scheduler.new pool
    split <;> rfl
  · unfold Scheduler.new
    split <;> rfl

theorem Staffed.step {thread_num : Nat} (staffed : Staffed thread_num b)
    (ran : b.step e = some b') :
    Staffed thread_num b' := by
  refine ⟨staffed.boot.step ran, ?_, ?_⟩
  · rw [← staffed.threadNum]
    cases Scheduler.goes_of_step ran <;> rfl
  · cases Scheduler.goes_of_step ran with
    | threadStarted =>
        rw [staffed.workers, List.append_assoc]
    | _ => exact staffed.workers

/-- The threads so far, in order. -/
theorem threads_eq (boot : b.Boot) :
    b.threads = (List.range b.threads.length).map .thread := by
  have built : ∀ {n : Nat}, b.Built n → b.threads = (List.range b.threads.length).map .thread := by
    intro n built
    have size : b.threads.length = n := by
      rw [built.1, List.length_map, List.length_range]
    rw [size]
    exact built.1
  cases here : b.initPc with
  | absent => exact built (boot.at here).1
  | created => exact built (boot.at here).1
  | loop i => exact built (boot.at here).1.2
  | starting i => exact built (boot.at here).1.2
  | inited => exact built (boot.at here).1
  | done => exact built (boot.at here)

/-- The thread that `init` is about to enter. -/
theorem length_starting (boot : b.Boot) {i : Nat} (here : b.initPc = .starting i) :
    b.threads.length = i := by
  rw [(boot.at here).1.2.1, List.length_map, List.length_range]

/-- All threads are there when `startAsync` has returned. -/
theorem length_started (boot : b.Boot) (returned : b.caller.returned = true) :
    b.threads.length = b.threadNum := by
  obtain ⟨-, built, -⟩ := boot.whole (boot.started returned)
  rw [built, List.length_map, List.length_range]

/-- The worker that `workers_` has at an index below the number of those served. -/
theorem worker_at {thread_num : Nat} (staffed : Staffed thread_num b) {n : Nat} {w : WorkerId}
    (found : b.workers[n % pool thread_num]? = some w) : w = turn thread_num n := by
  rw [staffed.workers, threads_eq staffed.boot] at found
  unfold turn
  split at found
  · rename_i one
    have zero : n % pool thread_num = 0 := by
      unfold pool
      rw [if_pos one, Nat.mod_one]
    rw [zero] at found
    cases found
    rw [if_pos one]
  · rename_i more
    rw [if_neg more]
    rw [List.nil_append, List.getElem?_map, Option.map_eq_some_iff] at found
    obtain ⟨i, at_i, rfl⟩ := found
    obtain ⟨small, same⟩ := List.getElem?_eq_some_iff.mp at_i
    rw [List.getElem_range] at same
    rw [← same]

end

/-! ## What a task goes to -/

section

variable {s s' : SchedulerTasks τ} {e : TaskLabel τ} {w : WorkerId} {cf : Option τ} {t : Int}

@[simp] theorem give_base (s : SchedulerTasks τ) (cf : Option τ) (r : TaskResult) :
    (s.give cf r).base = s.base := by cases r <;> cases cf <;> rfl

@[simp] theorem give_index (s : SchedulerTasks τ) (cf : Option τ) (r : TaskResult) :
    (s.give cf r).index = s.index := by cases r <;> cases cf <;> rfl

@[simp] theorem give_id (s : SchedulerTasks τ) (cf : Option τ) (r : TaskResult) :
    (s.give cf r).id = s.id := by cases r <;> cases cf <;> rfl

@[simp] theorem give_workerMap (s : SchedulerTasks τ) (cf : Option τ) (r : TaskResult) :
    (s.give cf r).workerMap = s.workerMap := by cases r <;> cases cf <;> rfl

@[simp] theorem give_started (s : SchedulerTasks τ) (cf : Option τ) (r : TaskResult) :
    (s.give cf r).started = s.started := by cases r <;> cases cf <;> rfl

theorem push_tasks (s : SchedulerTasks τ) (w w' : WorkerId) (cf : Option τ) :
    (s.push w cf).tasks w' = s.tasks w' ++ (if w = w' then cf else none).toList := by
  cases cf with
  | none =>
      rw [ite_self, Option.toList_none, List.append_nil]
      rfl
  | some task =>
      unfold push
      rcases eq_or_ne w w' with rfl | other
      · rw [if_pos rfl]
        exact Function.update_self _ _ _
      · rw [if_neg other, Option.toList_none, List.append_nil]
        exact Function.update_of_ne other.symm _ _

theorem give_tasks (s : SchedulerTasks τ) (cf : Option τ) (t : Int) (r : TaskResult)
    (w : WorkerId) :
    (s.give cf r).tasks w = s.tasks w ++ (queuedTo w (.addTask cf t r)).toList := by
  cases r with
  | queued w' => exact push_tasks s w' w cf
  | invalid => exact (List.append_nil _).symm
  | outOfRange => exact (List.append_nil _).symm

theorem routed_of_step {tid : Nat → Int} {r : TaskResult}
    (ran : s.step tid (.addTask cf t r) = some s') :
    ∃ index, s.base.Routed s.workerMap s.index t r index ∧
      s' = give { s with index := index } cf r := by
  simp only [step] at ran
  split at ran
  · rename_i result
    cases ran
    rw [← result]
    exact ⟨_, s.base.routed s.workerMap s.index t, rfl⟩
  · cases ran

/-- The threads that `workerMap_` knows after `n` rounds of `init`. -/
def registered (creator : Int) (tid : Nat → Int) : Nat → Int → Option WorkerId
  | 0 => Function.update (fun _ => none) creator (some .main)
  | n + 1 => Function.update (registered creator tid n) (tid n) (some (.thread n))

theorem registered_thread {creator : Int} {tid : Nat → Int} {n : Nat}
    (distinct : ∀ i < n, ∀ j < n, tid i = tid j → i = j) {i : Nat} (small : i < n) :
    registered creator tid n (tid i) = some (.thread i) := by
  induction n with
  | zero => exact absurd small (Nat.not_lt_zero _)
  | succ n ih =>
      rcases Nat.lt_or_eq_of_le (Nat.le_of_lt_succ small) with less | rfl
      · have other : tid i ≠ tid n := fun same =>
          Nat.ne_of_lt less (distinct i small n (Nat.lt_succ_self n) same)
        refine (Function.update_of_ne other _ _).trans (ih (fun i less j less' => ?_) less)
        exact distinct i (Nat.lt_succ_of_lt less) j (Nat.lt_succ_of_lt less')
      · exact Function.update_self _ _ _

/-- A thread other than those of the worker threads. -/
theorem registered_other {creator : Int} {tid : Nat → Int} {n : Nat}
    (other : ∀ i < n, tid i ≠ t) :
    registered creator tid n t = if t = creator then some .main else none := by
  induction n with
  | zero =>
      unfold registered
      rcases eq_or_ne t creator with rfl | apart
      · rw [if_pos rfl]
        exact Function.update_self _ _ _
      · rw [if_neg apart]
        exact Function.update_of_ne apart _ _
  | succ n ih =>
      refine (Function.update_of_ne (other n (Nat.lt_succ_self n)).symm _ _).trans ?_
      exact ih fun i less => other i (Nat.lt_succ_of_lt less)

end

/-! ## Runs -/

/-- What every run keeps. -/
structure Routes (creator : Int) (tid : Nat → Int) (thread_num : Nat) (es : List (TaskLabel τ))
    (s : SchedulerTasks τ) : Prop where
  staffed : Staffed thread_num s.base
  index : s.index = turns es % pool thread_num
  queues : ∀ w, s.started w ++ s.tasks w = es.filterMap (queuedTo w)
  created : ∀ i, s.base.initPc = .starting i → s.base.runPc (.thread i) ≠ .absent
  named : ∀ i, s.base.runPc (.thread i) ≠ .absent → s.base.runPc (.thread i) ≠ .created →
    s.id i = tid i
  mapped : s.workerMap = registered creator tid s.base.threads.length

section

variable {creator : Int} {tid : Nat → Int} {thread_num : Nat} {es : List (TaskLabel τ)}
  {s s' : SchedulerTasks τ} {e : TaskLabel τ}

theorem routes_new (positive : 1 ≤ thread_num) :
    Routes creator tid thread_num [] (new (τ := τ) creator thread_num) where
  staffed := staffed_new positive
  index := (Nat.zero_mod _).symm
  queues _ := rfl
  created i here := by
    unfold new Scheduler.new at here
    dsimp only at here
    split at here <;> cases here
  named i there := by
    refine absurd ?_ there
    unfold new Scheduler.new
    dsimp only
    split <;> rfl
  mapped := by
    unfold new Scheduler.new
    dsimp only
    split <;> rfl

theorem turns_snoc (es : List (TaskLabel τ)) (e : TaskLabel τ) :
    turns (es ++ [e]) = turns es + if isTurn e then 1 else 0 := by
  unfold turns
  rw [List.countP_append, List.countP_singleton]

theorem queued_snoc (es : List (TaskLabel τ)) (e : TaskLabel τ) (w : WorkerId) :
    (es ++ [e]).filterMap (queuedTo w) = es.filterMap (queuedTo w) ++ (queuedTo w e).toList := by
  rw [List.filterMap_append]
  cases h : queuedTo w e <;> simp [h]

/-- The place in `Thread::start` of a worker thread is that of a thread which exists. -/
theorem created_step {b b' : Scheduler} {e : SchedulerLabel}
    (created : ∀ i, b.initPc = .starting i → b.runPc (.thread i) ≠ .absent)
    (ran : b.step e = some b') :
    ∀ i, b'.initPc = .starting i → b'.runPc (.thread i) ≠ .absent := by
  have keeps : ∀ {w : WorkerId} {pc : RunPc}, pc ≠ .absent → ∀ i, b.initPc = .starting i →
      Function.update b.runPc w pc (.thread i) ≠ .absent := by
    intro w pc present i here
    rcases eq_or_ne (.thread i) w with rfl | other
    · rw [Function.update_self]
      exact present
    · rw [Function.update_of_ne other]
      exact created i here
  cases Scheduler.goes_of_step ran with
  | startThread =>
      intro i here
      cases here
      dsimp only
      rw [Function.update_self]
      exact RunPc.noConfusion
  | threadEnters => exact keeps RunPc.noConfusion
  | run => exact keeps RunPc.noConfusion
  | startsAgain => exact created
  | startReturns => exact created
  | initStarted => exact created
  | stop => exact created
  | stopsAgain => exact created
  | stopNext => exact created
  | _ =>
      intro i here
      cases here

/-- A thread that is past its latch has set its `id_`. -/
theorem named_step {b b' : Scheduler} {e : SchedulerLabel} {id : Nat → Int}
    (named : ∀ i, b.runPc (.thread i) ≠ .absent → b.runPc (.thread i) ≠ .created → id i = tid i)
    (ran : b.step e = some b') :
    ∀ i, b'.runPc (.thread i) ≠ .absent → b'.runPc (.thread i) ≠ .created →
      setId tid id e i = tid i := by
  cases Scheduler.goes_of_step ran with
  | @startThread i here more =>
      intro j present past
      rcases eq_or_ne (WorkerId.thread j) (.thread i) with same | other
      · rw [same] at past
        exact absurd (Function.update_self _ _ _) past
      · dsimp only at present past
        rw [Function.update_of_ne other] at present past
        exact named j present past
  | @threadEnters i created =>
      intro j present past
      unfold setId
      rcases eq_or_ne j i with rfl | other
      · exact Function.update_self _ _ _
      · dsimp only at present past
        rw [Function.update_of_ne (fun same => other (WorkerId.thread.inj same))] at present past
        dsimp only
        rw [Function.update_of_ne other]
        exact named j present past
  | countDown =>
      intro j present past
      dsimp only at present past
      rw [Function.update_of_ne WorkerId.noConfusion] at present past
      exact named j present past
  | @run w entered =>
      intro j present past
      rcases eq_or_ne (WorkerId.thread j) w with rfl | other
      · refine named j ?_ ?_ <;> rw [entered] <;> exact RunPc.noConfusion
      · dsimp only at present past
        rw [Function.update_of_ne other] at present past
        exact named j present past
  | _ => exact named

theorem Routes.boot_step (routes : Routes creator tid thread_num es s) {f : SchedulerLabel}
    {b : Scheduler} (ran : s.base.step f = some b) :
    Routes creator tid thread_num (es ++ [.boot f])
      { s with base := b, id := setId tid s.id f, workerMap := s.setWorker f } where
  staffed := routes.staffed.step ran
  index := by
    rw [turns_snoc]
    exact routes.index
  queues w := by
    rw [queued_snoc]
    exact (routes.queues w).trans (List.append_nil _).symm
  created := created_step routes.created ran
  named := named_step routes.named ran
  mapped := by
    have boot := routes.staffed.boot
    have mapped := routes.mapped
    cases Scheduler.goes_of_step ran with
    | @threadStarted i here entered =>
        have named := routes.named i (routes.created i here) entered
        have size := length_starting boot here
        simp only [setWorker, here, List.length_append, List.length_singleton, size]
        rw [size] at mapped
        rw [mapped, named]
        rfl
    | _ => exact mapped

/-- A task that is handed on, by the scheduler or not. -/
theorem Routes.give (routes : Routes creator tid thread_num es s) {cf : Option τ} {t : Int}
    {r : TaskResult} {index : Nat} (turn : index = turns (es ++ [e]) % pool thread_num)
    (queued : ∀ w, queuedTo w e = queuedTo w (.addTask cf t r)) :
    Routes creator tid thread_num (es ++ [e]) (SchedulerTasks.give { s with index := index } cf r)
    where
  staffed := by
    rw [give_base]
    exact routes.staffed
  index := by
    rw [give_index]
    exact turn
  queues w := by
    rw [give_started, give_tasks _ cf t r w, queued_snoc, queued w, ← List.append_assoc]
    exact congrArg (· ++ _) (routes.queues w)
  created := by
    rw [give_base]
    exact routes.created
  named := by
    rw [give_base, give_id]
    exact routes.named
  mapped := by
    rw [give_base, give_workerMap]
    exact routes.mapped

/-- `index_` after an `addTask`. -/
theorem Routes.index_routed (routes : Routes creator tid thread_num es s) {cf : Option τ} {t : Int}
    {r : TaskResult} {index : Nat} (found : s.base.Routed s.workerMap s.index t r index) :
    index = turns (es ++ [.addTask cf t r]) % pool thread_num := by
  rw [turns_snoc]
  cases found with
  | invalid => exact routes.index
  | outOfRange => exact routes.index
  | @pinned w pinned =>
      have other : isTurn (.addTask cf t (.queued w)) = false := beq_eq_false_iff_ne.mpr pinned
      rw [other]
      exact routes.index
  | @next w free =>
      have here : isTurn (.addTask cf t (.queued w)) = true := beq_iff_eq.mpr free
      rw [here, if_pos rfl, routes.staffed.threadNum, routes.index, Nat.mod_add_mod]

theorem Routes.step (routes : Routes creator tid thread_num es s)
    (ran : s.step tid e = some s') : Routes creator tid thread_num (es ++ [e]) s' := by
  cases e with
  | boot f =>
      obtain ⟨b, base, rfl⟩ := Option.map_eq_some_iff.mp ran
      exact routes.boot_step base
  | addTask cf t r =>
      obtain ⟨index, found, rfl⟩ := routed_of_step ran
      exact routes.give (routes.index_routed found) fun _ => rfl
  | workerTask w' cf =>
      cases ran
      have unmoved : s.index = turns (es ++ [.workerTask w' cf]) % pool thread_num := by
        rw [turns_snoc]
        exact routes.index
      exact routes.give (t := 0) (r := .queued w') unmoved fun _ => rfl
  | take w' =>
      simp only [SchedulerTasks.step] at ran
      split at ran
      · split at ran
        · cases ran
        · rename_i task rest whole
          cases ran
          refine ⟨routes.staffed, ?_, fun w => ?_, routes.created, routes.named, routes.mapped⟩
          · rw [turns_snoc]
            exact routes.index
          · rw [queued_snoc]
            refine Eq.trans ?_ ((routes.queues w).trans (List.append_nil _).symm)
            rcases eq_or_ne w w' with rfl | other
            · dsimp only
              rw [Function.update_self, Function.update_self, whole, List.append_assoc,
                List.singleton_append]
            · dsimp only
              rw [Function.update_of_ne other, Function.update_of_ne other]
      · cases ran

theorem Routes.run (positive : 1 ≤ thread_num)
    (run : Run (Steps (SchedulerTasks.step tid)) (new creator thread_num) es s) :
    Routes creator tid thread_num es s :=
  run.historyInvariant (I := Routes creator tid thread_num) (routes_new positive)
    fun routes ran => routes.step ran

/-- `addTask(cf)` serves the next worker, or `workers_` is not filled yet. -/
theorem Routes.turn (positive : 1 ≤ thread_num) (routes : Routes creator tid thread_num es s)
    {cf : Option τ} {r : TaskResult} (ran : s.step tid (.addTask cf (-1) r) = some s') :
    r = .queued (turn thread_num (turns es)) ∨
      (r = .outOfRange ∧ s.base.caller.returned = false) := by
  obtain ⟨index, found, -⟩ := routed_of_step ran
  cases found with
  | invalid pinned => exact absurd rfl pinned
  | pinned pinned => exact absurd rfl pinned
  | next _ found =>
      rw [routes.index] at found
      exact Or.inl (congrArg _ (worker_at routes.staffed found))
  | outOfRange _ none_there =>
      refine Or.inr ⟨rfl, Bool.eq_false_iff.mpr fun returned => ?_⟩
      have few := List.getElem?_eq_none_iff.mp none_there
      have small : s.index < pool thread_num := by
        rw [routes.index]
        exact Nat.mod_lt _ (pool_pos positive)
      rw [routes.staffed.workers, List.length_append, length_started routes.staffed.boot returned,
        routes.staffed.threadNum] at few
      omega

/-- The tasks that have gone to a worker thread are those of its turns. -/
theorem turnsOf_eq (positive : 1 ≤ thread_num) (several : thread_num ≠ 1)
    (run : Run (Steps (SchedulerTasks.step tid)) (new (τ := τ) creator thread_num) es s) {i : Nat}
    (small : i < pool thread_num) :
    turnsOf es (.thread i) = (turns es).count (· ≡ i [MOD pool thread_num]) := by
  refine (run.historyInvariant (I := fun es s => Routes creator tid thread_num es s ∧
    turnsOf es (.thread i) = (turns es).count (· ≡ i [MOD pool thread_num]))
    ⟨routes_new positive, (Nat.count_zero _).symm⟩ fun {es s e s'} held ran => ?_).2
  obtain ⟨routes, same⟩ := held
  refine ⟨routes.step ran, ?_⟩
  have counts : turnsOf (es ++ [e]) (.thread i) =
      turnsOf es (.thread i) + if isTurnOf (.thread i) e then 1 else 0 := by
    unfold turnsOf
    rw [List.countP_append, List.countP_singleton]
  have idle : isTurn e = false → isTurnOf (.thread i) e = false →
      turnsOf (es ++ [e]) (.thread i) =
        (turns (es ++ [e])).count (· ≡ i [MOD pool thread_num]) := by
    intro no_turn no_turnOf
    rw [counts, no_turnOf, turns_snoc, no_turn]
    exact same
  cases e with
  | boot f => exact idle rfl rfl
  | workerTask w cf => exact idle rfl rfl
  | take w => exact idle rfl rfl
  | addTask cf t r =>
      cases r with
      | invalid => exact idle rfl rfl
      | outOfRange => exact idle rfl rfl
      | queued w =>
          rcases eq_or_ne t (-1) with rfl | pinned
          · have next := (routes.turn positive ran).resolve_right fun impossible => by
              cases impossible.1
            have served : w = SchedulerTasks.turn thread_num (turns es) :=
              TaskResult.queued.inj next
            have here : isTurn (.addTask cf (-1) (.queued w)) = true := rfl
            have mine : isTurnOf (.thread i) (.addTask cf (-1) (.queued w)) =
                decide (turns es ≡ i [MOD pool thread_num]) := by
              have which : isTurnOf (.thread i) (.addTask cf (-1) (.queued w)) =
                  (w == .thread i) := rfl
              have iff_ : w = .thread i ↔ turns es ≡ i [MOD pool thread_num] := by
                rw [served, SchedulerTasks.turn, if_neg several, WorkerId.thread.injEq, Nat.ModEq,
                  Nat.mod_eq_of_lt small]
              rw [which, Bool.eq_iff_iff, beq_iff_eq, decide_eq_true_iff, iff_]
            rw [counts, mine, turns_snoc, here, if_pos rfl, Nat.count_succ, same]
            simp only [decide_eq_true_eq]
          · have no_turn : (t == -1) = false := beq_eq_false_iff_ne.mpr pinned
            refine idle no_turn ?_
            change (t == -1 && w == .thread i) = false
            rw [no_turn, Bool.false_and]

/-- In any order of `init`, of `addTask` calls (those of `addTask(cf)` one at a time) and of the
workers' own steps `addTask(cf)` serves the workers in turn, and throws only before
`startAsync` has returned; what has gone to a worker is what it has started and then its
queue, in order; and of the tasks served in turn no worker thread has more than one above
another. -/
theorem addTask_turns (positive : 1 ≤ thread_num)
    (run : Run (Steps (SchedulerTasks.step tid)) (new (τ := τ) creator thread_num) es s) :
    (∀ cf r s', s.step tid (.addTask cf (-1) r) = some s' →
      r = .queued (turn thread_num (turns es)) ∨
        (r = .outOfRange ∧ s.base.caller.returned = false)) ∧
    (∀ w, s.started w ++ s.tasks w = es.filterMap (queuedTo w)) ∧
    (thread_num ≠ 1 → ∀ i < thread_num - 1,
      turnsOf es (.thread i) = turns es / (thread_num - 1) ∨
        turnsOf es (.thread i) = turns es / (thread_num - 1) + 1) := by
  have routes := Routes.run positive run
  refine ⟨fun cf r s' ran => routes.turn positive ran, routes.queues, fun several i small => ?_⟩
  have size : pool thread_num = thread_num - 1 := if_neg several
  have share := turnsOf_eq positive several run (size ▸ small)
  rw [size, Nat.count_modEq_card _ (by omega)] at share
  rw [share]
  split
  · exact Or.inr rfl
  · exact Or.inl rfl

/-- Once `startAsync` has returned, `addTask(cf, t)` finds the worker that runs on the thread
`t`. The main worker it finds only under the thread that made the scheduler, which is not the
one the main worker runs on; for any other thread the task is dropped. -/
theorem addTask_pinned (positive : 1 ≤ thread_num)
    (distinct : ∀ i < pool thread_num, ∀ j < pool thread_num, tid i = tid j → i = j)
    (run : Run (Steps (SchedulerTasks.step tid)) (new (τ := τ) creator thread_num) es s)
    (returned : s.base.caller.returned = true) {t : Int} (thread : t ≠ -1) (cf : Option τ) :
    (∀ i < pool thread_num, tid i = t →
      s.addTask cf t = (.queued (.thread i), s.push (.thread i) cf)) ∧
    ((∀ i < pool thread_num, tid i ≠ t) →
      s.addTask cf t =
        if t = creator then (.queued .main, s.push .main cf) else (.invalid, s)) := by
  have routes := Routes.run positive run
  have size : s.base.threads.length = pool thread_num :=
    (length_started routes.staffed.boot returned).trans routes.staffed.threadNum
  have known := routes.mapped
  rw [size] at known
  constructor
  · rintro i small rfl
    have found : s.workerMap (tid i) = some (.thread i) := by
      rw [known, registered_thread distinct small]
    unfold addTask Scheduler.route
    rw [if_pos thread, found]
    rfl
  · intro other
    have found : s.workerMap t = if t = creator then some .main else none := by
      rw [known, registered_other other]
    unfold addTask Scheduler.route
    rcases Decidable.em (t = creator) with same | apart
    · rw [if_pos same] at found ⊢
      rw [if_pos thread, found]
      rfl
    · rw [if_neg apart] at found ⊢
      rw [if_pos thread, found]
      rfl

end

/-- Two worker threads, with the ids ten and eleven, up to the return of `startAsync`. -/
def startThree : List (TaskLabel Nat) :=
  [.startAsync, .initEnters, .initStarted, .startThread, .threadEnters 0, .threadStarted,
    .startThread, .threadEnters 1, .threadStarted, .setRunning, .countDown, .startReturns].map .boot

/-- Three tasks in turn, one of them taken. -/
def addThree : List (TaskLabel Nat) :=
  startThree ++ [.addTask (some 5) (-1) (.queued (.thread 0)),
    .addTask (some 6) (-1) (.queued (.thread 1)), .addTask (some 7) (-1) (.queued (.thread 0)),
    .boot (.run (.thread 0)), .take (.thread 0)]

/-- The ids of the threads. -/
def tidTen (i : Nat) : Int := i + 10

theorem addThree_leaves :
    (exec (SchedulerTasks.step tidTen) (new 1 3) addThree).map
      (fun s => (s.started (.thread 0), s.tasks (.thread 0), s.base.caller.returned)) =
        some ([5], [7], true) := by
  decide

theorem addTask_turns_three : ∃ s : SchedulerTasks Nat,
    Run (Steps (SchedulerTasks.step tidTen)) (new 1 3) addThree s ∧
      s.started (.thread 0) ++ s.tasks (.thread 0) = [5, 7] ∧
      (turnsOf addThree (.thread 0) = turns addThree / 2 ∨
        turnsOf addThree (.thread 0) = turns addThree / 2 + 1) := by
  obtain ⟨s, ran, -⟩ := Option.map_eq_some_iff.mp addThree_leaves
  have run := run_of_exec ran
  obtain ⟨-, queues, balanced⟩ := addTask_turns (by decide) run
  exact ⟨s, run, queues (.thread 0), balanced (by decide) 0 (by decide)⟩

theorem addTask_pinned_three : ∃ s : SchedulerTasks Nat,
    Run (Steps (SchedulerTasks.step tidTen)) (new 1 3) addThree s ∧
      s.addTask (some 8) 11 = (.queued (.thread 1), s.push (.thread 1) (some 8)) ∧
      s.addTask (some 8) 2 = (.invalid, s) := by
  obtain ⟨s, ran, left⟩ := Option.map_eq_some_iff.mp addThree_leaves
  have run := run_of_exec ran
  have returned : s.base.caller.returned = true := by
    simpa using congrArg (fun x => x.2.2) left
  have pinned := fun t thread => addTask_pinned (by decide)
    (fun i _ j _ same => by unfold tidTen at same; omega) run returned (t := t) thread (some 8)
  refine ⟨s, run, (pinned 11 (by decide)).1 1 (by decide) (by decide), ?_⟩
  exact (pinned 2 (by decide)).2 fun i _ => by unfold tidTen; omega

end SchedulerTasks

end Reyao
