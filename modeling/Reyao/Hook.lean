import Reyao.FdManager
import Reyao.Timer

/-!
# Hooked calls on workers (`hook.cc`, `worker.cc`, `scheduler.cc`)

A `System` is a scheduler: its workers with their task queues and pollers, the
coroutines, the timers the workers share, the contexts of the descriptors and the
files the kernel has open. A `Label` says which worker makes which step; `step` is
what happens then. A worker runs one coroutine until it suspends, so a step of a
coroutine is a step of the worker that runs it.

A hooked call is cut where other workers can come between: at the original
function, at the timer, at the registration, at the wait, at the parts of `close`.
`socket` and `accept` hand out the lowest free number, and add its context before
anybody else knows the number. Steps that would run into a failed assertion or
outside a table have no result.
-/

namespace Reyao

/-- An open file. -/
structure File : Type where
  id : Nat
  isSock : Bool
  deriving DecidableEq

inductive Errno : Type
  | EAGAIN
  | EINTR
  | EINPROGRESS
  | EBADF
  | ETIMEDOUT
  | other
  deriving DecidableEq, Repr

/-- What a hooked call returns: something else than -1, or -1 with `errno`. -/
inductive CallResult : Type
  | success
  | failure (errno : Errno)
  deriving DecidableEq

/-- The hooked functions that may suspend: those that read, those that write,
`accept` and `connect_with_timeout`. -/
inductive CallKind : Type
  | read
  | write
  | accept
  | connect (timeout : Int)
  deriving DecidableEq

/-- The direction a call waits for. -/
def CallKind.type : CallKind → EventType
  | .read => .EPOLLIN
  | .write => .EPOLLOUT
  | .accept => .EPOLLIN
  | .connect _ => .EPOLLOUT

/-- A call of a hooked function that has not returned. -/
structure Call (W : Type) : Type where
  kind : CallKind
  fd : Nat
  timeout : Int
  /-- The number of the call among those of its coroutine; it identifies `tinfo`. -/
  serial : Nat
  /-- `tinfo->cancelled`. -/
  cancelled : Option Errno := none
  /-- The worker that runs the call, and the file of the descriptor when it
  began. No step looks at them. -/
  worker : W
  file : Option File

/-- The functions that `addConditonTimer` is given: what the closure has captured,
with the `timerInfo` of `winfo` named by its coroutine and the call. -/
structure Callback : Type where
  co : Nat
  serial : Nat
  fd : Nat
  type : EventType
  deriving DecidableEq

/-- Where a coroutine is. -/
inductive Pc (W : Type) : Type
  /-- Not in a queue: not started, asleep or finished. -/
  | away
  /-- In a queue as a task. -/
  | ready
  /-- In code that is not hooked. -/
  | user
  /-- Before the only call of the original function. -/
  | direct (call : Call W)
  /-- Before a call of the original function, at `retry`. -/
  | origin (call : Call W)
  /-- The original function would block. -/
  | blocked (call : Call W)
  /-- The timer is set. -/
  | armed (call : Call W) (timer : Option TimerPtr)
  /-- In `YieldToSuspend`. -/
  | suspended (call : Call W) (timer : Option TimerPtr)
  /-- Before the `getsockopt` of `connect_with_timeout`. -/
  | probe (call : Call W)
  /-- In `close`, after `HandleAllEvent`; `managed` says whether there was a context. -/
  | closing (fd : Nat) (managed : Bool)

variable {W : Type}

/-- The hooked call a coroutine is in. -/
def Pc.call? : Pc W → Option (Call W)
  | .direct call => some call
  | .origin call => some call
  | .blocked call => some call
  | .armed call _ => some call
  | .suspended call _ => some call
  | .probe call => some call
  | _ => none

/-- `tinfo->cancelled = errno`. -/
def Pc.cancel (errno : Errno) : Pc W → Pc W
  | .direct call => .direct { call with cancelled := some errno }
  | .origin call => .origin { call with cancelled := some errno }
  | .blocked call => .blocked { call with cancelled := some errno }
  | .armed call timer => .armed { call with cancelled := some errno } timer
  | .suspended call timer => .suspended { call with cancelled := some errno } timer
  | .probe call => .probe { call with cancelled := some errno }
  | pc => pc

theorem Pc.call?_cancel (errno : Errno) (pc : Pc W) :
    (pc.cancel errno).call? = pc.call?.map fun call => { call with cancelled := some errno } := by
  cases pc <;> rfl

structure Coroutine (W : Type) : Type where
  pc : Pc W := .away
  /-- The hooked calls it has begun. -/
  calls : Nat := 0
  /-- What the last hooked call returned. -/
  returned : Option CallResult := none

/-- A hooked call returns. -/
def Coroutine.returns (result : CallResult) (co : Coroutine W) : Coroutine W :=
  { co with pc := .user, returned := some result }

/-- Where a worker's thread is. -/
inductive WorkerPhase : Type
  /-- In `run`, before it looks at the queue. -/
  | loop
  | running (c : Nat)
  /-- In `Epoller::wait`, back from `epoll_wait` with some events. -/
  | polled (reports : List (Nat × EpollMask))
  /-- In the loop over these events. -/
  | handling (reports : List (Nat × EpollMask))

structure Worker (W : Type) : Type where
  phase : WorkerPhase := .loop
  tasks : List (Task Nat Callback) := []
  poller : Epoller W Nat Callback := {}

structure System (W : Type) : Type where
  workers : W → Worker W
  coroutines : Nat → Coroutine W
  timers : TimeManager Callback
  fdmanager : FdManager
  files : Nat → Option File
  /-- The number of the next file. -/
  nextFile : Nat

/-- What the original function answers. -/
inductive Answer : Type
  | success
  /-- `accept` has made a descriptor. -/
  | accepted (fd : Nat)
  | failure (errno : Errno)
  deriving DecidableEq

inductive Label (W : Type) : Type
  | schedule (w : W) (c : Nat)
  | take (w : W)
  | poll (w : W) (reports : List (Nat × EpollMask))
  | expire (w : W) (now : Int) (probe : Nat)
  | report (w : W)
  | leave (w : W)
  | begin (w : W) (kind : CallKind) (fd : Nat)
  | origin (w : W) (answer : Answer)
  | addTimer (w : W) (addr : Nat) (now : Int)
  | addEvent (w : W) (refused : Bool)
  | probe (w : W) (error : Option Errno)
  | cancel (w : W) (fd : Nat) (type : EventType)
  | cancelAll (w : W) (fd : Nat)
  | close (w : W) (fd : Nat)
  | closeOrigin (w : W)
  | socket (w : W) (fd : Nat)
  | setTimeout (w : W) (fd : Nat) (type : EventType) (timeout : Int)
  | setUserNonBlock (w : W) (fd : Nat) (flag : Bool)

namespace System

/-- A scheduler that has just started, in a process with some open files. -/
def init (files : Nat → Option File) (nextFile : Nat) : System W where
  workers _ := {}
  coroutines _ := {}
  timers := .init
  fdmanager := {}
  files := files
  nextFile := nextFile

/-- A hooked call of `c` that has not returned. -/
def InCall (s : System W) (c : Nat) (call : Call W) : Prop := (s.coroutines c).pc.call? = some call

variable [DecidableEq W]

/-- Replace the state of a worker. -/
def setWorker (w : W) (worker : Worker W) (s : System W) : System W :=
  { s with workers := Function.update s.workers w worker }

def setPhase (w : W) (phase : WorkerPhase) (s : System W) : System W :=
  s.setWorker w { s.workers w with phase := phase }

def setTasks (w : W) (tasks : List (Task Nat Callback)) (s : System W) : System W :=
  s.setWorker w { s.workers w with tasks := tasks }

def setPoller (w : W) (poller : Epoller W Nat Callback) (s : System W) : System W :=
  s.setWorker w { s.workers w with poller := poller }

/-- Replace the state of a coroutine. -/
def setCoroutine (c : Nat) (co : Coroutine W) (s : System W) : System W :=
  { s with coroutines := Function.update s.coroutines c co }

def setPc (c : Nat) (pc : Pc W) (s : System W) : System W :=
  s.setCoroutine c { s.coroutines c with pc := pc }

/-- `addTask`. -/
def addTasks (tasks : List (W × Task Nat Callback)) (s : System W) : System W :=
  tasks.foldl (fun s task => s.setTasks task.1 ((s.workers task.1).tasks ++ [task.2])) s

/-- A hooked call returns. -/
def returns (c : Nat) (result : CallResult) (s : System W) : System W :=
  s.setCoroutine c ((s.coroutines c).returns result)

/-- The kernel's answers to `epoll_ctl` on the poller of `w`; it may refuse to add a
descriptor for reasons of its own. -/
def granted (w : W) (refused : Bool) (s : System W) : CtlOp → Nat → Bool
  | .EPOLL_CTL_ADD, fd => (s.files fd).isSome && ((s.workers w).poller.interest fd).isNone &&
      !refused
  | .EPOLL_CTL_MOD, fd => (s.files fd).isSome && ((s.workers w).poller.interest fd).isSome
  | .EPOLL_CTL_DEL, fd => (s.files fd).isSome && ((s.workers w).poller.interest fd).isSome

/-- `Worker::HandleEvent(fd, type)` on a thread of `w`. -/
def HandleEvent (w : W) (fd : Nat) (type : EventType) (s : System W) : Option (System W) := do
  let (_, woken, poller) ← (s.workers w).poller.handleEvent (s.granted w false) fd type
  return (s.setPoller w poller).addTasks woken

/-- `Worker::HandleAllEvent(fd)` on a thread of `w`. -/
def HandleAllEvent (w : W) (fd : Nat) (s : System W) : Option (System W) := do
  let (_, woken, poller) ← (s.workers w).poller.handleAllEvent (s.granted w false) fd
  return (s.setPoller w poller).addTasks woken

/-- `timer->cancel()`, if there is a timer. -/
def cancelTimer (timer : Option TimerPtr) (s : System W) : System W :=
  match timer with
  | none => s
  | some t => { s with timers := (s.timers.cancel t).2 }

section

variable {s s' : System W} {w : W} {c : Nat}

@[simp] theorem coroutines_setPhase (phase : WorkerPhase) :
    (s.setPhase w phase).coroutines = s.coroutines := rfl

@[simp] theorem coroutines_setTasks (tasks : List (Task Nat Callback)) :
    (s.setTasks w tasks).coroutines = s.coroutines := rfl

@[simp] theorem coroutines_setPoller (poller : Epoller W Nat Callback) :
    (s.setPoller w poller).coroutines = s.coroutines := rfl

omit [DecidableEq W] in
@[simp] theorem coroutines_setCoroutine_self (co : Coroutine W) :
    (s.setCoroutine c co).coroutines c = co := Function.update_self ..

omit [DecidableEq W] in
theorem coroutines_setCoroutine_of_ne {c' : Nat} (other : c' ≠ c) (co : Coroutine W) :
    (s.setCoroutine c co).coroutines c' = s.coroutines c' := Function.update_of_ne other ..

@[simp] theorem files_setPhase (phase : WorkerPhase) : (s.setPhase w phase).files = s.files := rfl

@[simp] theorem files_setTasks (tasks : List (Task Nat Callback)) :
    (s.setTasks w tasks).files = s.files := rfl

@[simp] theorem files_setPoller (poller : Epoller W Nat Callback) :
    (s.setPoller w poller).files = s.files := rfl

theorem workers_setWorker (worker : Worker W) (v : W) :
    (s.setWorker w worker).workers v = if v = w then worker else s.workers v :=
  Function.update_apply ..

theorem phase_setPhase (phase : WorkerPhase) (v : W) :
    ((s.setPhase w phase).workers v).phase =
      if v = w then phase else (s.workers v).phase := by
  rw [setPhase, workers_setWorker]
  split <;> rfl

@[simp] theorem tasks_setPhase (phase : WorkerPhase) (v : W) :
    ((s.setPhase w phase).workers v).tasks = (s.workers v).tasks := by
  rw [setPhase, workers_setWorker]
  split
  · rename_i same
    rw [same]
  · rfl

@[simp] theorem poller_setPhase (phase : WorkerPhase) (v : W) :
    ((s.setPhase w phase).workers v).poller = (s.workers v).poller := by
  rw [setPhase, workers_setWorker]
  split
  · rename_i same
    rw [same]
  · rfl

@[simp] theorem phase_setTasks (tasks : List (Task Nat Callback)) (v : W) :
    ((s.setTasks w tasks).workers v).phase = (s.workers v).phase := by
  rw [setTasks, workers_setWorker]
  split
  · rename_i same
    rw [same]
  · rfl

theorem tasks_setTasks (tasks : List (Task Nat Callback)) (v : W) :
    ((s.setTasks w tasks).workers v).tasks =
      if v = w then tasks else (s.workers v).tasks := by
  rw [setTasks, workers_setWorker]
  split <;> rfl

@[simp] theorem poller_setTasks (tasks : List (Task Nat Callback)) (v : W) :
    ((s.setTasks w tasks).workers v).poller = (s.workers v).poller := by
  rw [setTasks, workers_setWorker]
  split
  · rename_i same
    rw [same]
  · rfl

@[simp] theorem phase_setPoller (poller : Epoller W Nat Callback) (v : W) :
    ((s.setPoller w poller).workers v).phase = (s.workers v).phase := by
  rw [setPoller, workers_setWorker]
  split
  · rename_i same
    rw [same]
  · rfl

@[simp] theorem tasks_setPoller (poller : Epoller W Nat Callback) (v : W) :
    ((s.setPoller w poller).workers v).tasks = (s.workers v).tasks := by
  rw [setPoller, workers_setWorker]
  split
  · rename_i same
    rw [same]
  · rfl

theorem poller_setPoller (poller : Epoller W Nat Callback) (v : W) :
    ((s.setPoller w poller).workers v).poller =
      if v = w then poller else (s.workers v).poller := by
  rw [setPoller, workers_setWorker]
  split <;> rfl

/-- What `addTask` leaves alone. -/
theorem addTasks_eq (tasks : List (W × Task Nat Callback)) (s : System W) :
    ∃ workers, s.addTasks tasks = { s with workers := workers } := by
  induction tasks generalizing s with
  | nil => exact ⟨s.workers, rfl⟩
  | cons task tasks ih =>
      obtain ⟨workers, same⟩ := ih (s.setTasks task.1 ((s.workers task.1).tasks ++ [task.2]))
      exact ⟨workers, same⟩

@[simp] theorem coroutines_addTasks (tasks : List (W × Task Nat Callback)) :
    (s.addTasks tasks).coroutines = s.coroutines := by
  obtain ⟨workers, same⟩ := addTasks_eq tasks s
  rw [same]

@[simp] theorem files_addTasks (tasks : List (W × Task Nat Callback)) :
    (s.addTasks tasks).files = s.files := by
  obtain ⟨workers, same⟩ := addTasks_eq tasks s
  rw [same]

omit [DecidableEq W] in
@[simp] theorem coroutines_cancelTimer (timer : Option TimerPtr) :
    (s.cancelTimer timer).coroutines = s.coroutines := by
  cases timer <;> rfl

omit [DecidableEq W] in
@[simp] theorem files_cancelTimer (timer : Option TimerPtr) :
    (s.cancelTimer timer).files = s.files := by
  cases timer <;> rfl

omit [DecidableEq W] in
@[simp] theorem workers_cancelTimer (timer : Option TimerPtr) :
    (s.cancelTimer timer).workers = s.workers := by
  cases timer <;> rfl

theorem HandleEvent_some {fd : Nat} {type : EventType} (ran : s.HandleEvent w fd type = some s') :
    ∃ result woken poller,
      (s.workers w).poller.handleEvent (s.granted w false) fd type = some (result, woken, poller) ∧
        s' = (s.setPoller w poller).addTasks woken := by
  obtain ⟨⟨result, woken, poller⟩, handled, done⟩ := Option.bind_eq_some_iff.mp ran
  cases done
  exact ⟨result, woken, poller, handled, rfl⟩

theorem HandleAllEvent_some {fd : Nat} (ran : s.HandleAllEvent w fd = some s') :
    ∃ result woken poller,
      (s.workers w).poller.handleAllEvent (s.granted w false) fd = some (result, woken, poller) ∧
        s' = (s.setPoller w poller).addTasks woken := by
  obtain ⟨⟨result, woken, poller⟩, handled, done⟩ := Option.bind_eq_some_iff.mp ran
  cases done
  exact ⟨result, woken, poller, handled, rfl⟩

end

/-- A new socket under the lowest free number, and `addFd`. -/
def openSocket (fd : Nat) (s : System W) : Option (System W) :=
  if s.files fd = none ∧ ∀ below < fd, s.files below ≠ none then do
    let fdmanager ← s.fdmanager.addFd fd { isSock := true }
    return { s with
      fdmanager := fdmanager
      files := Function.update s.files fd (some ⟨s.nextFile, true⟩)
      nextFile := s.nextFile + 1 }
  else none

/-! ## Steps of a worker -/

/-- `run` resumes a coroutine: one that was queued in user code, or one that was
suspended in a hooked call, which then looks at its timer and at `tinfo`. -/
def resume (w : W) (c : Nat) (s : System W) : Option (System W) :=
  match (s.coroutines c).pc with
  | .ready => some ((s.setPhase w (.running c)).setPc c .user)
  | .suspended call timer =>
      let s := (s.setPhase w (.running c)).cancelTimer timer
      match call.cancelled with
      | some errno => some (s.returns c (.failure errno))
      | none =>
          match call.kind with
          | .connect _ => some (s.setPc c (.probe call))
          | _ => some (s.setPc c (.origin call))
  | _ => none

/-- `run` calls the function of a timer: `winfo.lock()` fails when the call has
returned. -/
def onTimer (w : W) (callback : Callback) (s : System W) : Option (System W) :=
  let pc := (s.coroutines callback.co).pc
  match pc.call? with
  | none => some s
  | some call =>
      if call.serial ≠ callback.serial ∨ call.cancelled ≠ none then some s
      else (s.setPc callback.co (pc.cancel .ETIMEDOUT)).HandleEvent w callback.fd callback.type

/-- A turn of `run`. -/
def take (w : W) (s : System W) : Option (System W) :=
  match (s.workers w).phase, (s.workers w).tasks with
  | .loop, .co c :: tasks => (s.setTasks w tasks).resume w c
  | .loop, .func callback :: tasks => (s.setTasks w tasks).onTimer w callback
  | _, _ => none

/-- What the kernel may report: bits of the interest, errors and hangups. -/
def reportable (w : W) (s : System W) (report : Nat × EpollMask) : Bool :=
  match (s.workers w).poller.interest report.1 with
  | none => false
  | some mask => report.2 &&& ~~~(mask ||| EPOLLERR ||| EPOLLHUP) == 0

/-- `epoll_wait` returns; a worker polls when its queue is empty. -/
def poll (w : W) (reports : List (Nat × EpollMask)) (s : System W) : Option (System W) :=
  match (s.workers w).phase, (s.workers w).tasks with
  | .loop, [] => if reports.all (s.reportable w) then some (s.setPhase w (.polled reports)) else none
  | _, _ => none

/-- `expiredFunctions`, and `addTask` of what it returns. -/
def expire (w : W) (now : Int) (probe : Nat) (s : System W) : Option (System W) :=
  match (s.workers w).phase with
  | .polled reports =>
      let (expired, timers) := s.timers.expiredFunctions now probe
      let tasks := expired.filterMap fun (_, func) => func.map fun f => (w, Task.func f)
      some (({ s with timers := timers }.addTasks tasks).setPhase w (.handling reports))
  | _ => none

/-- The next event of the loop in `Epoller::wait`. -/
def report (w : W) (s : System W) : Option (System W) :=
  match (s.workers w).phase with
  | .handling [] => some (s.setPhase w .loop)
  | .handling ((fd, mask) :: reports) => do
      let (woken, poller) ← (s.workers w).poller.handleReport (s.granted w false) fd mask
      return (((s.setPoller w poller).addTasks woken).setPhase w (.handling reports))
  | _ => none

/-! ## Steps of the coroutine that runs -/

/-- `do_io` and `connect_with_timeout` up to the original function. -/
def begin (w : W) (kind : CallKind) (fd : Nat) (ctx : Option FdContext) (file : Option File)
    (co : Coroutine W) : Coroutine W :=
  let call : Call W :=
    { kind := kind, fd := fd, timeout := -1, serial := co.calls, worker := w, file := file }
  let co := { co with calls := co.calls + 1 }
  match ctx with
  | none =>
      match kind with
      | .connect _ => co.returns (.failure .EBADF)
      | _ => { co with pc := .direct call }
  | some ctx =>
      if ctx.close then co.returns (.failure .EBADF)
      else if !ctx.isSock || ctx.isUserNonblock then { co with pc := .direct call }
      else
        let timeout := match kind with
          | .connect timeout => timeout
          | _ => ctx.getTimeout kind.type
        { co with pc := .origin { call with timeout := timeout } }

omit [DecidableEq W] in
/-- A call that begins returns at once, or it is a new call before the original
function. -/
theorem begin_cases (w : W) (kind : CallKind) (fd : Nat) (ctx : Option FdContext)
    (file : Option File) (co : Coroutine W) :
    (begin w kind fd ctx file co).calls = co.calls + 1 ∧
      ((begin w kind fd ctx file co).pc = .user ∨
        ∃ call : Call W, call.fd = fd ∧ call.file = file ∧ call.worker = w ∧
          call.serial = co.calls ∧ call.cancelled = none ∧
          ((begin w kind fd ctx file co).pc = .direct call ∨
            (begin w kind fd ctx file co).pc = .origin call ∧ ctx ≠ none)) := by
  cases ctx with
  | none =>
      cases kind with
      | connect timeout => exact ⟨rfl, Or.inl rfl⟩
      | _ => exact ⟨rfl, Or.inr ⟨_, rfl, rfl, rfl, rfl, rfl, Or.inl rfl⟩⟩
  | some ctx =>
      simp only [begin]
      split
      · exact ⟨rfl, Or.inl rfl⟩
      · split
        · exact ⟨rfl, Or.inr ⟨_, rfl, rfl, rfl, rfl, rfl, Or.inl rfl⟩⟩
        · exact ⟨rfl, Or.inr ⟨_, rfl, rfl, rfl, rfl, rfl, Or.inr ⟨rfl, Option.some_ne_none _⟩⟩⟩

/-- The original function returns to a call that does not wait. -/
def finish (c : Nat) (kind : CallKind) (answer : Answer) (s : System W) : Option (System W) :=
  match answer, kind with
  | .accepted fd, .accept => do return (← s.openSocket fd).returns c .success
  | .accepted _, _ => none
  | .success, .accept => none
  | .success, _ => some (s.returns c .success)
  | .failure errno, _ => some (s.returns c (.failure errno))

/-- The original function; on a descriptor that is not open it fails with `EBADF`. -/
def origin (c : Nat) (answer : Answer) (s : System W) : Option (System W) :=
  match (s.coroutines c).pc with
  | .direct call =>
      if s.files call.fd = none ↔ answer = .failure .EBADF then s.finish c call.kind answer
      else none
  | .origin call =>
      if s.files call.fd = none ↔ answer = .failure .EBADF then
        match call.kind, answer with
        | .connect _, .failure .EINPROGRESS => some (s.setPc c (.blocked call))
        | .connect timeout, answer => s.finish c (.connect timeout) answer
        | _, .failure .EINTR => some s
        | _, .failure .EAGAIN => some (s.setPc c (.blocked call))
        | kind, answer => s.finish c kind answer
      else none
  | _ => none

/-- `addConditonTimer`, if there is a timeout. -/
def addTimer (c : Nat) (addr : Nat) (now : Int) (s : System W) : Option (System W) :=
  match (s.coroutines c).pc with
  | .blocked call =>
      if call.timeout = -1 then some (s.setPc c (.armed call none))
      else
        let callback := { co := c, serial := call.serial, fd := call.fd, type := call.kind.type }
        let (timer, timers) := s.timers.addTimer addr now call.timeout callback false
        some ({ s with timers := timers }.setPc c (.armed call (some timer)))
  | _ => none

/-- `AddEvent`, and `YieldToSuspend` or what follows a failure. -/
def addEvent (w : W) (c : Nat) (refused : Bool) (s : System W) : Option (System W) :=
  match (s.coroutines c).pc with
  | .armed call timer => do
      let (added, poller) ← (s.workers w).poller.addEvent (s.granted w refused) w (.co c) call.fd
        call.kind.type
      let s := s.setPoller w poller
      if added then return (s.setPc c (.suspended call timer)).setPhase w .loop
      else
        let s := s.cancelTimer timer
        match call.kind with
        | .connect _ => return s.setPc c (.probe call)
        | _ => return s.returns c (.failure .other)
  | _ => none

/-- The `getsockopt` of `connect_with_timeout`. -/
def probe (c : Nat) (error : Option Errno) (s : System W) : Option (System W) :=
  match (s.coroutines c).pc with
  | .probe _ =>
      match error with
      | none => some (s.returns c .success)
      | some errno => some (s.returns c (.failure errno))
  | _ => none

/-- `close(fd)` up to `HandleAllEvent`. -/
def close (w : W) (c : Nat) (fd : Nat) (s : System W) : Option (System W) :=
  match s.fdmanager.getFdContext fd with
  | none => some (s.setPc c (.closing fd false))
  | some _ => do return (← s.HandleAllEvent w fd).setPc c (.closing fd true)

/-- `delFd` and the original `close`. The kernel drops a closed file from every
poller. -/
def closeOrigin (c : Nat) (s : System W) : Option (System W) :=
  match (s.coroutines c).pc with
  | .closing fd managed =>
      some ({ s with
        fdmanager := if managed then s.fdmanager.delFd fd else s.fdmanager
        files := Function.update s.files fd none
        workers := fun w => { s.workers w with
          poller := { (s.workers w).poller with
            interest := Function.update (s.workers w).poller.interest fd none } } }.setPc c .user)
  | _ => none

/-- A step of user code. -/
def inUser (c : Nat) (next : Option (System W)) (s : System W) : Option (System W) :=
  match (s.coroutines c).pc with
  | .user => next
  | _ => none

/-- A step of the coroutine `c` that runs on `w`. -/
def runStep (w : W) (c : Nat) (s : System W) : Label W → Option (System W)
  | .origin _ answer => s.origin c answer
  | .addTimer _ addr now => s.addTimer c addr now
  | .addEvent _ refused => s.addEvent w c refused
  | .probe _ error => s.probe c error
  | .closeOrigin _ => s.closeOrigin c
  | .leave _ => s.inUser c (some ((s.setPc c .away).setPhase w .loop))
  | .begin _ kind fd =>
      s.inUser c (some (s.setCoroutine c
        (begin w kind fd (s.fdmanager.getFdContext fd) (s.files fd) (s.coroutines c))))
  | .cancel _ fd type => s.inUser c (s.HandleEvent w fd type)
  | .cancelAll _ fd => s.inUser c (s.HandleAllEvent w fd)
  | .close _ fd => s.inUser c (s.close w c fd)
  | .socket _ fd => s.inUser c (s.openSocket fd)
  | .setTimeout _ fd type timeout =>
      s.inUser c (some { s with fdmanager := s.fdmanager.modify fd (·.setTimeout type timeout) })
  | .setUserNonBlock _ fd flag =>
      s.inUser c
        (some { s with fdmanager := s.fdmanager.modify fd ({ · with isUserNonblock := flag }) })
  | .schedule _ _ => none
  | .take _ => none
  | .poll _ _ => none
  | .expire _ _ _ => none
  | .report _ => none

end System

/-- The worker that makes a step. -/
def Label.worker : Label W → W
  | .schedule w _ | .take w | .poll w _ | .expire w _ _ | .report w | .leave w | .begin w _ _
  | .origin w _ | .addTimer w _ _ | .addEvent w _ | .probe w _ | .cancel w _ _ | .cancelAll w _
  | .close w _ | .closeOrigin w | .socket w _ | .setTimeout w _ _ _ | .setUserNonBlock w _ _ => w

namespace System

variable [DecidableEq W]

/-- The steps of a scheduler. -/
def step (s : System W) (label : Label W) : Option (System W) :=
  match label with
  | .schedule w c =>
      match (s.coroutines c).pc with
      | .away => some ((s.setPc c .ready).addTasks [(w, .co c)])
      | _ => none
  | .take w => s.take w
  | .poll w reports => s.poll w reports
  | .expire w now probe => s.expire w now probe
  | .report w => s.report w
  | label =>
      match (s.workers label.worker).phase with
      | .running c => s.runStep label.worker c label
      | _ => none

omit [DecidableEq W] in
theorem inUser_some {s s' : System W} {c : Nat} {next : Option (System W)}
    (ran : s.inUser c next = some s') : (s.coroutines c).pc = .user ∧ next = some s' := by
  rw [inUser] at ran
  split at ran
  · rename_i user
    exact ⟨user, ran⟩
  · cases ran

/-- A step is one of the worker between tasks, or one of the coroutine it runs. -/
theorem step_cases {s s' : System W} {label : Label W} (ran : s.step label = some s') :
    (∃ w c, label = .schedule w c ∧ (s.coroutines c).pc = .away ∧
        s' = (s.setPc c .ready).addTasks [(w, .co c)]) ∨
      (∃ w, label = .take w ∧ s.take w = some s') ∨
      (∃ w reports, label = .poll w reports ∧ s.poll w reports = some s') ∨
      (∃ w now probe, label = .expire w now probe ∧ s.expire w now probe = some s') ∨
      (∃ w, label = .report w ∧ s.report w = some s') ∨
      ∃ c, (s.workers label.worker).phase = .running c ∧
        s.runStep label.worker c label = some s' := by
  have running : (match (s.workers label.worker).phase with
      | .running c => s.runStep label.worker c label
      | _ => none) = some s' → ∃ c, (s.workers label.worker).phase = .running c ∧
        s.runStep label.worker c label = some s' := by
    intro ran
    split at ran
    · rename_i c phase
      exact ⟨c, phase, ran⟩
    · cases ran
  cases label with
  | schedule w c =>
      simp only [step] at ran
      split at ran
      · rename_i away
        exact Or.inl ⟨w, c, rfl, away, (Option.some.inj ran).symm⟩
      · cases ran
  | take w => exact Or.inr (Or.inl ⟨w, rfl, ran⟩)
  | poll w reports => exact Or.inr (Or.inr (Or.inl ⟨w, reports, rfl, ran⟩))
  | expire w now probe => exact Or.inr (Or.inr (Or.inr (Or.inl ⟨w, now, probe, rfl, ran⟩)))
  | report w => exact Or.inr (Or.inr (Or.inr (Or.inr (Or.inl ⟨w, rfl, ran⟩))))
  | _ => exact Or.inr (Or.inr (Or.inr (Or.inr (Or.inr (running ran)))))

/-- A step of the coroutine that runs. -/
theorem step_of_runStep {s s' : System W} {label : Label W} {c : Nat}
    (running : (s.workers label.worker).phase = .running c)
    (ran : s.runStep label.worker c label = some s') : s.step label = some s' := by
  cases label with
  | schedule w c => cases ran
  | take w => cases ran
  | poll w reports => cases ran
  | expire w now probe => cases ran
  | report w => cases ran
  | _ =>
      simp only [step, running]
      exact ran

end System

end Reyao
