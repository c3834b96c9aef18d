import Reyao.HookFiles

/-!
# Connecting (`connect_with_timeout` of `hook.cc`)

One call of `connect_with_timeout` beside the attempt of the kernel to connect its socket.
`Coroutine.connect` is the code of the call in its steps, which are those that the scheduler
makes (`connect_of_runStep`, `connect_of_resume`, `connect_of_onTimer`). `Connecting` adds
what goes on around it: the attempt, the registration, and those who wake the call.

The call ends with a look at `SO_ERROR`, which is 0 for a socket that is connected and for
one whose attempt is still in progress, and also for one whose attempt has failed once
somebody else has been told the error: whoever reads it takes it. So the attempt must be over
and its error untouched when the call gets there, and some ways to get there do not see to it
(`Connecting.Sound`).
-/

namespace Reyao

open Lib

variable {W : Type}

/-! ## The code -/

/-- What happens to a call of `connect_with_timeout`. -/
inductive ConnectEvent : Type
  | origin (answer : Answer)
  | addTimer (timer : TimerPtr)
  /-- `AddEvent` succeeds; or it fails, because the direction is registered already or
  because `epoll_ctl` fails. -/
  | addEvent (added : Bool)
  /-- The function of the timer finds the call not cancelled. -/
  | expire
  /-- `YieldToSuspend` returns. -/
  | resume
  /-- The error that `getsockopt` returns or finds, if any. -/
  | probe (error : Option Errno)

/-- The code of `connect_with_timeout` from `connect_origin` on. -/
def Coroutine.connect (co : Coroutine W) : ConnectEvent → Option (Coroutine W)
  | .origin answer =>
      match co.pc with
      | .origin call =>
          match answer with
          | .success => some (co.returns .success)
          | .failure .EINPROGRESS => some { co with pc := .blocked call }
          | .failure errno => some (co.returns (.failure errno))
          | .accepted _ => none
      | _ => none
  | .addTimer timer =>
      match co.pc with
      | .blocked call =>
          some { co with pc := .armed call (if call.timeout = -1 then none else some timer) }
      | _ => none
  | .addEvent added =>
      match co.pc with
      | .armed call timer =>
          -- a failure is logged, and the call goes on to `getsockopt`
          some { co with pc := if added then .suspended call timer else .probe call }
      | _ => none
  | .expire =>
      match co.pc.call? with
      | some call =>
          if call.cancelled = none then some { co with pc := co.pc.cancel .ETIMEDOUT } else none
      | none => none
  | .resume =>
      match co.pc with
      | .suspended call _ =>
          match call.cancelled with
          | some errno => some (co.returns (.failure errno))
          | none => some { co with pc := .probe call }
      | _ => none
  | .probe error =>
      match co.pc with
      | .probe _ =>
          match error with
          | none => some (co.returns .success)
          | some errno => some (co.returns (.failure errno))
      | _ => none

namespace Coroutine

variable {co co' : Coroutine W}

/-- What `connect_origin` leads to. -/
theorem connect_origin_iff {answer : Answer} :
    co.connect (.origin answer) = some co' ↔ ∃ call, co.pc = .origin call ∧
      (answer = .failure .EINPROGRESS ∧ co' = { co with pc := .blocked call } ∨
        answer = .success ∧ co' = co.returns .success ∨
        ∃ errno, answer = .failure errno ∧ errno ≠ .EINPROGRESS ∧
          co' = co.returns (.failure errno)) := by
  unfold connect
  cases co.pc with
  | origin call =>
      cases answer with
      | success => simp [eq_comm]
      | accepted fd => simp
      | failure errno => cases errno <;> simp [eq_comm]
  | _ => simp

theorem connect_addTimer_iff {timer : TimerPtr} :
    co.connect (.addTimer timer) = some co' ↔ ∃ call, co.pc = .blocked call ∧
      co' = { co with pc := .armed call (if call.timeout = -1 then none else some timer) } := by
  unfold connect
  cases co.pc <;> simp [eq_comm]

theorem connect_addEvent_iff {added : Bool} :
    co.connect (.addEvent added) = some co' ↔ ∃ call timer, co.pc = .armed call timer ∧
      co' = { co with pc := if added then .suspended call timer else .probe call } := by
  unfold connect
  cases co.pc <;> simp [eq_comm]

theorem connect_expire_iff :
    co.connect .expire = some co' ↔ ∃ call, co.pc.call? = some call ∧ call.cancelled = none ∧
      co' = { co with pc := co.pc.cancel .ETIMEDOUT } := by
  unfold connect
  cases co.pc.call? with
  | none => simp
  | some call => by_cases first : call.cancelled = none <;> simp [first, eq_comm]

theorem connect_resume_iff :
    co.connect .resume = some co' ↔ ∃ call timer, co.pc = .suspended call timer ∧
      (call.cancelled = none ∧ co' = { co with pc := .probe call } ∨
        ∃ errno, call.cancelled = some errno ∧ co' = co.returns (.failure errno)) := by
  unfold connect
  cases co.pc with
  | suspended call timer => cases cancelled : call.cancelled <;> simp [cancelled, eq_comm]
  | _ => simp

theorem connect_probe_iff {error : Option Errno} :
    co.connect (.probe error) = some co' ↔ ∃ call, co.pc = .probe call ∧
      (error = none ∧ co' = co.returns .success ∨
        ∃ errno, error = some errno ∧ co' = co.returns (.failure errno)) := by
  unfold connect
  cases co.pc with
  | probe call => cases error <;> simp [eq_comm]
  | _ => simp

end Coroutine

namespace System

variable {s s' : System W} {w : W} {c : Nat} {call : Call W} {timeout : Int}

theorem coroutines_setPc_self (pc : Pc W) :
    (s.setPc c pc).coroutines c = { s.coroutines c with pc := pc } :=
  coroutines_setCoroutine_self _

theorem coroutines_returns_self (result : CallResult) :
    (s.returns c result).coroutines c = (s.coroutines c).returns result :=
  coroutines_setCoroutine_self _

/-! ### The steps of the scheduler in a call -/

theorem connect_of_origin (kind : call.kind = .connect timeout)
    (pc : (s.coroutines c).pc = .origin call) {answer : Answer}
    (ran : s.origin c answer = some s') :
    (s.coroutines c).connect (.origin answer) = some (s'.coroutines c) := by
  rw [System.origin, pc] at ran
  simp only [kind] at ran
  refine Coroutine.connect_origin_iff.mpr ⟨call, pc, ?_⟩
  split at ran
  · cases answer with
    | success =>
        cases ran
        exact Or.inr (Or.inl ⟨rfl, coroutines_returns_self _⟩)
    | accepted fd => cases ran
    | failure errno =>
        cases errno with
        | EINPROGRESS =>
            cases ran
            exact Or.inl ⟨rfl, coroutines_setPc_self _⟩
        | _ =>
            cases ran
            exact Or.inr (Or.inr ⟨_, rfl, by simp, coroutines_returns_self _⟩)
  · cases ran

theorem connect_of_addTimer (pc : (s.coroutines c).pc = .blocked call) {addr : Nat} {now : Int}
    (ran : s.addTimer c addr now = some s') :
    ∃ timer, (s.coroutines c).connect (.addTimer timer) = some (s'.coroutines c) := by
  rw [System.addTimer, pc] at ran
  dsimp only at ran
  by_cases endless : call.timeout = -1
  · rw [if_pos endless] at ran
    cases ran
    refine ⟨s.timers.allocated, Coroutine.connect_addTimer_iff.mpr ⟨call, pc, ?_⟩⟩
    rw [coroutines_setPc_self, if_pos endless]
  · rw [if_neg endless] at ran
    cases ran
    refine ⟨s.timers.allocated, Coroutine.connect_addTimer_iff.mpr ⟨call, pc, ?_⟩⟩
    rw [coroutines_setPc_self, if_neg endless]
    rfl

theorem connect_of_probe {error : Option Errno} (pc : (s.coroutines c).pc = .probe call)
    (ran : s.probe c error = some s') :
    (s.coroutines c).connect (.probe error) = some (s'.coroutines c) := by
  unfold System.probe at ran
  rw [pc] at ran
  refine Coroutine.connect_probe_iff.mpr ⟨call, pc, ?_⟩
  cases error with
  | none =>
      cases ran
      exact Or.inl ⟨rfl, coroutines_returns_self _⟩
  | some errno =>
      cases ran
      exact Or.inr ⟨errno, rfl, coroutines_returns_self _⟩

variable [DecidableEq W]

theorem connect_of_addEvent (kind : call.kind = .connect timeout) {timer : Option TimerPtr}
    (pc : (s.coroutines c).pc = .armed call timer) {refused : Bool}
    (ran : s.addEvent w c refused = some s') :
    ∃ added poller, (s.workers w).poller.addEvent (s.granted w refused) w (.co c) call.fd
        .EPOLLOUT = some (added, poller) ∧
      (s.coroutines c).connect (.addEvent added) = some (s'.coroutines c) := by
  have type : call.kind.type = .EPOLLOUT := by rw [kind]; rfl
  rw [System.addEvent, pc] at ran
  obtain ⟨⟨added, poller⟩, registered, ran⟩ := Option.bind_eq_some_iff.mp ran
  rw [type] at registered
  refine ⟨added, poller, registered, Coroutine.connect_addEvent_iff.mpr ⟨call, timer, pc, ?_⟩⟩
  cases added with
  | true =>
      cases ran
      rw [coroutines_setPhase, coroutines_setPc_self, coroutines_setPoller]
      rfl
  | false =>
      simp only [kind, Bool.false_eq_true, if_false] at ran
      cases ran
      rw [coroutines_setPc_self, coroutines_cancelTimer, coroutines_setPoller]
      rfl

/-- A step that the coroutine makes while it is in the call. -/
theorem connect_of_runStep (inCall : s.InCall c call) (kind : call.kind = .connect timeout)
    (managed : (s.coroutines c).pc ≠ .direct call) {label : Label W}
    (ran : s.runStep w c label = some s') :
    ∃ event, (s.coroutines c).connect event = some (s'.coroutines c) := by
  -- in user code there is no call
  have inside : ∀ {next : Option (System W)}, s.inUser c next ≠ some s' := by
    intro next ran
    have user := (inUser_some ran).1
    rw [InCall, user] at inCall
    cases inCall
  cases label with
  | origin v answer =>
      cases pc : (s.coroutines c).pc with
      | origin call' =>
          rw [InCall, pc] at inCall
          cases inCall
          exact ⟨_, connect_of_origin kind pc ran⟩
      | direct call' =>
          rw [InCall, pc] at inCall
          cases inCall
          exact absurd pc managed
      | _ => simp [runStep, System.origin, pc] at ran
  | addTimer v addr now =>
      cases pc : (s.coroutines c).pc with
      | blocked call' =>
          obtain ⟨timer, step⟩ := connect_of_addTimer pc ran
          exact ⟨_, step⟩
      | _ => simp [runStep, System.addTimer, pc] at ran
  | addEvent v refused =>
      cases pc : (s.coroutines c).pc with
      | armed call' timer =>
          rw [InCall, pc] at inCall
          cases inCall
          obtain ⟨added, poller, -, step⟩ := connect_of_addEvent kind pc ran
          exact ⟨_, step⟩
      | _ => simp [runStep, System.addEvent, pc] at ran
  | probe v error =>
      cases pc : (s.coroutines c).pc with
      | probe call' => exact ⟨_, connect_of_probe pc ran⟩
      | _ => simp [runStep, System.probe, pc] at ran
  | closeOrigin v =>
      cases pc : (s.coroutines c).pc with
      | closing fd managed =>
          rw [InCall, pc] at inCall
          cases inCall
      | _ => simp [runStep, System.closeOrigin, pc] at ran
  | schedule v d => cases ran
  | take v => cases ran
  | poll v reports => cases ran
  | expire v now probe => cases ran
  | report v => cases ran
  | leave v => exact absurd ran inside
  | begin v kind fd => exact absurd ran inside
  | cancel v fd type => exact absurd ran inside
  | cancelAll v fd => exact absurd ran inside
  | close v fd => exact absurd ran inside
  | socket v fd => exact absurd ran inside
  | setTimeout v fd type timeout => exact absurd ran inside
  | setUserNonBlock v fd flag => exact absurd ran inside

/-- The worker resumes the call. -/
theorem connect_of_resume (inCall : s.InCall c call) (kind : call.kind = .connect timeout)
    (ran : s.resume w c = some s') :
    (s.coroutines c).connect .resume = some (s'.coroutines c) := by
  cases pc : (s.coroutines c).pc with
  | suspended call' timer =>
      rw [InCall, pc] at inCall
      cases inCall
      rw [System.resume, pc] at ran
      refine Coroutine.connect_resume_iff.mpr ⟨call, timer, pc, ?_⟩
      cases cancelled : call.cancelled with
      | some errno =>
          simp only [cancelled] at ran
          cases ran
          refine Or.inr ⟨errno, rfl, ?_⟩
          rw [coroutines_returns_self, coroutines_cancelTimer, coroutines_setPhase]
      | none =>
          simp only [cancelled, kind] at ran
          cases ran
          refine Or.inl ⟨rfl, ?_⟩
          rw [coroutines_setPc_self, coroutines_cancelTimer, coroutines_setPhase]
  | ready =>
      rw [InCall, pc] at inCall
      cases inCall
  | _ => simp [System.resume, pc] at ran

/-- The function of a timer cancels the call, or it leaves it as it is. -/
theorem connect_of_onTimer {callback : Callback} (ran : s.onTimer w callback = some s') :
    s'.coroutines callback.co = s.coroutines callback.co ∨
      (s.coroutines callback.co).connect .expire = some (s'.coroutines callback.co) := by
  rw [System.onTimer] at ran
  cases was : (s.coroutines callback.co).pc.call? with
  | none =>
      rw [was] at ran
      cases ran
      exact Or.inl rfl
  | some call =>
      rw [was] at ran
      dsimp only at ran
      by_cases other : call.serial ≠ callback.serial ∨ call.cancelled ≠ none
      · rw [if_pos other] at ran
        cases ran
        exact Or.inl rfl
      · rw [if_neg other] at ran
        have first : call.cancelled = none := not_not.mp (not_or.mp other).2
        refine Or.inr (Coroutine.connect_expire_iff.mpr ⟨call, was, first, ?_⟩)
        rw [(HandleEvent_frame ran).1, coroutines_setPc_self]

end System

/-! ## The attempt, and who wakes the call -/

/-- How far the kernel is with connecting the socket. -/
inductive Attempt : Type
  | inProgress
  | established
  | failed
  deriving DecidableEq

/-- The attempt that an answer of `connect_origin` tells of. -/
def Answer.attempt : Answer → Attempt
  | .failure .EINPROGRESS => .inProgress
  | .failure _ => .failed
  | _ => .established

/-- What the number of the descriptor names: the socket, nothing after `close`, or another
socket that was given the number then. -/
inductive Named : Type
  | socket
  | nothing
  | another
  deriving DecidableEq

/-- The call has set a timer. -/
def Pc.timed : Pc W → Bool
  | .armed _ timer => timer.isSome
  | .suspended _ timer => timer.isSome
  | .probe call => call.timeout ≠ -1
  | _ => false

/-- A call of `connect_with_timeout` in its surroundings. -/
structure Connecting (W : Type) : Type where
  co : Coroutine W
  /-- The attempt, from `connect_origin` on. -/
  attempt : Option Attempt := none
  named : Named := .socket
  /-- The coroutine is registered for `EPOLLOUT`. -/
  waiting : Bool := false
  /-- The coroutine is in the queue of its worker. -/
  queued : Bool := false
  /-- The error that the failed attempt has left has been taken. -/
  taken : Bool := false

inductive ConnectLabel : Type
  | origin (answer : Answer)
  | addTimer (timer : TimerPtr)
  | addEvent (added : Bool)
  /-- The kernel ends the attempt. -/
  | settle (established : Bool)
  /-- `Epoller::wait` handles an event of the socket. -/
  | report
  /-- The function of the timer runs, on the worker of the call or on another one. -/
  | expire (here : Bool)
  /-- `HandleEvent` or `HandleAllEvent` of somebody else, such as `Socket::cancelWrite`. -/
  | wake
  /-- `close` on the worker of the call or on another one. -/
  | close (here : Bool)
  /-- The number of the descriptor is given to another socket. -/
  | reopen
  /-- A call of somebody else on the socket, such as `recv` or `Socket::getError`, gets the
  error of the failed attempt. -/
  | takeError
  | resume
  | probe (error : Option Errno)

namespace Connecting

/-- `triggleEvent`, if the call is registered. -/
def woken (x : Connecting W) : Connecting W :=
  { x with waiting := false, queued := x.queued || x.waiting }

/-- The attempt has come to an end. -/
def Over (x : Connecting W) : Prop :=
  x.attempt = some .established ∨ x.attempt = some .failed

instance (x : Connecting W) : Decidable x.Over :=
  inferInstanceAs (Decidable (_ ∨ _))

/-- What `getsockopt` may find: a failed attempt has left its error, until it is taken, and
for an attempt in progress there is none; `getsockopt` itself fails without a descriptor. -/
def reads (x : Connecting W) (error : Option Errno) : Bool :=
  match x.named with
  | .socket => x.attempt ≠ some .failed || x.taken || error ≠ none
  | .nothing => error ≠ none
  | .another => true

def step (x : Connecting W) : ConnectLabel → Option (Connecting W)
  | .origin answer => do
      let co ← x.co.connect (.origin answer)
      return { x with co := co, attempt := some answer.attempt }
  | .addTimer timer => do
      let co ← x.co.connect (.addTimer timer)
      return { x with co := co }
  | .addEvent added => do
      let co ← x.co.connect (.addEvent added)
      return { x with co := co, waiting := added }
  | .settle established =>
      if x.attempt = some .inProgress then
        some { x with attempt := some (if established then .established else .failed) }
      else none
  | .report =>
      -- a socket becomes writable, or has an error, when its attempt is over
      if x.Over ∨ x.named = .another then some x.woken else none
  | .expire here => do
      if x.co.pc.timed then
        let co ← x.co.connect .expire
        return if here then { x with co := co }.woken else { x with co := co }
      else none
  | .wake => some x.woken
  | .close here =>
      if x.attempt = none ∨ x.named = .nothing then none
      else
        let attempt := if x.attempt = some .inProgress then some .failed else x.attempt
        let x := { x with named := .nothing, attempt := attempt }
        some (if here then x.woken else x)
  | .reopen => if x.named = .nothing then some { x with named := .another } else none
  | .takeError =>
      if x.named = .socket ∧ x.attempt = some .failed then some { x with taken := true } else none
  | .resume => do
      if x.queued then
        let co ← x.co.connect .resume
        return { x with co := co, queued := false }
      else none
  | .probe error => do
      if x.reads error then
        let co ← x.co.connect (.probe error)
        return { x with co := co }
      else none

/-- The call begins. -/
def start (w : W) (timeout : Int) (fd : Nat) (ctx : FdContext) (file : Option File)
    (co : Coroutine W) : Connecting W where
  co := System.begin w (.connect timeout) fd (some ctx) file co

/-- What the call has returned. -/
def result (x : Connecting W) : Option CallResult :=
  match x.co.pc with
  | .user => x.co.returned
  | _ => none

/-- The call was cancelled by its timer. -/
def TimedOut (x : Connecting W) : Prop :=
  ∃ call, x.co.pc.call? = some call ∧ call.cancelled ≠ none

/-- The steps after which the call looks at `SO_ERROR` of its socket only when the attempt is
over and has left its error there: `AddEvent` does not fail before that, nobody wakes a call
before that that was not timed out, nobody else takes the error, and the number of the
descriptor is not given to another socket. -/
def Sound (x : Connecting W) : ConnectLabel → Prop
  | .addEvent added => added = true ∨ x.Over
  | .wake => x.waiting = true → x.Over ∨ x.TimedOut
  | .reopen => x.co.pc = .user
  | .takeError => x.co.pc = .user
  | _ => True

/-! ## Runs -/

/-- Before `AddEvent` returns. -/
def Early (x : Connecting W) : Prop :=
  (∃ call, x.co.pc = .origin call) ∨ (∃ call, x.co.pc = .blocked call) ∨
    ∃ call timer, x.co.pc = .armed call timer

/-- `SO_ERROR` does not tell of the attempt. -/
def Misread (x : Connecting W) : Prop := x.named = .another ∨ x.taken = true

/-- A call that is queued without having been timed out has its attempt behind it, and so has
one that has come to `getsockopt`. -/
structure Safe (x : Connecting W) : Prop where
  named : x.Misread → x.co.pc = .user
  early : x.Early → x.waiting = false ∧ x.queued = false
  queued : ∀ {call timer}, x.co.pc = .suspended call timer → x.queued = true →
    x.Over ∨ call.cancelled ≠ none
  probe : ∀ {call}, x.co.pc = .probe call → x.Over
  returned : x.result = some .success → x.attempt = some .established

variable {x y : Connecting W}

/-- A change around the call. It is woken when its attempt is over, or when it was timed
out. -/
theorem Safe.around (safe : x.Safe) (co : y.co = x.co)
    (named : y.Misread → x.Misread ∨ x.co.pc = .user)
    (ends : x.Over → y.Over)
    (established : x.attempt = some .established → y.attempt = some .established)
    (waiting : y.waiting = true → x.waiting = true)
    (queued : y.queued = true → x.queued = true ∨ x.waiting = true ∧ (y.Over ∨ x.TimedOut)) :
    y.Safe where
  named another := by
    rw [co]
    rcases named another with was | user
    · exact safe.named was
    · exact user
  early early := by
    rw [Early, co] at early
    obtain ⟨unregistered, unqueued⟩ := safe.early early
    have unregistered' : y.waiting = false := by
      refine Bool.eq_false_of_not_eq_true fun waits => ?_
      rw [waiting waits] at unregistered
      cases unregistered
    refine ⟨unregistered', Bool.eq_false_of_not_eq_true fun queues => ?_⟩
    rcases queued queues with was | ⟨waits, -⟩
    · rw [was] at unqueued
      cases unqueued
    · rw [waits] at unregistered
      cases unregistered
  queued {call timer} pc queues := by
    rw [co] at pc
    rcases queued queues with was | ⟨-, ended | ⟨call', inCall, cancelled⟩⟩
    · exact (safe.queued pc was).imp_left ends
    · exact Or.inl ended
    · rw [pc] at inCall
      cases inCall
      exact Or.inr cancelled
  probe {call} pc := ends (safe.probe (co ▸ pc))
  returned success := by
    rw [result, co] at success
    exact established (safe.returned success)

/-- A call that has returned. -/
theorem safe_of_user (user : x.co.pc = .user)
    (established : x.co.returned = some .success → x.attempt = some .established) : x.Safe := by
  have nowhere : ∀ {pc : Pc W}, x.co.pc = pc → pc.call? = none := by
    intro pc is
    rw [← is, user]
    rfl
  refine ⟨fun _ => user, ?_, fun pc => ?_, fun pc => ?_, ?_⟩
  · rintro (⟨call, pc⟩ | ⟨call, pc⟩ | ⟨call, timer, pc⟩) <;> cases nowhere pc
  · cases nowhere pc
  · cases nowhere pc
  · intro success
    rw [result, user] at success
    exact established success

theorem safe_of_returns {co : Coroutine W} {value : CallResult} (co_eq : x.co = co.returns value)
    (established : value = .success → x.attempt = some .established) : x.Safe := by
  refine safe_of_user (by rw [co_eq]; rfl) fun success => ?_
  rw [co_eq] at success
  exact established (Option.some.inj success)

theorem Safe.not_misread (safe : x.Safe) {call : Call W} (inCall : x.co.pc.call? = some call) :
    ¬x.Misread := by
  intro misread
  rw [safe.named misread] at inCall
  cases inCall

theorem Safe.origin (safe : x.Safe) {answer : Answer} (ran : x.step (.origin answer) = some y) :
    y.Safe := by
  obtain ⟨co, moved, done⟩ := Option.bind_eq_some_iff.mp ran
  cases done
  obtain ⟨call, pc, goes⟩ := Coroutine.connect_origin_iff.mp moved
  have named := safe.not_misread (show x.co.pc.call? = some call by rw [pc]; rfl)
  have early := safe.early (Or.inl ⟨call, pc⟩)
  rcases goes with ⟨rfl, rfl⟩ | ⟨rfl, rfl⟩ | ⟨errno, rfl, -, rfl⟩
  · exact ⟨fun another => absurd another named, fun _ => early, by simp, by simp,
      by simp [result]⟩
  · exact safe_of_returns rfl fun _ => rfl
  · exact safe_of_returns rfl fun success => by cases success

theorem Safe.addTimer (safe : x.Safe) {timer : TimerPtr}
    (ran : x.step (.addTimer timer) = some y) : y.Safe := by
  obtain ⟨co, moved, done⟩ := Option.bind_eq_some_iff.mp ran
  cases done
  obtain ⟨call, pc, rfl⟩ := Coroutine.connect_addTimer_iff.mp moved
  have named := safe.not_misread (show x.co.pc.call? = some call by rw [pc]; rfl)
  have early := safe.early (Or.inr (Or.inl ⟨call, pc⟩))
  exact ⟨fun another => absurd another named, fun _ => early, by simp, by simp, by simp [result]⟩

theorem Safe.addEvent (safe : x.Safe) {added : Bool} (sound : x.Sound (.addEvent added))
    (ran : x.step (.addEvent added) = some y) : y.Safe := by
  obtain ⟨co, moved, done⟩ := Option.bind_eq_some_iff.mp ran
  cases done
  obtain ⟨call, timer, pc, rfl⟩ := Coroutine.connect_addEvent_iff.mp moved
  have named := safe.not_misread (show x.co.pc.call? = some call by rw [pc]; rfl)
  have unqueued := (safe.early (Or.inr (Or.inr ⟨call, timer, pc⟩))).2
  cases added with
  | true =>
      refine ⟨fun another => absurd another named, by simp [Early], ?_, by simp, by simp [result]⟩
      intro _ _ _ queues
      exact absurd (unqueued.symm.trans queues) Bool.false_ne_true
  | false =>
      have ended : x.Over := sound.resolve_left Bool.false_ne_true
      exact ⟨fun another => absurd another named, by simp [Early], by simp, fun _ => ended,
        by simp [result]⟩

theorem Safe.resume (safe : x.Safe) (ran : x.step .resume = some y) : y.Safe := by
  rw [step] at ran
  split at ran
  · rename_i queues
    obtain ⟨co, moved, done⟩ := Option.bind_eq_some_iff.mp ran
    cases done
    obtain ⟨call, timer, pc, goes⟩ := Coroutine.connect_resume_iff.mp moved
    have named := safe.not_misread (show x.co.pc.call? = some call by rw [pc]; rfl)
    rcases goes with ⟨first, rfl⟩ | ⟨errno, -, rfl⟩
    · have ended : x.Over := (safe.queued pc queues).resolve_right (not_not.mpr first)
      exact ⟨fun another => absurd another named, by simp [Early], by simp, fun _ => ended,
        by simp [result]⟩
    · exact safe_of_returns rfl fun success => by cases success
  · cases ran

/-- What `getsockopt` finds is what the attempt came to. -/
theorem Safe.getsockopt (safe : x.Safe) {error : Option Errno}
    (ran : x.step (.probe error) = some y) : y.Safe := by
  rw [step] at ran
  split at ran
  · rename_i reads
    obtain ⟨co, moved, done⟩ := Option.bind_eq_some_iff.mp ran
    cases done
    obtain ⟨call, pc, goes⟩ := Coroutine.connect_probe_iff.mp moved
    have named := safe.not_misread (show x.co.pc.call? = some call by rw [pc]; rfl)
    rcases goes with ⟨rfl, rfl⟩ | ⟨errno, -, rfl⟩
    · refine safe_of_returns rfl fun _ => ?_
      rcases safe.probe pc with established | failed
      · exact established
      · have mine : x.named ≠ .another := fun another => named (Or.inl another)
        have untaken : x.taken = false := Bool.eq_false_of_not_eq_true fun taken =>
          named (Or.inr taken)
        cases is : x.named <;> simp [Connecting.reads, is, failed, untaken] at reads
        exact absurd is mine
    · exact safe_of_returns rfl fun success => by cases success
  · cases ran

/-- Waking a call whose attempt is over, or that was timed out. -/
theorem Safe.woken (safe : x.Safe) (due : x.waiting = true → x.Over ∨ x.TimedOut) :
    x.woken.Safe := by
  refine safe.around rfl Or.inl id id (fun waits => by cases waits) fun queues => ?_
  rcases Bool.or_eq_true_iff.mp queues with was | waits
  · exact Or.inl was
  · exact Or.inr ⟨waits, due waits⟩

theorem Safe.settle (safe : x.Safe) {established : Bool}
    (ran : x.step (.settle established) = some y) : y.Safe := by
  rw [step] at ran
  split at ran
  · rename_i inProgress
    cases ran
    refine safe.around rfl Or.inl ?_ ?_ id Or.inl
    · intro ended
      rw [Over, inProgress] at ended
      rcases ended with established | failed
      · cases established
      · cases failed
    · intro established
      rw [inProgress] at established
      cases established
  · cases ran

theorem Safe.report (safe : x.Safe) (ran : x.step .report = some y) : y.Safe := by
  rw [step] at ran
  split at ran
  · rename_i due
    cases ran
    rcases due with ended | another
    · exact safe.woken fun _ => Or.inl ended
    · have user := safe.named (Or.inl another)
      refine safe_of_user user fun success => safe.returned ?_
      rw [result, user]
      exact success
  · cases ran

/-- A call that has been timed out. -/
theorem Safe.cancel (safe : x.Safe) {call : Call W} (inCall : x.co.pc.call? = some call) :
    ({ x with co := { x.co with pc := x.co.pc.cancel .ETIMEDOUT } } : Connecting W).Safe := by
  have named := safe.not_misread inCall
  refine ⟨fun another => absurd another named, fun early => safe.early ?_, fun pc _ => ?_,
    fun pc => ?_, fun success => ?_⟩
  · cases pc : x.co.pc <;> simp [Early, Pc.cancel, pc] at early ⊢
  · cases was : x.co.pc <;> simp only [Pc.cancel, was] at pc <;> cases pc
    exact Or.inr (by simp)
  · cases was : x.co.pc <;> simp only [Pc.cancel, was] at pc <;> cases pc
    exact safe.probe was
  · cases was : x.co.pc <;> simp [result, Pc.cancel, was] at success
    rw [was] at inCall
    cases inCall

/-- The function of the timer may wake the call, which it has timed out. -/
theorem Safe.expire (safe : x.Safe) {here : Bool} (ran : x.step (.expire here) = some y) :
    y.Safe := by
  rw [step] at ran
  split at ran
  · obtain ⟨co, moved, done⟩ := Option.bind_eq_some_iff.mp ran
    obtain ⟨call, inCall, -, rfl⟩ := Coroutine.connect_expire_iff.mp moved
    have timedOut := safe.cancel inCall
    cases here with
    | false =>
        cases done
        exact timedOut
    | true =>
        cases done
        have cancelled : (x.co.pc.cancel .ETIMEDOUT).call? =
            some { call with cancelled := some .ETIMEDOUT } := by
          rw [Pc.call?_cancel, inCall]
          rfl
        exact timedOut.woken fun _ => Or.inr ⟨_, cancelled, by simp⟩
  · cases ran

/-- The attempt for a socket that is closed is given up. -/
theorem Safe.close (safe : x.Safe) {here : Bool} (ran : x.step (.close here) = some y) :
    y.Safe := by
  rw [step] at ran
  split at ran
  · cases ran
  · rename_i begun
    have ended : ({ x with
        named := .nothing
        attempt := if x.attempt = some .inProgress then some .failed else x.attempt } :
          Connecting W).Over := by
      rw [Over]
      rcases attempt : x.attempt with _ | _ | _ | _
      · exact absurd attempt (not_or.mp begun).1
      · exact Or.inr rfl
      · exact Or.inl rfl
      · exact Or.inr rfl
    have closed : ({ x with
        named := .nothing
        attempt := if x.attempt = some .inProgress then some .failed else x.attempt } :
          Connecting W).Safe := by
      refine safe.around rfl (fun misread => ?_) (fun _ => ended) ?_ id Or.inl
      · rcases misread with another | taken
        · cases another
        · exact Or.inl (Or.inr taken)
      intro established
      dsimp only
      rw [established]
      rfl
    cases here with
    | false =>
        cases ran
        exact closed
    | true =>
        cases ran
        exact closed.woken fun _ => Or.inl ended

theorem Safe.step (safe : x.Safe) {label : ConnectLabel} (sound : x.Sound label)
    (ran : x.step label = some y) : y.Safe := by
  cases label with
  | origin answer => exact safe.origin ran
  | addTimer timer => exact safe.addTimer ran
  | addEvent added => exact safe.addEvent sound ran
  | settle established => exact safe.settle ran
  | report => exact safe.report ran
  | expire here => exact safe.expire ran
  | wake =>
      cases ran
      exact safe.woken sound
  | close here => exact safe.close ran
  | reopen =>
      rw [Connecting.step] at ran
      split at ran
      · cases ran
        exact safe.around rfl (fun _ => Or.inr sound) id id id Or.inl
      · cases ran
  | takeError =>
      rw [Connecting.step] at ran
      split at ran
      · cases ran
        exact safe.around rfl (fun _ => Or.inr sound) id id id Or.inl
      · cases ran
  | resume => exact safe.resume ran
  | probe error => exact safe.getsockopt ran

theorem safe_start {w : W} {timeout : Int} {fd : Nat} {ctx : FdContext} {file : Option File}
    {co : Coroutine W} (opened : ctx.close = false) (isSock : ctx.isSock = true)
    (blocking : ctx.isUserNonblock = false) : (start w timeout fd ctx file co).Safe := by
  simp only [start, System.begin, opened, isSock, blocking]
  exact ⟨by simp [Misread], by simp, by simp, by simp, by simp [result]⟩

/-- `connect_with_timeout` on a managed socket that the user takes to be blocking returns 0
only when the connection is established, and -1 otherwise, in every run whose steps are
sound. -/
theorem connect_zero_established {w : W} {timeout : Int} {fd : Nat} {ctx : FdContext}
    {file : Option File} {co : Coroutine W} (opened : ctx.close = false)
    (isSock : ctx.isSock = true) (blocking : ctx.isUserNonblock = false)
    {labels : List ConnectLabel}
    (run : Run (Guarded Sound (Steps Connecting.step)) (start w timeout fd ctx file co) labels x)
    {value : CallResult} (returned : x.result = some value) :
    value = .success ∧ x.attempt = some .established ∨ ∃ errno, value = .failure errno := by
  have safe : x.Safe := run.invariant (safe_start opened isSock blocking)
    fun safe step => safe.step step.1 step.2
  cases value with
  | success => exact Or.inl ⟨rfl, safe.returned returned⟩
  | failure errno => exact Or.inr ⟨errno, rfl⟩

/-- The context of a socket that `socket` has made. -/
def socketContext : FdContext := { isSock := true }

/-- Coroutine 0 connects socket 5 with a timeout of five seconds. -/
def connecting : Connecting Unit := start () 5000 5 socketContext (some ⟨5, true⟩) {}

/-- The attempt is not over at once; the socket becomes writable when it is. -/
def connectLabels : List ConnectLabel :=
  [.origin (.failure .EINPROGRESS), .addTimer 0, .addEvent true, .settle true, .report, .resume,
    .probe none]

/-- The call returns 0 when the connection is established. -/
theorem connect_five_seconds :
    ∃ x, Run (Guarded Sound (Steps Connecting.step)) connecting connectLabels x ∧
      x.result = some .success ∧
      (CallResult.success = .success ∧ x.attempt = some .established ∨
        ∃ errno, CallResult.success = .failure errno) := by
  have meets : ∀ label ∈ connectLabels, ∀ x : Connecting Unit, x.Sound label := by
    simp [connectLabels, Sound]
  have run : Run (Guarded Sound (Steps Connecting.step)) connecting connectLabels
      ((exec Connecting.step connecting connectLabels).get (by decide)) :=
    (run_of_exec (Option.some_get _).symm).guarded meets
  exact ⟨_, run, by decide, connect_zero_established rfl rfl rfl run (by decide)⟩

/-- `epoll_ctl` fails, and the call looks at `SO_ERROR` of a socket that is not connected; and
a reader of the socket is told first that the attempt has failed. -/
theorem connect_zero_in_progress :
    (∃ labels x, Run (Steps Connecting.step) connecting labels x ∧ x.result = some .success ∧
      x.attempt = some .inProgress) ∧
    ∃ labels x, Run (Steps Connecting.step) connecting labels x ∧ x.result = some .success ∧
      x.attempt = some .failed := by
  constructor
  · exact ⟨[.origin (.failure .EINPROGRESS), .addTimer 0, .addEvent false, .probe none], _,
      run_of_exec (Option.some_get (by decide)).symm, by decide, by decide⟩
  · exact ⟨[.origin (.failure .EINPROGRESS), .addTimer 0, .addEvent true, .settle false, .report,
      .takeError, .resume, .probe none], _, run_of_exec (Option.some_get (by decide)).symm,
      by decide, by decide⟩

end Connecting

end Reyao
