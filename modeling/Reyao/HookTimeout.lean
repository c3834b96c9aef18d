import Reyao.HookEffect
import Reyao.HookFiles

/-!
# Timeouts of hooked calls

`Tick` puts the steps of one worker on a clock that does not go back. A call of
`do_io` that goes on for a while returns what the original function answered last,
or it was cancelled by one of its timers, and then its timeout has passed since it
began. Every timer of a call expires that late unless its expiry time overflows
(`ExpiresInRange`).
-/

namespace Reyao

/-- The reading of the clock that a step makes. -/
def Label.reading? {W : Type} : Label W → Option Int
  | .expire _ now _ => some now
  | .addTimer _ _ now => some now
  | _ => none

/-- An expiry time that does not overflow is no earlier than the sum. -/
theorem le_toInt64 {i : Int} (small : i < 2 ^ 63) : i ≤ toInt64 i := by
  rw [toInt64, Int.bmod_def]
  split <;> omega

namespace System

open Lib

/-- A scheduler with one worker, and the time of its last step. -/
structure Clocked : Type where
  sys : System Unit
  now : Int

/-- A step at a time that is not before the last one. -/
structure Tick (x : Clocked) (e : Int × Label Unit) (y : Clocked) : Prop where
  later : x.now ≤ e.1
  reads : ∀ now, e.2.reading? = some now → now = e.1
  ran : x.sys.step e.2 = some y.sys
  now_eq : y.now = e.1

/-- When a call of `c` registers, nobody waits for the same descriptor and direction,
and `epoll_ctl` succeeds. -/
def Registers (c : Nat) (x : Clocked) (e : Int × Label Unit) : Prop :=
  ∀ refused call timer, e.2 = .addEvent () refused → (x.sys.workers ()).phase = .running c →
    (x.sys.coroutines c).pc = .armed call timer →
    (x.sys.workers ()).poller.waiter call.fd call.kind.type = none ∧
      x.sys.granted () refused ((x.sys.workers ()).poller.addOp call.fd) call.fd = true

/-- When a call of `c` sets a timer, the expiry time is in the range of `int64_t`. -/
def ExpiresInRange (c : Nat) (x : Clocked) (e : Int × Label Unit) : Prop :=
  ∀ addr now call, e.2 = .addTimer () addr now → (x.sys.workers ()).phase = .running c →
    (x.sys.coroutines c).pc = .blocked call → call.timeout ≠ -1 → now + call.timeout < 2 ^ 63

/-- With one worker every step is local. -/
theorem local_unit (s : System Unit) (label : Label Unit) : s.Local label := by
  cases label with
  | take w => exact fun _ _ _ _ _ _ v other => absurd rfl other
  | close w fd => exact fun v other => absurd rfl other
  | closeOrigin w => exact fun _ _ _ _ _ v other => absurd rfl other
  | _ => trivial

theorem Tick.inv {x y : Clocked} {e : Int × Label Unit} (tick : Tick x e y) (inv : x.sys.Inv) :
    y.sys.Inv :=
  inv.step (local_unit _ _) tick.ran

/-! ## A call that is watched -/

/-- A call of `do_io`: the `serial`-th of `c`, which began at `began`. -/
structure Watched : Type where
  c : Nat
  serial : Nat
  kind : CallKind
  began : Int
  timeout : Int
  io : kind.IsIo

/-- Its timeout has passed at `time`. -/
def Watched.Over (v : Watched) (time : Int) : Prop :=
  v.timeout ≠ -1 ∧ v.began + v.timeout ≤ time

theorem Watched.Over.mono {v : Watched} {time time' : Int} (elapsed : v.Over time)
    (le : time ≤ time') : v.Over time' :=
  ⟨elapsed.1, le_trans elapsed.2 le⟩

/-- A function of a timer that was made for the call. -/
def Watched.Owns (v : Watched) (callback : Callback) : Prop :=
  callback.co = v.c ∧ callback.serial = v.serial

/-- What is so while the call goes on: it was cancelled when it was over, if at all,
and its timers are no earlier. -/
structure Timed (v : Watched) (x : Clocked) : Prop where
  inv : x.sys.Inv
  clock : v.began ≤ x.now
  counted : v.serial < (x.sys.coroutines v.c).calls
  call : ∀ {call}, x.sys.InCall v.c call → call.serial = v.serial →
    (x.sys.coroutines v.c).pc.mayWait? = some call ∧ call.kind = v.kind ∧
      call.timeout = v.timeout ∧
      ∀ errno, call.cancelled = some errno → errno = .ETIMEDOUT ∧ v.Over x.now
  timers : ∀ {t callback}, (x.sys.timers.heap t).func = some callback → v.Owns callback →
    (x.sys.timers.heap t).recursive = false ∧ v.Over (x.sys.timers.heap t).expire
  funcs : ∀ {callback}, .func callback ∈ (x.sys.workers ()).tasks → v.Owns callback →
    v.Over x.now

variable {v : Watched} {x y : Clocked} {e : Int × Label Unit}

/-- The number of calls does not go back. -/
theorem Change.calls_le {W : Type} {s : System W} {label : Label W} {c : Nat} {co : Coroutine W}
    (change : Change s label c co) : (s.coroutines c).calls ≤ co.calls := by
  cases change with
  | begins =>
      rw [(begin_cases ..).1]
      exact Nat.le_succ _
  | _ => exact le_refl _

/-- What a step makes of the call. -/
theorem Timed.call_of_change (timed : Timed v x) {label : Label Unit} {co : Coroutine Unit}
    (change : Change x.sys label v.c co) {time : Int} (later : x.now ≤ time) {call : Call Unit}
    (inCall : co.pc.call? = some call) (serial : call.serial = v.serial) :
    co.pc.mayWait? = some call ∧ call.kind = v.kind ∧ call.timeout = v.timeout ∧
      ∀ errno, call.cancelled = some errno → errno = .ETIMEDOUT ∧ v.Over time := by
  -- a call that goes on as it was
  have goes : ∀ {pc : Pc Unit}, x.sys.InCall v.c call → pc.mayWait? = some call →
      pc.mayWait? = some call ∧ call.kind = v.kind ∧ call.timeout = v.timeout ∧
        ∀ errno, call.cancelled = some errno → errno = .ETIMEDOUT ∧ v.Over time := by
    intro pc was may
    obtain ⟨-, kind, timeout, elapsed⟩ := timed.call was serial
    exact ⟨may, kind, timeout,
      fun errno is => ⟨(elapsed errno is).1, (elapsed errno is).2.mono later⟩⟩
  cases change with
  | same => exact goes inCall (timed.call inCall serial).1
  | outside _ out =>
      rw [out] at inCall
      cases inCall
  | @begins w kind fd _ _ _ =>
      -- a new call has a number of its own
      have counted := timed.counted
      obtain ⟨-, user | ⟨began, -, -, -, number, -, pc⟩⟩ := begin_cases w kind fd
        (x.sys.fdmanager.getFdContext fd) (x.sys.files fd) (x.sys.coroutines v.c)
      · rw [user] at inCall
        cases inCall
      · have is : call = began := by
          rcases pc with direct | ⟨origin, -⟩
          · rw [direct] at inCall
            exact (Option.some.inj inCall).symm
          · rw [origin] at inCall
            exact (Option.some.inj inCall).symm
        rw [is, number] at serial
        omega
  | done => cases inCall
  | answered => cases inCall
  | @goesOn was pc may may' =>
      have same := (Pc.call?_of_mayWait? may').symm.trans inCall
      cases same
      exact goes (Pc.call?_of_mayWait? may) may'
  | @probes was may connects =>
      cases inCall
      have io := v.io
      rw [← (timed.call (Pc.call?_of_mayWait? may) serial).2.1] at io
      exact absurd io connects
  | unregistered => cases inCall
  | timedOut => cases inCall
  | @cancelled w callback was queued owner before number =>
      rw [Pc.call?_cancel, before] at inCall
      cases inCall
      obtain ⟨may, kind, timeout, -⟩ := timed.call before serial
      refine ⟨by rw [Pc.mayWait?_cancel, may]; rfl, kind, timeout, fun errno is => ?_⟩
      cases is
      exact ⟨rfl, (timed.funcs queued ⟨owner, number.symm.trans serial⟩).mono later⟩

/-- A step on the clock keeps what is so while the call goes on. -/
theorem Timed.tick (timed : Timed v x) (inRange : ExpiresInRange v.c x e) (tick : Tick x e y) :
    Timed v y := by
  have effect := timed.inv.effect tick.ran
  have later : x.now ≤ y.now := by
    rw [tick.now_eq]
    exact tick.later
  refine ⟨tick.inv timed.inv, le_trans timed.clock later,
    lt_of_lt_of_le timed.counted (effect.change v.c).calls_le,
    fun inCall serial => timed.call_of_change (effect.change v.c) later inCall serial,
    fun {t callback} func owns => ?_, fun {callback} queued owns => ?_⟩
  · rcases effect.timers t with ages | ⟨w, addr, now, c, call, label, running, pc, bounded, timer⟩
    · obtain ⟨once, elapsed⟩ := timed.timers (ages.func_eq func) owns
      rcases ages.expire with same | repeats
      · rw [ages.recursive, same]
        exact ⟨once, elapsed⟩
      · rw [once] at repeats
        cases repeats
    · rw [timer] at func ⊢
      cases func
      obtain ⟨rfl, serial⟩ := owns
      have inCall : x.sys.InCall v.c call := by rw [InCall, pc]; rfl
      obtain ⟨-, -, timeout, -⟩ := timed.call inCall serial
      have fits := le_toInt64 (inRange addr now call label running pc bounded)
      have reading : now = e.1 := tick.reads now (by rw [label]; rfl)
      have began := timed.clock
      have before := tick.later
      rw [timeout] at fits bounded
      refine ⟨rfl, bounded, ?_⟩
      simp only [timeout]
      omega
  · rcases effect.funcs queued with old | ⟨w, now, probe, t, label, func, due⟩
    · exact (timed.funcs old owns).mono later
    · obtain ⟨once, elapsed⟩ := timed.timers func owns
      have reading : now = e.1 := tick.reads now (by rw [label]; rfl)
      rcases due with repeats | expired
      · rw [once] at repeats
        cases repeats
      · refine elapsed.mono ?_
        rw [tick.now_eq, ← reading]
        exact expired

/-! ## How it begins and how it ends -/

/-- `do_io` on a socket in blocking mode. -/
theorem begin_blocking {W : Type} (w : W) {kind : CallKind} (io : kind.IsIo) (fd : Nat)
    {ctx : FdContext} (socket : ctx.isSock = true) (blocking : ctx.isUserNonblock = false)
    (opened : ctx.close = false) (file : Option File) (co : Coroutine W) :
    begin w kind fd (some ctx) file co =
      { co with
        calls := co.calls + 1
        pc := .origin
          { kind := kind, fd := fd, timeout := ctx.getTimeout kind.type, serial := co.calls,
            worker := w, file := file } } := by
  simp only [begin, socket, blocking, opened]
  cases kind with
  | connect timeout => exact absurd rfl (io timeout)
  | _ => rfl

/-- The call that begins on a socket in blocking mode. -/
def watched (x : Clocked) (c : Nat) (kind : CallKind) (io : kind.IsIo) (began : Int)
    (ctx : FdContext) : Watched where
  c := c
  serial := (x.sys.coroutines c).calls
  kind := kind
  began := began
  timeout := ctx.getTimeout kind.type
  io := io

theorem timed_of_begin {c fd : Nat} {kind : CallKind} (io : kind.IsIo) {began : Int}
    {ctx : FdContext} (inv : x.sys.Inv) (running : (x.sys.workers ()).phase = .running c)
    (managed : x.sys.fdmanager.getFdContext fd = some ctx) (socket : ctx.isSock = true)
    (blocking : ctx.isUserNonblock = false) (opened : ctx.close = false)
    (tick : Tick x (began, .begin () kind fd) y) : Timed (watched x c kind io began ctx) y := by
  have inv' := tick.inv inv
  have ran := tick.ran
  simp only [step, Label.worker, running, System.runStep] at ran
  obtain ⟨-, done⟩ := inUser_some ran
  rw [managed, begin_blocking () io fd socket blocking opened] at done
  have sys := (Option.some.inj done).symm
  have co := congrFun (congrArg System.coroutines sys) c
  rw [coroutines_setCoroutine_self] at co
  -- no timer was made for a call that has just begun
  have fresh : ∀ {callback : Callback}, x.sys.CallbackOk callback →
      ¬(watched x c kind io began ctx).Owns callback := by
    rintro callback ⟨counted, -⟩ ⟨owner, serial⟩
    rw [owner, serial] at counted
    exact absurd counted (Nat.lt_irrefl _)
  refine ⟨inv', le_of_eq tick.now_eq.symm, ?_, fun {call} inCall serial => ?_,
    fun {t callback} func owns => ?_, fun {callback} queued owns => ?_⟩
  · change (x.sys.coroutines c).calls < (y.sys.coroutines c).calls
    rw [co]
    exact Nat.lt_succ_self _
  · change (y.sys.coroutines c).pc.call? = some call at inCall
    change (y.sys.coroutines c).pc.mayWait? = some call ∧ _
    rw [co] at inCall ⊢
    cases inCall
    exact ⟨rfl, rfl, rfl, by rintro errno ⟨⟩⟩
  · rw [sys] at func
    exact absurd owns (fresh (inv.callbacks.timers func))
  · rw [sys] at queued
    exact absurd owns (fresh (inv.callbacks.tasks queued))

/-- How a watched call ends: with an answer that is not to be waited for, or by its
timeout. -/
theorem Timed.ends (timed : Timed v x) (registers : Registers v.c x e) (tick : Tick x e y)
    {call : Call Unit} (going : x.sys.InCall v.c call) (serial : call.serial = v.serial)
    (ended : ∀ call, y.sys.InCall v.c call → call.serial ≠ v.serial) :
    (∃ answer, e.2 = .origin () answer ∧ (x.sys.workers ()).phase = .running v.c ∧
      (y.sys.coroutines v.c).returned = some answer.result ∧
      answer ≠ .failure .EAGAIN ∧ answer ≠ .failure .EINTR) ∨
    ((y.sys.coroutines v.c).returned = some (.failure .ETIMEDOUT) ∧ v.Over e.1) := by
  obtain ⟨may, kind, timeout, elapsed⟩ := timed.call going serial
  have change := (timed.inv.effect tick.ran).change v.c
  have stays : ∀ {co : Coroutine Unit} {call' : Call Unit}, y.sys.coroutines v.c = co →
      co.pc.call? = some call' → call'.serial ≠ v.serial := by
    rintro co call' rfl inCall
    exact ended call' inCall
  generalize after : y.sys.coroutines v.c = co at change ⊢
  cases change with
  | same => exact absurd serial (stays after going)
  | outside out =>
      rw [InCall, out] at going
      cases going
  | begins _ _ user =>
      rw [InCall, user] at going
      cases going
  | done waitless =>
      rw [waitless] at may
      cases may
  | @answered w call' answer label running pc settled =>
      rw [pc] at may
      cases may
      have io := v.io
      rw [← kind] at io
      exact Or.inl ⟨answer, label, running, rfl, settled io⟩
  | @goesOn call' pc may' goes =>
      cases may.symm.trans may'
      exact absurd serial (stays after (Pc.call?_of_mayWait? goes))
  | @probes call' may' connects =>
      cases may.symm.trans may'
      have io := v.io
      rw [← kind] at io
      exact absurd io connects
  | @unregistered w refused call' timer poller label running pc failed =>
      rw [pc] at may
      cases may
      obtain ⟨free, granted⟩ := registers refused call timer label running pc
      obtain ⟨-, ⟨-, -, -, taken | refused⟩ | ⟨added, -⟩⟩ :=
        Epoller.addEvent_cases (timed.inv.pollers.wf ()) (timed.inv.pollers.armed ()).small failed
      · exact absurd free taken
      · rw [granted] at refused
        cases refused
      · cases added
  | @timedOut call' timer errno pc cancelled =>
      rw [pc] at may
      cases may
      obtain ⟨rfl, passed⟩ := elapsed errno cancelled
      exact Or.inr ⟨rfl, passed.mono tick.later⟩
  | @cancelled w callback call' _ _ before _ =>
      cases going.symm.trans before
      have inCall : ((x.sys.coroutines v.c).pc.cancel .ETIMEDOUT).call? =
          some { call with cancelled := some .ETIMEDOUT } := by
        rw [Pc.call?_cancel, before]
        rfl
      have apart := stays after inCall
      exact absurd serial apart

/-- **A call of `do_io` simulates a blocking call with a timeout.** In a run of one
worker on a clock that does not go back, a call on a managed socket in blocking mode
whose registrations succeed and whose expiry times do not overflow returns what its
last call of the original function answered, which is neither `EAGAIN` nor `EINTR`, or
`ETIMEDOUT`, and that only when it has a timeout that has passed since it began. -/
theorem do_io_blocks_until_timeout {files : Nat → Option File} {nextFile : Nat} {start : Int}
    {pre mid : List (Int × Label Unit)} {x x₁ y y' : Clocked} {c fd : Nat} {kind : CallKind}
    {ctx : FdContext} {began time : Int} {label : Label Unit}
    (before : Run Tick ⟨init files nextFile, start⟩ pre x)
    (running : (x.sys.workers ()).phase = .running c) (io : kind.IsIo)
    (managed : x.sys.fdmanager.getFdContext fd = some ctx) (socket : ctx.isSock = true)
    (blocking : ctx.isUserNonblock = false) (opened : ctx.close = false)
    (begins : Tick x (began, .begin () kind fd) x₁)
    (during : Run (Guarded (fun x e => Registers c x e ∧ ExpiresInRange c x e) Tick) x₁ mid y)
    (registers : Registers c y (time, label)) (last : Tick y (time, label) y')
    (going : ∃ call, y.sys.InCall c call ∧ call.serial = (x.sys.coroutines c).calls)
    (ended : ∀ call, y'.sys.InCall c call → call.serial ≠ (x.sys.coroutines c).calls) :
    (∃ answer, label = .origin () answer ∧ (y.sys.workers ()).phase = .running c ∧
      (y'.sys.coroutines c).returned = some answer.result ∧
      answer ≠ .failure .EAGAIN ∧ answer ≠ .failure .EINTR) ∨
    ((y'.sys.coroutines c).returned = some (.failure .ETIMEDOUT) ∧
      ctx.getTimeout kind.type ≠ -1 ∧ ctx.getTimeout kind.type ≤ time - began) := by
  have inv : x.sys.Inv :=
    before.invariant (I := fun x => x.sys.Inv) (inv_init files nextFile) fun inv tick => tick.inv inv
  have first := timed_of_begin io inv running managed socket blocking opened begins
  have timed : Timed (watched x c kind io began ctx) y :=
    during.invariant first fun timed step => timed.tick step.1.2 step.2
  obtain ⟨call, inCall, serial⟩ := going
  rcases timed.ends registers last inCall serial ended with answered | ⟨returned, bounded, passed⟩
  · exact Or.inl answered
  · refine Or.inr ⟨returned, bounded, ?_⟩
    change began + ctx.getTimeout kind.type ≤ time at passed
    omega

/-! ## A read that times out -/

/-- `Tick` as a function. -/
def tick (x : Clocked) (e : Int × Label Unit) : Option Clocked :=
  if x.now ≤ e.1 ∧ ∀ now ∈ e.2.reading?, now = e.1 then
    (x.sys.step e.2).map fun sys => ⟨sys, e.1⟩
  else none

theorem tick_of_steps {x y : Clocked} {e : Int × Label Unit} (ran : tick x e = some y) :
    Tick x e y := by
  rw [tick] at ran
  split at ran
  · rename_i ordered
    obtain ⟨sys, done, rfl⟩ := Option.map_eq_some_iff.mp ran
    exact ⟨ordered.1, ordered.2, done, rfl⟩
  · cases ran

/-- The state after some steps that can be made. -/
def after (x : Clocked) (es : List (Int × Label Unit)) : Clocked := (exec tick x es).getD x

theorem run_after {x : Clocked} {es : List (Int × Label Unit)}
    (runs : (exec tick x es).isSome = true) : Run Tick x es (after x es) := by
  obtain ⟨y, done⟩ := Option.isSome_iff_exists.mp runs
  rw [after, done]
  exact (run_of_exec done).mono tick_of_steps

theorem tick_after {x : Clocked} {e : Int × Label Unit} (runs : (tick x e).isSome = true) :
    Tick x e (after x [e]) := by
  obtain ⟨y, done⟩ := Option.isSome_iff_exists.mp runs
  rw [after, exec, done]
  exact tick_of_steps done

/-- Coroutine 0 opens socket 5, and sets the timeout of reads from it. -/
def opening (now timeout : Int) : List (Int × Label Unit) :=
  [(now, .schedule () 0), (now, .take ()), (now, .socket () 5),
    (now, .setTimeout () 5 .EPOLLIN timeout)]

/-- The worker polls, takes the function of the timer and calls it. -/
def waking (later : Int) : List (Int × Label Unit) :=
  [(later, .poll () []), (later, .expire () later 0), (later, .report ()), (later, .take ())]

def readOpened (now timeout : Int) : Clocked := after ⟨oneWorker, now⟩ (opening now timeout)

/-- Coroutine 0 begins to read. -/
def readBegun (now timeout : Int) : Clocked :=
  after (readOpened now timeout) [(now, .begin () .read 5)]

/-- There is nothing to read. -/
def readBlocked (now timeout : Int) : Clocked :=
  after (readBegun now timeout) [(now, .origin () (.failure .EAGAIN))]

/-- The timer is set. -/
def readArmed (now timeout : Int) : Clocked :=
  after (readBlocked now timeout) [(now, .addTimer () 0 now)]

/-- The read is suspended. -/
def readWaits (now timeout : Int) : Clocked :=
  after (readArmed now timeout) [(now, .addEvent () false)]

def readWoken (now timeout later : Int) : Clocked :=
  after (readWaits now timeout) (waking later)

/-- The read is resumed. -/
def readResumed (now timeout later : Int) : Clocked :=
  after (readWoken now timeout later) [(later, .take ())]

/-- Steps that neither set a timer nor register. -/
def idle : Label Unit → Bool
  | .addTimer _ _ _ => false
  | .addEvent _ _ => false
  | _ => true

theorem meets_of_idle {c : Nat} {x : Clocked} {e : Int × Label Unit} (quiet : idle e.2 = true) :
    Registers c x e ∧ ExpiresInRange c x e := by
  refine ⟨fun refused call timer is => ?_, fun addr now call is => ?_⟩
  · rw [is] at quiet
    cases quiet
  · rw [is] at quiet
    cases quiet

theorem idle_waking {later : Int} {e : Int × Label Unit} (member : e ∈ waking later) :
    idle e.2 = true := by
  simp only [waking, List.mem_cons, List.not_mem_nil, or_false] at member
  rcases member with rfl | rfl | rfl | rfl <;> rfl

/-- A read with a timeout of 10 that is woken 10 later. -/
theorem read_timed_out :
    (∃ answer, (Label.take () : Label Unit) = .origin () answer ∧
      ((readWoken 0 10 10).sys.workers ()).phase = .running 0 ∧
      ((readResumed 0 10 10).sys.coroutines 0).returned = some answer.result ∧
      answer ≠ .failure .EAGAIN ∧ answer ≠ .failure .EINTR) ∨
    (((readResumed 0 10 10).sys.coroutines 0).returned = some (.failure .ETIMEDOUT) ∧
      (10 : Int) ≠ -1 ∧ (10 : Int) ≤ 10 - 0) := by
  have before : Run Tick ⟨oneWorker, 0⟩ (opening 0 10) (readOpened 0 10) := run_after (by decide)
  have io : CallKind.read.IsIo := by
    intro timeout is
    cases is
  have begins : Tick (readOpened 0 10) (0, .begin () .read 5) (readBegun 0 10) :=
    tick_after (by decide)
  have blocked : Tick (readBegun 0 10) (0, .origin () (.failure .EAGAIN)) (readBlocked 0 10) :=
    tick_after (by decide)
  have arms : Tick (readBlocked 0 10) (0, .addTimer () 0 0) (readArmed 0 10) :=
    tick_after (by decide)
  have waits : Tick (readArmed 0 10) (0, .addEvent () false) (readWaits 0 10) :=
    tick_after (by decide)
  have woken : Run Tick (readWaits 0 10) (waking 10) (readWoken 0 10 10) := run_after (by decide)
  have inRange : ExpiresInRange 0 (readBlocked 0 10) (0, .addTimer () 0 0) := by
    intro addr now call is _ pc _
    cases is
    cases pc
    decide
  have registers : Registers 0 (readArmed 0 10) (0, .addEvent () false) := by
    intro refused call timer is _ pc
    cases is
    cases pc
    decide
  have tail : Run (Guarded (fun x e => Registers 0 x e ∧ ExpiresInRange 0 x e) Tick)
      (readWaits 0 10) (waking 10) (readWoken 0 10 10) :=
    woken.guarded fun e member x => meets_of_idle (idle_waking member)
  have suspended : Run (Guarded (fun x e => Registers 0 x e ∧ ExpiresInRange 0 x e) Tick)
      (readBlocked 0 10) [(0, .addTimer () 0 0), (0, .addEvent () false)] (readWaits 0 10) := by
    refine Run.cons ⟨⟨?_, inRange⟩, arms⟩ (Run.single ⟨⟨registers, ?_⟩, waits⟩)
    · intro refused call timer is
      cases is
    · intro addr now call is
      cases is
  have during := (Run.cons ⟨meets_of_idle rfl, blocked⟩ suspended).append tail
  have last : Tick (readWoken 0 10 10) (10, .take ()) (readResumed 0 10 10) :=
    tick_after (by decide)
  have going : ∃ call, (readWoken 0 10 10).sys.InCall 0 call ∧
      call.serial = ((readOpened 0 10).sys.coroutines 0).calls := ⟨_, rfl, rfl⟩
  have ended : ∀ call, (readResumed 0 10 10).sys.InCall 0 call →
      call.serial ≠ ((readOpened 0 10).sys.coroutines 0).calls := by
    intro call inCall
    cases inCall
  exact do_io_blocks_until_timeout before rfl io rfl rfl rfl rfl begins during (meets_of_idle rfl).1
    last going ended

/-- The time of day, in milliseconds. -/
def daytime : Int := 1600000000000

/-- A timeout of 9223372036854775 seconds. -/
def ages : Int := 9223372036854775000

/-- A read whose expiry time overflows is cancelled at the time it began. -/
theorem not_do_io_blocks_until_timeout :
    Run Tick ⟨oneWorker, daytime⟩ (opening daytime ages) (readOpened daytime ages) ∧
    ((readOpened daytime ages).sys.workers ()).phase = .running 0 ∧
    (readOpened daytime ages).sys.fdmanager.getFdContext 5 =
      some { isSock := true, recvTimeout := ages } ∧
    Tick (readOpened daytime ages) (daytime, .begin () .read 5) (readBegun daytime ages) ∧
    Run (Guarded (Registers 0) Tick) (readBegun daytime ages)
      ([(daytime, .origin () (.failure .EAGAIN)), (daytime, .addTimer () 0 daytime),
        (daytime, .addEvent () false)] ++ waking daytime) (readWoken daytime ages daytime) ∧
    Tick (readWoken daytime ages daytime) (daytime, .take ())
      (readResumed daytime ages daytime) ∧
    (∃ call, (readWoken daytime ages daytime).sys.InCall 0 call ∧
      call.serial = ((readOpened daytime ages).sys.coroutines 0).calls) ∧
    ((readResumed daytime ages daytime).sys.coroutines 0).pc = .user ∧
    ((readResumed daytime ages daytime).sys.coroutines 0).returned =
      some (.failure .ETIMEDOUT) ∧
    ¬ages ≤ daytime - daytime := by
  have blocked : Tick (readBegun daytime ages) (daytime, .origin () (.failure .EAGAIN))
      (readBlocked daytime ages) := tick_after (by decide)
  have arms : Tick (readBlocked daytime ages) (daytime, .addTimer () 0 daytime)
      (readArmed daytime ages) := tick_after (by decide)
  have waits : Tick (readArmed daytime ages) (daytime, .addEvent () false)
      (readWaits daytime ages) := tick_after (by decide)
  have woken : Run Tick (readWaits daytime ages) (waking daytime)
      (readWoken daytime ages daytime) := run_after (by decide)
  have registers : Registers 0 (readArmed daytime ages) (daytime, .addEvent () false) := by
    intro refused call timer is _ pc
    cases is
    cases pc
    decide
  have tail : Run (Guarded (Registers 0) Tick) (readWaits daytime ages) (waking daytime)
      (readWoken daytime ages daytime) :=
    woken.guarded fun e member x => (meets_of_idle (idle_waking member)).1
  have suspended : Run (Guarded (Registers 0) Tick) (readBlocked daytime ages)
      [(daytime, .addTimer () 0 daytime), (daytime, .addEvent () false)]
      (readWaits daytime ages) := by
    refine Run.cons ⟨?_, arms⟩ (Run.single ⟨registers, waits⟩)
    intro refused call timer is
    cases is
  exact ⟨run_after (by decide), rfl, rfl, tick_after (by decide),
    (Run.cons ⟨(meets_of_idle rfl).1, blocked⟩ suspended).append tail, tick_after (by decide),
    ⟨_, rfl, rfl⟩, rfl, by decide, by decide⟩

end System

end Reyao
