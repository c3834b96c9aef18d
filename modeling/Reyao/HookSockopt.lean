import Reyao.HookFlags
import Reyao.HookTimeout

/-!
# Timeouts of sockets (`hook.cc`, `fdmanager.cc`)

A hooked `setsockopt` of `SO_RCVTIMEO` or `SO_SNDTIMEO` records the timeout in the context
of the descriptor, where `do_io` takes it from, and then asks the kernel, which may reject
it. In the record -1 stands for no timeout, for the kernel a zero `timeval` does. A call of
`do_io` that finds nothing sets a timer, whose expiry time is the sum of the clock and the
record in `int64_t`. `sockopt_timeouts_native_iff` says in which sequences of both kinds of calls
`do_io` waits as a call on a blocking socket would.
-/

namespace Reyao

open Lib

/-- A `timeval`. -/
structure Timeval : Type where
  tv_sec : Int
  tv_usec : Int
  deriving DecidableEq

namespace Timeval

def microseconds (tv : Timeval) : Int := tv.tv_sec * 10 ^ 6 + tv.tv_usec

/-- The milliseconds that the hook counts, were they not to overflow. -/
def milliseconds (tv : Timeval) : Int := tv.tv_sec * 1000 + tv.tv_usec.tdiv 1000

def IsZero (tv : Timeval) : Prop := tv.tv_sec = 0 ∧ tv.tv_usec = 0

instance (tv : Timeval) : Decidable tv.IsZero :=
  inferInstanceAs (Decidable (tv.tv_sec = 0 ∧ tv.tv_usec = 0))

/-- A timer that is set at `now` is no earlier than the timeout asks for, and the record of
it is not taken for none: the timeout is not zero, its record is not -1, the expiry time does
not overflow, and it is a whole number of milliseconds. A negative number of microseconds is
rounded up, and so is an expiry time that overflows below. -/
def Exact (tv : Timeval) (now : Int) : Prop :=
  ¬tv.IsZero ∧ (tv.milliseconds + 1) % 2 ^ 64 ≠ 0 ∧ now + tv.milliseconds < 2 ^ 63 ∧
    (now + tv.milliseconds < -2 ^ 63 ∨ tv.tv_usec ≤ 0 ∨ 1000 ∣ tv.tv_usec)

instance (tv : Timeval) (now : Int) : Decidable (tv.Exact now) :=
  inferInstanceAs (Decidable (¬tv.IsZero ∧ _ ∧ _ ∧ _))

end Timeval

/-- A hooked `setsockopt` of the timeout of a direction, and whether the kernel accepts it. -/
structure TimeoutCall : Type where
  type : EventType
  tv : Timeval
  ok : Bool
  deriving DecidableEq

/-- What a blocking socket waits for; a zero timeout is none. -/
def nativeTimeout (accepted : Option Timeval) : Option Timeval :=
  accepted.filter fun tv => !decide tv.IsZero

/-- A timer that is set at `now` with what `do_io` takes for its timeout is the one that a
blocking socket would have: there is none if there is no timeout, and otherwise it
expires no earlier than the timeout. -/
def Corresponds (now timeout : Int) (accepted : Option Timeval) : Prop :=
  match nativeTimeout accepted with
  | none => timeout = -1
  | some tv => timeout ≠ -1 ∧ tv.microseconds ≤ (toInt64 (now + timeout) - now) * 1000

/-- A call of `do_io` that has to wait sets no timer if there is no timeout, and otherwise
one that expires no earlier than the timeout after `now`. -/
def WaitsFor {W : Type} (call : Call W) (now : Int) (accepted : Option Timeval) : Prop :=
  ∀ (s s' : System W) (c addr : Nat), (s.coroutines c).pc = .blocked call →
    s.addTimer c addr now = some s' →
    match nativeTimeout accepted with
    | none => (s'.coroutines c).pc = .armed call none
    | some tv => ∃ timer, (s'.coroutines c).pc = .armed call (some timer) ∧
        tv.microseconds ≤ ((s'.timers.heap timer).expire - now) * 1000

/-- A call on a descriptor: a hooked `setsockopt` of a timeout, or a call of `do_io` that
finds at `now` that it has to wait. -/
inductive TimedCall : Type
  | setsockopt (call : TimeoutCall)
  | io (kind : CallKind) (now : Int)
  deriving DecidableEq

/-- The descriptors, and the last timeout of one of them that the kernel accepted for a
direction. -/
structure SocketTimeouts : Type where
  descriptors : Descriptors
  accepted : EventType → Option Timeval := fun _ => none

namespace SocketTimeouts

def context (s : SocketTimeouts) (fd : Nat) : Option FdContext :=
  s.descriptors.fdmanager.getFdContext fd

/-- `setsockopt(fd, SOL_SOCKET, SO_RCVTIMEO or SO_SNDTIMEO, &tv, sizeof(tv))`. -/
def setsockopt (fd : Nat) (s : SocketTimeouts) (call : TimeoutCall) : SocketTimeouts :=
  let (rt, descriptors) := s.descriptors.setsockopt fd true
    (.timeout call.type call.tv.tv_sec call.tv.tv_usec) call.ok
  { descriptors := descriptors
    accepted := if rt = 0#32 then Function.update s.accepted call.type (some call.tv)
      else s.accepted }

/-- `do_io` does not change the timeouts. -/
def Step (fd : Nat) (s : SocketTimeouts) (call : TimedCall) (t : SocketTimeouts) : Prop :=
  match call with
  | .setsockopt call => s.setsockopt fd call = t
  | .io kind _ => kind.IsIo ∧ s = t

/-- Every call of `do_io` of a kind on the descriptor asks the original function first, and if
it then has to wait, it waits for the last accepted timeout of its direction. -/
def Native (s : SocketTimeouts) (fd : Nat) (kind : CallKind) (now : Int) : Prop :=
  ∀ (W : Type) (w : W) (file : Option File) (co : Coroutine W),
    ∃ call, (System.begin w kind fd (s.context fd) file co).pc = .origin call ∧
      WaitsFor call now (s.accepted kind.type)

/-- What a call does on a blocking socket: one that is rejected changes nothing, and one of
`do_io` waits for what was accepted last. -/
def AsNative (fd : Nat) (s : SocketTimeouts) (call : TimedCall) (t : SocketTimeouts) : Prop :=
  match call with
  | .setsockopt call => call.ok = false → t.context fd = s.context fd
  | .io kind now => s.Native fd kind now

/-- A call that is rejected asks for what is recorded already, and a timeout that is used is
exact. -/
def Agrees (fd : Nat) (s : SocketTimeouts) (call : TimedCall) : Prop :=
  match call with
  | .setsockopt call =>
      call.ok = false → ∀ ctx ∈ s.context fd, toInt64 call.tv.milliseconds = ctx.getTimeout call.type
  | .io kind now => ∀ tv ∈ s.accepted kind.type, tv.Exact now

end SocketTimeouts

namespace FdContext

variable (ctx : FdContext) (type type' : EventType) (timeout : Int)

theorem getTimeout_setTimeout :
    (ctx.setTimeout type timeout).getTimeout type' =
      if type = type' then timeout else ctx.getTimeout type' := by
  cases type <;> cases type' <;> rfl

theorem setTimeout_eq_iff : ctx.setTimeout type timeout = ctx ↔ timeout = ctx.getTimeout type := by
  constructor
  · intro same
    have read := congrArg (getTimeout type) same
    rwa [getTimeout_setTimeout, if_pos rfl] at read
  · rintro rfl
    cases type <;> rfl

end FdContext

/-- The hook's sum wraps around as a whole. -/
theorem toInt64_toInt64_add (a b : Int) : toInt64 (toInt64 a + b) = toInt64 (a + b) := by
  rw [toInt64, toInt64, toInt64, Int.bmod_add_bmod]

/-- Division towards zero, of a number that is not positive or a multiple only, does not
round down. -/
theorem tdiv_rounds (n : Int) :
    (n - 1000 < n.tdiv 1000 * 1000 ∧ n.tdiv 1000 * 1000 < n + 1000) ∧
      (n ≤ n.tdiv 1000 * 1000 ↔ n ≤ 0 ∨ 1000 ∣ n) := by
  rcases Int.le_total 0 n with nonneg | nonpos
  · rw [Int.tdiv_eq_ediv_of_nonneg nonneg]
    omega
  · have neg : n.tdiv 1000 = -(-n / 1000) := by
      rw [← Int.tdiv_eq_ediv_of_nonneg (by omega), Int.neg_tdiv, Int.neg_neg]
    rw [neg]
    omega

theorem Timeval.corresponds_iff (tv : Timeval) (now : Int) :
    Corresponds now (toInt64 tv.milliseconds) (some tv) ↔ tv.Exact now := by
  rw [Corresponds, Exact, Int.add_comm now, toInt64_toInt64_add, Int.add_comm _ now]
  by_cases zero : tv.IsZero
  · have untimed : nativeTimeout (some tv) = none := by simp [nativeTimeout, zero]
    simp only [untimed]
    constructor
    · intro none_set
      rw [milliseconds, zero.1, zero.2] at none_set
      exact absurd none_set (by decide)
    · intro exact
      exact absurd zero exact.1
  · have timed : nativeTimeout (some tv) = some tv := by simp [nativeTimeout, zero]
    simp only [timed]
    rw [and_iff_right zero]
    obtain ⟨small, up⟩ := tdiv_rounds tv.tv_usec
    rw [microseconds, toInt64, toInt64]
    generalize whole : tv.milliseconds = ms
    rw [milliseconds] at whole
    generalize tv.tv_usec.tdiv 1000 = part at small up whole
    rw [Int.bmod_def, Int.bmod_def]
    omega

/-- A timer is set if there is a timeout, and expires when that has passed. -/
theorem armed_of_addTimer {W : Type} {call : Call W} {now : Int} {s s' : System W} {c addr : Nat}
    (blocked : (s.coroutines c).pc = .blocked call) (ran : s.addTimer c addr now = some s') :
    call.timeout = -1 ∧ (s'.coroutines c).pc = .armed call none ∨
      call.timeout ≠ -1 ∧ ∃ timer, (s'.coroutines c).pc = .armed call (some timer) ∧
        (s'.timers.heap timer).expire = toInt64 (now + call.timeout) := by
  rw [System.addTimer, blocked] at ran
  dsimp only at ran
  split at ran
  · rename_i forever
    cases ran
    exact Or.inl ⟨forever, by rw [System.setPc, System.coroutines_setCoroutine_self]⟩
  · rename_i timed
    cases ran
    refine Or.inr ⟨timed, s.timers.allocated, ?_, ?_⟩
    · rw [System.setPc, System.coroutines_setCoroutine_self]
      rfl
    · change ((s.timers.addTimer addr now call.timeout _ false).2.heap s.timers.allocated).expire = _
      rw [TimeManager.heap_addTimer_eq, Function.update_self]

/-- A coroutine that has found that it has to wait. -/
def blockedOn {W : Type} (call : Call W) : System W :=
  { System.init (fun _ => none) 0 with coroutines := fun _ => { pc := .blocked call } }

theorem addTimer_isSome {W : Type} {call : Call W} {s : System W} {c : Nat}
    (blocked : (s.coroutines c).pc = .blocked call) (addr : Nat) (now : Int) :
    ∃ s', s.addTimer c addr now = some s' := by
  rw [System.addTimer, blocked]
  dsimp only
  split
  · exact ⟨_, rfl⟩
  · exact ⟨_, rfl⟩

/-- What a call waits for is what it takes for its timeout. -/
theorem waitsFor_iff {W : Type} (call : Call W) (now : Int) (accepted : Option Timeval) :
    WaitsFor call now accepted ↔ Corresponds now call.timeout accepted := by
  have blocked : ((blockedOn call).coroutines 0).pc = .blocked call := rfl
  obtain ⟨s₀, ran₀⟩ := addTimer_isSome blocked 0 now
  rw [WaitsFor, Corresponds]
  cases nativeTimeout accepted with
  | none =>
      constructor
      · intro waits
        rcases armed_of_addTimer blocked ran₀ with ⟨forever, -⟩ | ⟨-, timer, armed, -⟩
        · exact forever
        · cases armed.symm.trans (waits _ _ _ _ blocked ran₀)
      · intro forever s s' c addr is ran
        rcases armed_of_addTimer is ran with ⟨-, armed⟩ | ⟨timed, -⟩
        · exact armed
        · exact absurd forever timed
  | some tv =>
      constructor
      · intro waits
        obtain ⟨timer, armed, late⟩ := waits _ _ _ _ blocked ran₀
        rcases armed_of_addTimer blocked ran₀ with ⟨-, unarmed⟩ | ⟨timed, timer', armed', expire⟩
        · cases armed.symm.trans unarmed
        · cases armed.symm.trans armed'
          rw [expire] at late
          exact ⟨timed, late⟩
      · intro ⟨timed, late⟩ s s' c addr is ran
        rcases armed_of_addTimer is ran with ⟨forever, -⟩ | ⟨-, timer, armed, expire⟩
        · exact absurd forever timed
        · exact ⟨timer, armed, by rw [expire]; exact late⟩

namespace SocketTimeouts

variable {s t : SocketTimeouts} {fd : Nat} {ctx : FdContext}

/-- The record is written whatever the kernel answers. -/
theorem setsockopt_spec (managed : s.descriptors.Managed fd false true)
    (found : s.context fd = some ctx) (call : TimeoutCall) :
    (s.setsockopt fd call).context fd =
        some (ctx.setTimeout call.type (toInt64 call.tv.milliseconds)) ∧
      (s.setsockopt fd call).accepted =
        if call.ok then Function.update s.accepted call.type (some call.tv) else s.accepted := by
  obtain ⟨flags, opened, -⟩ := managed.kernel
  have recorded : (s.descriptors.fdmanager.modify fd
      (·.setTimeout call.type (toInt64 call.tv.milliseconds))).getFdContext fd =
        some (ctx.setTimeout call.type (toInt64 call.tv.milliseconds)) := by
    have was : s.descriptors.fdmanager.getFdContext fd = some ctx := found
    rw [FdManager.getFdContext_modify, if_pos rfl, was]
    rfl
  rw [Timeval.milliseconds, ← toInt64_toInt64_add] at recorded ⊢
  rw [context, setsockopt, Descriptors.setsockopt]
  cases call.ok with
  | false =>
      simp only [Descriptors.origin, opened]
      exact ⟨recorded, rfl⟩
  | true =>
      simp only [Descriptors.origin, opened]
      exact ⟨recorded, rfl⟩

theorem managed_setsockopt (managed : s.descriptors.Managed fd false true) (call : TimeoutCall) :
    (s.setsockopt fd call).descriptors.Managed fd false true := by
  have kept : (s.setsockopt fd call).descriptors.Managed fd false
      (if call.ok then true else true) := managed.call
    (.setsockopt true (.timeout call.type call.tv.tv_sec call.tv.tv_usec)) call.ok
  rwa [ite_self] at kept

/-- What `do_io` uses is what is recorded. -/
theorem native_iff (managed : s.descriptors.Managed fd false true)
    (found : s.context fd = some ctx) {kind : CallKind} (io : kind.IsIo) (now : Int) :
    s.Native fd kind now ↔ Corresponds now (ctx.getTimeout kind.type) (s.accepted kind.type) := by
  obtain ⟨ctx', found', socket, -, opened, blocking⟩ := managed.context
  have same : ctx' = ctx := Option.some.inj (found'.symm.trans found)
  subst same
  constructor
  · intro native
    obtain ⟨call, begun, waits⟩ := native Unit () none { pc := .user }
    rw [found, System.begin_blocking () io fd socket blocking opened] at begun
    cases begun
    exact (waitsFor_iff _ now _).mp waits
  · intro corresponds W w file co
    rw [found, System.begin_blocking w io fd socket blocking opened]
    exact ⟨_, rfl, (waitsFor_iff _ now _).mpr corresponds⟩

/-- What the context records for a direction. -/
def record : Option Timeval → Int
  | none => -1
  | some tv => toInt64 tv.milliseconds

/-- The context records what was accepted last. -/
structure Recorded (s : SocketTimeouts) (fd : Nat) : Prop where
  managed : s.descriptors.Managed fd false true
  timeout : ∀ ctx ∈ s.context fd, ∀ type, ctx.getTimeout type = record (s.accepted type)

/-- A use of the record. -/
theorem Recorded.native_iff (recorded : s.Recorded fd) {kind : CallKind} (io : kind.IsIo)
    (now : Int) : s.Native fd kind now ↔ ∀ tv ∈ s.accepted kind.type, tv.Exact now := by
  obtain ⟨ctx, found, -⟩ := recorded.managed.context
  rw [SocketTimeouts.native_iff recorded.managed found io, recorded.timeout ctx found]
  cases s.accepted kind.type with
  | none => exact iff_of_true rfl (by simp)
  | some tv =>
      rw [record, tv.corresponds_iff]
      simp

/-- A new record that is accepted, or rejected and the same. -/
theorem Recorded.setsockopt (recorded : s.Recorded fd) (call : TimeoutCall)
    (same : call.ok = false → (s.setsockopt fd call).context fd = s.context fd) :
    (s.setsockopt fd call).Recorded fd := by
  obtain ⟨ctx, found, -⟩ := recorded.managed.context
  obtain ⟨now, accepted⟩ := setsockopt_spec recorded.managed found call
  refine ⟨managed_setsockopt recorded.managed call, fun ctx' found' type => ?_⟩
  rw [accepted]
  cases ok : call.ok with
  | true =>
      cases now.symm.trans found'
      rw [if_pos rfl, FdContext.getTimeout_setTimeout]
      by_cases here : call.type = type
      · rw [if_pos here, ← here, Function.update_self, record]
      · rw [if_neg here, Function.update_of_ne (Ne.symm here)]
        exact recorded.timeout ctx found type
  | false =>
      rw [same ok] at found'
      exact recorded.timeout ctx' found' type

/-- A rejected call leaves the record exactly when it asks for it. -/
theorem Recorded.rejected_iff (recorded : s.Recorded fd) (call : TimeoutCall) :
    (s.setsockopt fd call).context fd = s.context fd ↔
      ∀ ctx ∈ s.context fd, toInt64 call.tv.milliseconds = ctx.getTimeout call.type := by
  obtain ⟨ctx, found, -⟩ := recorded.managed.context
  have was : s.context fd = some ctx := found
  rw [(setsockopt_spec recorded.managed found call).1, was]
  simp only [Option.mem_some_iff, forall_eq', Option.some.injEq]
  exact ctx.setTimeout_eq_iff call.type _

/-- A call that does what it does on a blocking socket keeps the record. -/
theorem Recorded.step (recorded : s.Recorded fd) {call : TimedCall} (step : Step fd s call t)
    (native : AsNative fd s call t) : t.Recorded fd := by
  cases call with
  | setsockopt call =>
      cases step
      exact recorded.setsockopt call native
  | io kind now =>
      obtain ⟨-, rfl⟩ := step
      exact recorded

/-- When one call does what it does on a blocking socket. -/
theorem Recorded.asNative_iff (recorded : s.Recorded fd) {call : TimedCall}
    (step : Step fd s call t) : AsNative fd s call t ↔ s.Agrees fd call := by
  cases call with
  | setsockopt call =>
      cases step
      exact imp_congr_right fun _ => recorded.rejected_iff call
  | io kind now =>
      obtain ⟨io, rfl⟩ := step
      exact recorded.native_iff io now

/-- A new socket has no timeouts. -/
theorem recorded_of_create {d d' : Descriptors} {how : Creation}
    (made : d.create how fd = some d') :
    (⟨d', fun _ => none⟩ : SocketTimeouts).Recorded fd := by
  have managed := Descriptors.managed_of_create made
  refine ⟨managed, fun ctx found type => ?_⟩
  unfold Descriptors.create at made
  split at made
  · obtain ⟨fdmanager, added, done⟩ := Option.bind_eq_some_iff.mp made
    cases done
    cases (FdManager.getFdContext_addFd added).1.symm.trans found
    cases type <;> rfl
  · cases made

/-- **When the timeouts of a socket are those it would have natively.** For a managed socket
and every sequence of calls that set its timeouts, accepted or not, and of calls of `do_io`:
no rejected call changes the context, and every call of `do_io` that has to wait does so
for the last accepted timeout of its direction, all along, exactly when each rejected timeout is
that which is recorded already and each that is waited for is exact. -/
theorem sockopt_timeouts_native_iff {d d' : Descriptors} {how : Creation}
    (made : d.create how fd = some d') (calls : List TimedCall) :
    (∀ before call t u, before ++ [call] <+: calls →
        Run (Step fd) ⟨d', fun _ => none⟩ before t → Step fd t call u → AsNative fd t call u) ↔
      ∀ before call t u, before ++ [call] <+: calls →
        Run (Step fd) ⟨d', fun _ => none⟩ before t → Step fd t call u → t.Agrees fd call := by
  exact Run.forall_steps_iff (I := fun s => s.Recorded fd) (recorded_of_create made)
    (fun recorded step => recorded.step step) (fun recorded step => recorded.asNative_iff step)
    calls

/-- A table with room for descriptors up to 5, none of them open. -/
def noDescriptors : Descriptors where
  fdmanager := { fdcontexts := List.replicate 6 none }
  flags _ := none

/-- Socket 5, just made. -/
def newSocket : Descriptors := (noDescriptors.create (.socket 0) 5).getD noDescriptors

theorem newSocket_made : noDescriptors.create (.socket 0) 5 = some newSocket := rfl

/-- Timeouts of two seconds for reads and of 1.5 seconds for writes, both accepted, and a call
of either kind. -/
def wholeTimeouts : List TimedCall :=
  [.setsockopt ⟨.EPOLLIN, ⟨2, 0⟩, true⟩, .setsockopt ⟨.EPOLLOUT, ⟨1, 500000⟩, true⟩,
    .io .read 1600000000000, .io .write 1600000000000]

/-- A timeout that is accepted has been asked for. -/
theorem accepted_of_run {d : Descriptors} {calls : List TimedCall}
    (run : Run (Step fd) ⟨d, fun _ => none⟩ calls t) :
    ∀ type tv, t.accepted type = some tv → ∃ call, .setsockopt call ∈ calls ∧ call.tv = tv := by
  refine run.historyInvariant (I := fun calls t => ∀ type tv, t.accepted type = some tv →
    ∃ call, .setsockopt call ∈ calls ∧ call.tv = tv) (by rintro _ _ ⟨⟩) ?_
  intro calls s call t before step type tv accepted
  have earlier : s.accepted type = some tv →
      ∃ call', .setsockopt call' ∈ calls ++ [call] ∧ call'.tv = tv := by
    intro was
    obtain ⟨call', member, asked⟩ := before type tv was
    exact ⟨call', List.mem_append_left _ member, asked⟩
  cases call with
  | setsockopt call =>
      cases step
      rw [setsockopt] at accepted
      dsimp only at accepted
      split at accepted
      · rw [Function.update_apply] at accepted
        split at accepted
        · exact ⟨call, List.mem_append_right _ List.mem_cons_self, Option.some.inj accepted⟩
        · exact earlier accepted
      · exact earlier accepted
  | io kind now =>
      obtain ⟨-, rfl⟩ := step
      exact earlier accepted

theorem wholeTimeouts_native : ∃ t u,
    Run (Step 5) ⟨newSocket, fun _ => none⟩ (wholeTimeouts.take 3) t ∧
      Step 5 t (.io .write 1600000000000) u ∧ AsNative 5 t (.io .write 1600000000000) u := by
  have waits : ∀ (t : SocketTimeouts) (kind : CallKind) (now : Int), kind.IsIo →
      Step 5 t (.io kind now) t := fun _ _ _ io => ⟨io, rfl⟩
  have set : Run (Step 5) ⟨newSocket, fun _ => none⟩ (wholeTimeouts.take 2) _ :=
    (Run.single rfl).snoc rfl
  have run := set.snoc (waits _ .read 1600000000000 nofun)
  refine ⟨_, _, run, waits _ .write 1600000000000 nofun, ?_⟩
  refine (sockopt_timeouts_native_iff newSocket_made wholeTimeouts).mpr ?_ _ _ _ _
    (List.prefix_refl _) run (waits _ .write 1600000000000 nofun)
  intro before call t u within run _
  have member : call ∈ wholeTimeouts :=
    within.subset (List.mem_append_right _ List.mem_cons_self)
  have accepted : ∀ type tv, t.accepted type = some tv → tv.Exact 1600000000000 := by
    intro type tv is
    obtain ⟨asked, there, rfl⟩ := accepted_of_run run type tv is
    have among := within.subset (List.mem_append_left _ there)
    simp only [wholeTimeouts, List.mem_cons, List.not_mem_nil, or_false, reduceCtorEq,
      TimedCall.setsockopt.injEq] at among
    rcases among with rfl | rfl
    · decide
    · decide
  simp only [wholeTimeouts, List.mem_cons, List.not_mem_nil, or_false] at member
  rcases member with rfl | rfl | rfl | rfl
  · exact nofun
  · exact nofun
  · exact fun tv is => accepted _ tv is
  · exact fun tv is => accepted _ tv is

/-- A timeout that is taken for none, the largest one, and one that the kernel rejects. -/
theorem sockopt_timeouts_differ :
    (∃ t, Run (Step 5) ⟨newSocket, fun _ => none⟩ [.setsockopt ⟨.EPOLLIN, ⟨0, 0⟩, true⟩] t ∧
        t.accepted .EPOLLIN = some ⟨0, 0⟩ ∧ ∀ now, ¬t.Native 5 .read now) ∧
      (∃ t, Run (Step 5) ⟨newSocket, fun _ => none⟩
          [.setsockopt ⟨.EPOLLIN, ⟨9223372036854775, 0⟩, true⟩] t ∧
        t.accepted .EPOLLIN = some ⟨9223372036854775, 0⟩ ∧ ¬t.Native 5 .read 1600000000000) ∧
      ∃ u, Step 5 ⟨newSocket, fun _ => none⟩ (.setsockopt ⟨.EPOLLIN, ⟨0, 1000000⟩, false⟩) u ∧
        u.accepted .EPOLLIN = none ∧
        u.context 5 ≠ (⟨newSocket, fun _ => none⟩ : SocketTimeouts).context 5 := by
  have io : CallKind.read.IsIo := nofun
  have uses : ∀ tv, (setsockopt 5 ⟨newSocket, fun _ => none⟩ ⟨.EPOLLIN, tv, true⟩).Recorded 5 :=
    fun tv => (recorded_of_create newSocket_made).setsockopt _ nofun
  refine ⟨⟨_, Run.single rfl, rfl, fun now native => ?_⟩, ⟨_, Run.single rfl, rfl, fun native => ?_⟩,
    ⟨_, rfl, rfl, by decide⟩⟩
  · exact (((uses _).native_iff io now).mp native _ rfl).1 (by decide)
  · exact absurd (((uses _).native_iff io _).mp native _ rfl) (by decide)

end SocketTimeouts

end Reyao
