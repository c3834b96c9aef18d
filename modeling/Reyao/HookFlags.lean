import Reyao.Hook

/-!
# The blocking mode of sockets (`hook.cc`, `fdmanager.cc`)

A managed socket has `O_NONBLOCK` set in the kernel, so that no original function blocks
its worker, and `isUserNonblock_` of its context stands for the flag the user sees.
`fcntl` masks what the user sets and what he reads. `ioctl` records the mode as well,
but hands the request on as it is; and `init` does not look at the mode the socket was
made with.
-/

namespace Reyao

/-- `O_NONBLOCK`, and `SOCK_NONBLOCK` with it. -/
def O_NONBLOCK : BitVec 32 := 0x800#32

def O_RDWR : BitVec 32 := 0x2#32

/-- The flags that `F_SETFL` changes: `O_APPEND`, `O_NONBLOCK`, `O_ASYNC`, `O_DIRECT` and
`O_NOATIME`. -/
def SETFL_MASK : BitVec 32 := 0x46C00#32

/-- Whether a word of flags has `O_NONBLOCK`. -/
def nonblock (flags : BitVec 32) : Bool := flags &&& O_NONBLOCK != 0#32

inductive FcntlCmd : Type
  | F_SETFL (arg : BitVec 32)
  | F_GETFL
  deriving DecidableEq

/-- The requests of `ioctl`; `FIONBIO` comes with the `int` its argument points to. -/
inductive IoctlRequest : Type
  | fionbio (value : BitVec 32)
  | other
  deriving DecidableEq

/-- The options of `setsockopt`: `SO_RCVTIMEO` and `SO_SNDTIMEO` at `SOL_SOCKET`, with
their `timeval`, and all others. -/
inductive SocketOption : Type
  | timeout (type : EventType) (tv_sec tv_usec : Int)
  | other
  deriving DecidableEq

/-- The calls on a socket that may touch its mode. -/
inductive ModeCall : Type
  | fcntl (cmd : FcntlCmd)
  | ioctl (request : IoctlRequest)
  | setsockopt (hookEnable : Bool) (option : SocketOption)
  deriving DecidableEq

section

variable (flags : BitVec 32)

theorem nonblock_eq_getLsbD : nonblock flags = flags.getLsbD 11 := by
  rw [nonblock, show O_NONBLOCK = BitVec.twoPow 32 11 by decide, BitVec.and_twoPow]
  cases flags.getLsbD 11 <;> decide

@[simp] theorem nonblock_or : nonblock (flags ||| O_NONBLOCK) = true := by
  rw [nonblock_eq_getLsbD, BitVec.getLsbD_or, show O_NONBLOCK.getLsbD 11 = true by decide,
    Bool.or_true]

@[simp] theorem nonblock_and_not : nonblock (flags &&& ~~~O_NONBLOCK) = false := by
  rw [nonblock_eq_getLsbD, BitVec.getLsbD_and, show (~~~O_NONBLOCK).getLsbD 11 = false by decide,
    Bool.and_false]

end

/-! ## The kernel -/

/-- What a call that succeeds does to the flags of an open socket. -/
def ModeCall.native : ModeCall → BitVec 32 → BitVec 32
  | .fcntl (.F_SETFL arg), flags => flags &&& ~~~SETFL_MASK ||| arg &&& SETFL_MASK
  | .ioctl (.fionbio value), flags =>
      if value = 0#32 then flags &&& ~~~O_NONBLOCK else flags ||| O_NONBLOCK
  | _, flags => flags

/-- The calls that set the mode. -/
def ModeCall.SetsMode : ModeCall → Prop
  | .fcntl (.F_SETFL _) => True
  | .ioctl (.fionbio _) => True
  | _ => False

theorem nonblock_native_setfl (arg flags : BitVec 32) :
    nonblock ((ModeCall.fcntl (.F_SETFL arg)).native flags) = nonblock arg := by
  rw [ModeCall.native, nonblock_eq_getLsbD, nonblock_eq_getLsbD, BitVec.getLsbD_or,
    BitVec.getLsbD_and, BitVec.getLsbD_and, show (~~~SETFL_MASK).getLsbD 11 = false by decide,
    show SETFL_MASK.getLsbD 11 = true by decide, Bool.and_false, Bool.and_true, Bool.false_or]

theorem nonblock_native_ioctl (value flags : BitVec 32) :
    nonblock ((ModeCall.ioctl (.fionbio value)).native flags) = (value != 0#32) := by
  rw [ModeCall.native]
  split
  · rename_i zero
    rw [nonblock_and_not, zero]
    rfl
  · rename_i other
    rw [nonblock_or, bne_iff_ne.mpr other]

/-- What it returns. -/
def ModeCall.answer : ModeCall → BitVec 32 → BitVec 32
  | .fcntl .F_GETFL, flags => flags
  | _, _ => 0#32

/-- How a socket is made. -/
inductive Creation : Type
  | socket (type : BitVec 32)
  | accept
  deriving DecidableEq

/-- The flags of a new socket. One that `accept` returns has none of the flags of the
socket that listens. -/
def Creation.flags : Creation → BitVec 32
  | .socket type => O_RDWR ||| type &&& O_NONBLOCK
  | .accept => O_RDWR

/-- The flags of a socket that nobody hooks. -/
def Creation.native (how : Creation) (calls : List ModeCall) : BitVec 32 :=
  calls.foldl (fun flags call => call.native flags) how.flags

/-! ## The hooked calls -/

/-- `FdContext::init` on a descriptor that `fstat` finds to be a socket or not: the
context and the flags it leaves. -/
def FdContext.init (isSock : Bool) (flag : BitVec 32) : FdContext × BitVec 32 :=
  if isSock then
    ({ isSock := true, isSysNonblock := true },
      if flag &&& O_NONBLOCK = 0#32 then
        (ModeCall.fcntl (.F_SETFL (flag ||| O_NONBLOCK))).native flag
      else flag)
  else ({ isSock := false, isSysNonblock := false }, flag)

/-- The contexts, and the status flags of the descriptors that are open. -/
structure Descriptors : Type where
  fdmanager : FdManager
  flags : Nat → Option (BitVec 32)

namespace Descriptors

/-- An original function, which succeeds on an open descriptor if `ok`. -/
def origin (fd : Nat) (call : ModeCall) (ok : Bool) (s : Descriptors) : BitVec 32 × Descriptors :=
  match s.flags fd, ok with
  | some flags, true =>
      (call.answer flags, { s with flags := Function.update s.flags fd (some (call.native flags)) })
  | _, _ => (-1, s)

def setUserNonBlock (fd : Nat) (flag : Bool) (s : Descriptors) : Descriptors :=
  { s with fdmanager := s.fdmanager.modify fd ({ · with isUserNonblock := flag }) }

/-- The test of `fcntl` and `ioctl`: the context, if there is one of an open socket. -/
def socketContext (fd : Nat) (s : Descriptors) : Option FdContext :=
  (s.fdmanager.getFdContext fd).filter fun ctx => !ctx.close && ctx.isSock

/-- `fcntl(fd, cmd, arg)`. -/
def fcntl (fd : Nat) (cmd : FcntlCmd) (ok : Bool) (s : Descriptors) : BitVec 32 × Descriptors :=
  match cmd, s.socketContext fd with
  | .F_SETFL arg, none => s.origin fd (.fcntl (.F_SETFL arg)) ok
  | .F_SETFL arg, some ctx =>
      let s := s.setUserNonBlock fd (nonblock arg)
      let arg := if ctx.isSysNonblock then arg ||| O_NONBLOCK else arg &&& ~~~O_NONBLOCK
      s.origin fd (.fcntl (.F_SETFL arg)) ok
  | .F_GETFL, none => s.origin fd (.fcntl .F_GETFL) ok
  | .F_GETFL, some ctx =>
      let (arg, s) := s.origin fd (.fcntl .F_GETFL) ok
      (if ctx.isUserNonblock then arg ||| O_NONBLOCK else arg &&& ~~~O_NONBLOCK, s)

/-- `ioctl(fd, request, arg)`. -/
def ioctl (fd : Nat) (request : IoctlRequest) (ok : Bool) (s : Descriptors) :
    BitVec 32 × Descriptors :=
  match request, s.socketContext fd with
  | .fionbio value, some _ =>
      (s.setUserNonBlock fd (value != 0#32)).origin fd (.ioctl (.fionbio value)) ok
  | request, _ => s.origin fd (.ioctl request) ok

/-- `setsockopt` on a thread with or without hooks. -/
def setsockopt (fd : Nat) (hookEnable : Bool) (option : SocketOption) (ok : Bool)
    (s : Descriptors) : BitVec 32 × Descriptors :=
  match hookEnable, option with
  | true, .timeout type tv_sec tv_usec =>
      let timeout := toInt64 (toInt64 (tv_sec * 1000) + tv_usec.tdiv 1000)
      { s with fdmanager := s.fdmanager.modify fd (·.setTimeout type timeout) }.origin fd
        (.setsockopt true option) ok
  | _, _ => s.origin fd (.setsockopt hookEnable option) ok

/-- A hooked call and its outcome in the kernel. -/
def call (fd : Nat) (s : Descriptors) : ModeCall × Bool → Descriptors
  | (.fcntl cmd, ok) => (s.fcntl fd cmd ok).2
  | (.ioctl request, ok) => (s.ioctl fd request ok).2
  | (.setsockopt hookEnable option, ok) => (s.setsockopt fd hookEnable option ok).2

/-- Calls on one descriptor, one after the other. -/
def calls (fd : Nat) (s : Descriptors) (calls : List (ModeCall × Bool)) : Descriptors :=
  calls.foldl (Descriptors.call fd) s

/-- A hooked `socket` or `accept` that returns `fd`: the kernel makes the socket, and
`addFd` its context. -/
def create (how : Creation) (fd : Nat) (s : Descriptors) : Option Descriptors :=
  if s.flags fd = none then do
    let (ctx, flags) := FdContext.init true how.flags
    let fdmanager ← s.fdmanager.addFd fd ctx
    return { fdmanager := fdmanager, flags := Function.update s.flags fd (some flags) }
  else none

/-- The descriptor is open and has `O_NONBLOCK` in the kernel: an original function on
it returns at once. -/
def Nonblocking (s : Descriptors) (fd : Nat) : Prop := (s.flags fd).any nonblock = true

/-- What the user observes is what he would observe of a socket with these flags: the
bit that `F_GETFL` reports, and whether `do_io` and `connect_with_timeout` make the only
call of the original function. -/
structure Simulates (s : Descriptors) (fd : Nat) (flags : BitVec 32) : Prop where
  reported : nonblock (s.fcntl fd .F_GETFL true).1 = nonblock flags
  passes : ∀ {W : Type} (w : W) (kind : CallKind) (file : Option File) (co : Coroutine W),
    (∃ call, (System.begin w kind fd (s.fdmanager.getFdContext fd) file co).pc = .direct call) ↔
      nonblock flags = true

/-- The descriptor is a managed socket: its context shows the user the mode `user`, and
the kernel keeps the mode `sys`. -/
structure Managed (s : Descriptors) (fd : Nat) (user sys : Bool) : Prop where
  context : ∃ ctx, s.fdmanager.getFdContext fd = some ctx ∧ ctx.isSock = true ∧
    ctx.isSysNonblock = true ∧ ctx.close = false ∧ ctx.isUserNonblock = user
  kernel : ∃ flags, s.flags fd = some flags ∧ nonblock flags = sys

variable {s t : Descriptors} {fd : Nat} {user sys : Bool}

theorem Managed.nonblocking_iff (managed : s.Managed fd user sys) :
    s.Nonblocking fd ↔ sys = true := by
  obtain ⟨flags, opened, mode⟩ := managed.kernel
  rw [Nonblocking, opened, Option.any_some, mode]

theorem Managed.socketContext (managed : s.Managed fd user sys) :
    ∃ ctx, s.socketContext fd = some ctx ∧ ctx.isSysNonblock = true ∧
      ctx.isUserNonblock = user := by
  obtain ⟨ctx, found, socket, sysNonblock, opened, shown⟩ := managed.context
  refine ⟨ctx, ?_, sysNonblock, shown⟩
  rw [Descriptors.socketContext, found, Option.filter_some, opened, socket]
  rfl

/-- A change of the context that leaves the socket a managed one. -/
theorem Managed.modify (managed : s.Managed fd user sys) {f : FdContext → FdContext}
    {user' : Bool} (keeps : ∀ ctx, (f ctx).isSock = ctx.isSock ∧
      (f ctx).isSysNonblock = ctx.isSysNonblock ∧ (f ctx).close = ctx.close)
    (shows : ∀ ctx, ctx.isUserNonblock = user → (f ctx).isUserNonblock = user') :
    ({ s with fdmanager := s.fdmanager.modify fd f } : Descriptors).Managed fd user' sys := by
  obtain ⟨ctx, found, socket, sysNonblock, opened, shown⟩ := managed.context
  obtain ⟨sameSock, sameSys, sameClose⟩ := keeps ctx
  refine ⟨⟨f ctx, ?_, sameSock.trans socket, sameSys.trans sysNonblock, sameClose.trans opened,
    shows ctx shown⟩, managed.kernel⟩
  rw [FdManager.getFdContext_modify, if_pos rfl, found]
  rfl

theorem Managed.setUserNonBlock (managed : s.Managed fd user sys) (flag : Bool) :
    (s.setUserNonBlock fd flag).Managed fd flag sys :=
  managed.modify (fun _ => ⟨rfl, rfl, rfl⟩) fun _ _ => rfl

/-- An original function on a managed socket. -/
theorem Managed.origin (managed : s.Managed fd user sys) (call : ModeCall) (ok : Bool)
    {sys' : Bool} (sets : ∀ flags, nonblock flags = sys → nonblock (call.native flags) = sys') :
    (s.origin fd call ok).2.Managed fd user (if ok then sys' else sys) := by
  obtain ⟨flags, opened, mode⟩ := managed.kernel
  cases ok with
  | false =>
      simp only [Descriptors.origin, opened]
      exact managed
  | true =>
      simp only [Descriptors.origin, opened]
      exact ⟨managed.context, ⟨_, Function.update_self .., sets flags mode⟩⟩

end Descriptors

/-- The mode that the context of a managed socket shows after a call. -/
def ModeCall.userAfter : ModeCall → Bool → Bool
  | .fcntl (.F_SETFL arg), _ => nonblock arg
  | .ioctl (.fionbio value), _ => value != 0#32
  | _, user => user

/-- The mode that the kernel keeps after a hooked call that succeeds. -/
def ModeCall.sysAfter : ModeCall → Bool → Bool
  | .fcntl (.F_SETFL _), _ => true
  | .ioctl (.fionbio value), _ => value != 0#32
  | _, sys => sys

namespace Descriptors

variable {s t : Descriptors} {fd : Nat} {user sys : Bool}

/-- What a hooked call does to a managed socket. -/
theorem Managed.call (managed : s.Managed fd user sys) (call : ModeCall) (ok : Bool) :
    (s.call fd (call, ok)).Managed fd (call.userAfter user)
      (if ok then call.sysAfter sys else sys) := by
  obtain ⟨ctx, found, sysNonblock, -⟩ := managed.socketContext
  cases call with
  | fcntl cmd =>
      cases cmd with
      | F_SETFL arg =>
          simp only [Descriptors.call, fcntl, found, sysNonblock, if_true]
          refine (managed.setUserNonBlock (nonblock arg)).origin _ ok fun flags _ => ?_
          rw [nonblock_native_setfl, nonblock_or]
          rfl
      | F_GETFL =>
          simp only [Descriptors.call, fcntl, found]
          exact managed.origin _ ok fun _ same => same
  | ioctl request =>
      cases request with
      | fionbio value =>
          simp only [Descriptors.call, ioctl, found]
          refine (managed.setUserNonBlock (value != 0#32)).origin _ ok fun flags _ => ?_
          exact nonblock_native_ioctl value flags
      | other => exact managed.origin _ ok fun _ same => same
  | setsockopt hookEnable option =>
      have passed : (s.origin fd (.setsockopt hookEnable option) ok).2.Managed fd user
          (if ok then sys else sys) := managed.origin _ ok fun _ same => same
      cases hookEnable with
      | false => exact passed
      | true =>
          cases option with
          | timeout type tv_sec tv_usec =>
              refine Managed.origin (managed.modify (fun ctx => ?_) fun ctx shown => ?_) _ ok
                fun _ same => same
              · cases type <;> exact ⟨rfl, rfl, rfl⟩
              · cases type <;> exact shown
          | other => exact passed

theorem managed_of_create {how : Creation} (made : s.create how fd = some t) :
    t.Managed fd false true := by
  unfold create at made
  split at made
  · obtain ⟨fdmanager, added, done⟩ := Option.bind_eq_some_iff.mp made
    cases done
    refine ⟨⟨_, (FdManager.getFdContext_addFd added).1, rfl, rfl, rfl, rfl⟩,
      ⟨_, Function.update_self .., ?_⟩⟩
    split
    · rw [nonblock_native_setfl, nonblock_or]
    · rename_i set
      exact bne_iff_ne.mpr set
  · cases made

/-! ## The mode in the kernel -/

theorem Managed.nonblocking_calls_iff (managed : s.Managed fd user true)
    (calls : List (ModeCall × Bool)) :
    (∀ before, before <+: calls → (s.calls fd before).Nonblocking fd) ↔
      (.ioctl (.fionbio 0#32), true) ∉ calls := by
  induction calls generalizing s user with
  | nil =>
      constructor
      · intro _ member
        cases member
      · intro _ before within
        rw [List.prefix_nil.mp within]
        exact managed.nonblocking_iff.mpr rfl
  | cons first rest ih =>
      obtain ⟨call, ok⟩ := first
      have next := managed.call call ok
      have split : (∀ before, before <+: (call, ok) :: rest → (s.calls fd before).Nonblocking fd) ↔
          ∀ before, before <+: rest →
            ((s.call fd (call, ok)).calls fd before).Nonblocking fd := by
        constructor
        · intro all before within
          exact all ((call, ok) :: before) (List.cons_prefix_cons.mpr ⟨rfl, within⟩)
        · intro all before within
          rcases List.prefix_cons_iff.mp within with rfl | ⟨after, rfl, inside⟩
          · exact managed.nonblocking_iff.mpr rfl
          · exact all after inside
      rw [split, List.mem_cons, not_or]
      by_cases clears : (call, ok) = (.ioctl (.fionbio 0#32), true)
      · cases clears
        constructor
        · intro all
          have now := next.nonblocking_iff.mp (all [] (List.nil_prefix))
          cases now
        · intro absent
          exact absurd rfl absent.1
      · have kept : (if ok then call.sysAfter true else true) = true := by
          cases ok with
          | false => rfl
          | true =>
              cases call with
              | fcntl cmd => cases cmd <;> rfl
              | ioctl request =>
                  cases request with
                  | fionbio value =>
                      refine bne_iff_ne.mpr fun zero => clears ?_
                      rw [zero]
                  | other => rfl
              | setsockopt hookEnable option => rfl
        rw [kept] at next
        rw [ih next]
        exact ⟨fun absent => ⟨fun same => clears same.symm, absent⟩, And.right⟩

/-- **When a managed socket stays nonblocking.** `O_NONBLOCK` is set in every state that a
sequence of hooked calls on the socket goes through if and only if no `ioctl(FIONBIO)`
with the value 0 among them succeeds. -/
theorem stays_nonblocking_iff {how : Creation} (made : s.create how fd = some t)
    (calls : List (ModeCall × Bool)) :
    (∀ before, before <+: calls → (t.calls fd before).Nonblocking fd) ↔
      (.ioctl (.fionbio 0#32), true) ∉ calls :=
  (managed_of_create made).nonblocking_calls_iff calls

/-- A process with three open descriptors and no context, before its first socket. -/
def fresh : Descriptors where
  fdmanager := { fdcontexts := List.replicate 4 none }
  flags fd := if fd < 3 then some O_RDWR else none

/-- The process with one socket, which a hooked `socket` has returned. -/
def withSocket (type : BitVec 32) : Descriptors where
  fdmanager := { fdcontexts := [none, none, none, some { isSock := true }] }
  flags := Function.update fresh.flags 3 (some (FdContext.init true (Creation.socket type).flags).2)

theorem create_socket (type : BitVec 32) :
    fresh.create (.socket type) 3 = some (withSocket type) := rfl

theorem cleared_by_fcntl_only_for_user :
    fresh.create (.socket 1#32) 3 = some (withSocket 1#32) ∧
    ∀ before, before <+: [(.fcntl (.F_SETFL O_RDWR), true), (.ioctl (.fionbio 1#32), true)] →
      ((withSocket 1#32).calls 3 before).Nonblocking 3 :=
  ⟨rfl, (stays_nonblocking_iff (create_socket 1#32) _).mpr (by decide)⟩

/-- `ioctl(FIONBIO)` with the value 0 makes a managed socket block its worker. -/
theorem not_stays_nonblocking : fresh.create (.socket 1#32) 3 = some (withSocket 1#32) ∧
    (withSocket 1#32).Nonblocking 3 ∧
    ¬((withSocket 1#32).calls 3 [(.ioctl (.fionbio 0#32), true)]).Nonblocking 3 := by
  refine ⟨rfl, ?_, ?_⟩
  · unfold Nonblocking
    decide
  · unfold Nonblocking
    decide

/-! ## The mode the user sees -/

/-- A managed socket shows the user its own mode. -/
theorem Managed.simulates_iff (managed : s.Managed fd user sys) (flags : BitVec 32) :
    s.Simulates fd flags ↔ user = nonblock flags := by
  obtain ⟨ctx, found, -, shown⟩ := managed.socketContext
  obtain ⟨ctx', context, socket, -, opened, shown'⟩ := managed.context
  have reports : nonblock (s.fcntl fd .F_GETFL true).1 = user := by
    simp only [fcntl, found, shown]
    cases user with
    | false => exact nonblock_and_not _
    | true => exact nonblock_or _
  constructor
  · intro simulates
    exact reports.symm.trans simulates.reported
  · intro same
    refine ⟨reports.trans same, fun w kind file co => ?_⟩
    rw [← same, context]
    simp only [System.begin, opened, socket, shown']
    cases user with
    | false =>
        constructor
        · rintro ⟨call, direct⟩
          cases direct
        · intro absurd
          cases absurd
    | true => exact ⟨fun _ => rfl, fun _ => ⟨_, rfl⟩⟩

theorem Managed.simulates_calls_iff (managed : s.Managed fd user sys) (flags : BitVec 32)
    (calls : List ModeCall) :
    (s.calls fd (calls.map (·, true))).Simulates fd
        (calls.foldl (fun flags call => call.native flags) flags) ↔
      user = nonblock flags ∨ ∃ call ∈ calls, call.SetsMode := by
  induction calls generalizing s user sys flags with
  | nil =>
      refine (managed.simulates_iff flags).trans (Iff.symm (or_iff_left ?_))
      rintro ⟨call, member, -⟩
      cases member
  | cons call rest ih =>
      have next := ih (managed.call call true) (call.native flags)
      refine next.trans ?_
      rw [List.exists_mem_cons_iff, ← or_assoc]
      refine or_congr_left ?_
      cases call with
      | fcntl cmd =>
          cases cmd with
          | F_SETFL arg =>
              exact iff_of_true (nonblock_native_setfl arg flags).symm (Or.inr trivial)
          | F_GETFL => exact (or_iff_left id).symm
      | ioctl request =>
          cases request with
          | fionbio value =>
              exact iff_of_true (nonblock_native_ioctl value flags).symm (Or.inr trivial)
          | other => exact (or_iff_left id).symm
      | setsockopt hookEnable option => exact (or_iff_left id).symm

theorem nonblock_creation_flags (how : Creation) :
    nonblock how.flags = true ↔ ∃ type, how = .socket type ∧ nonblock type = true := by
  cases how with
  | socket type =>
      have bit : nonblock (O_RDWR ||| type &&& O_NONBLOCK) = nonblock type := by
        simp only [nonblock_eq_getLsbD, BitVec.getLsbD_or, BitVec.getLsbD_and,
          show O_RDWR.getLsbD 11 = false by decide, show O_NONBLOCK.getLsbD 11 = true by decide,
          Bool.false_or, Bool.and_true]
      rw [Creation.flags, bit]
      constructor
      · intro set
        exact ⟨type, rfl, set⟩
      · rintro ⟨_, same, set⟩
        cases same
        exact set
  | accept =>
      constructor
      · intro set
        cases set
      · rintro ⟨_, other, -⟩
        cases other

/-- **When the mode the user sees is the native one.** After a sequence of successful
calls on a descriptor that a hooked `socket` or `accept` has made, `F_GETFL` reports
`O_NONBLOCK` and a hooked function passes its call straight through exactly as on an
unhooked socket if and only if the socket was not made with `SOCK_NONBLOCK`, or its mode
has been set since. -/
theorem simulates_native_iff {how : Creation} (made : s.create how fd = some t)
    (calls : List ModeCall) :
    (t.calls fd (calls.map (·, true))).Simulates fd (how.native calls) ↔
      (∀ type, how = .socket type → nonblock type = false) ∨ ∃ call ∈ calls, call.SetsMode := by
  refine ((managed_of_create made).simulates_calls_iff how.flags calls).trans (or_congr_left ?_)
  rw [Bool.false_eq, ← Bool.not_eq_true, nonblock_creation_flags, not_exists]
  refine forall_congr' fun type => ?_
  rw [not_and, Bool.not_eq_true]

theorem plain_socket_simulates :
    fresh.create (.socket 1#32) 3 = some (withSocket 1#32) ∧
    ((withSocket 1#32).calls 3 [(.fcntl .F_GETFL, true)]).Simulates 3
      ((Creation.socket 1#32).native [.fcntl .F_GETFL]) :=
  ⟨rfl, (simulates_native_iff (create_socket 1#32) [.fcntl .F_GETFL]).mpr
    (Or.inl fun type same => by cases same; decide)⟩

/-- A socket made with `SOCK_NONBLOCK` is reported to block. -/
theorem not_simulates_native :
    fresh.create (.socket (1#32 ||| O_NONBLOCK)) 3 = some (withSocket (1#32 ||| O_NONBLOCK)) ∧
    nonblock ((withSocket (1#32 ||| O_NONBLOCK)).fcntl 3 .F_GETFL true).1 = false ∧
    nonblock ((Creation.socket (1#32 ||| O_NONBLOCK)).native []) = true ∧
    ¬((withSocket (1#32 ||| O_NONBLOCK)).calls 3 []).Simulates 3
      ((Creation.socket (1#32 ||| O_NONBLOCK)).native []) := by
  have reported : nonblock ((withSocket (1#32 ||| O_NONBLOCK)).fcntl 3 .F_GETFL true).1 = false := by
    decide
  have native : nonblock ((Creation.socket (1#32 ||| O_NONBLOCK)).native []) = true := by decide
  refine ⟨rfl, reported, native, fun simulates => ?_⟩
  have same := reported.symm.trans (simulates.reported.trans native)
  cases same

end Descriptors

end Reyao
