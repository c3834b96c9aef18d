import Reyao.Cxx
import Reyao.FdManager
import Reyao.Lib.Run

/-!
# `Socket` objects and the table of contexts (`socket.h`, `socket.cc`)

The members of a `Socket` call hooked functions, and those look their descriptor up in
`FdManager`, which asserts that it is not negative. A `Socket` has the descriptor -1
before it is opened and after it is closed, and when `socket` fails.

A member is a program over the object and the table. What the kernel answers is an
argument of it; the parts that neither change the object nor ask for a context
(`getsockname`, `getpeername`, `SO_REUSEADDR`, `TCP_NODELAY`, the log) are left out.
-/

namespace Reyao

open Lib

inductive SocketState : Type
  | INIT
  | LISTEN
  | CONNECTED
  | CLOSE
  deriving DecidableEq, Repr

structure Socket : Type where
  sockfd : Int := -1
  state : SocketState := .INIT
  deriving DecidableEq, Repr

/-- A descriptor that the kernel has made, and whether `fstat` then finds a socket. -/
structure NewFd : Type where
  fd : Nat
  isSock : Bool
  deriving DecidableEq, Repr

/-- Programs over a `Socket` and the contexts. -/
abbrev SocketM : Type → Type := EStateM Fault (Socket × FdManager)

/-! ## The hooked functions -/

/-- `getFdContext(fd)`. -/
def lookupFd (fd : Int) : SocketM (Option FdContext) := fun s =>
  if fd < 0 then .error .assertFailed s else .ok (s.2.getFdContext fd.toNat) s

/-- `addFd(fd)`. -/
def addNewFd (new : NewFd) : SocketM Unit := fun s =>
  match s.2.addFd new.fd { isSock := new.isSock } with
  | some m => .ok () (s.1, m)
  | none => .error .outOfBounds s

namespace Hooked

def socket (answer : Option NewFd) : SocketM Int := do
  match answer with
  | none => return -1
  | some new =>
      addNewFd new
      return new.fd

/-- `connect_with_timeout`: whether it returns 0. -/
def connect (fd : Int) (answer : Bool) : SocketM Bool := do
  match ← lookupFd fd with
  | none => return false
  | some ctx => return !ctx.close && answer

/-- `do_io` up to the original function, whose answer is the result. -/
def do_io {α : Type} (fd : Int) (answer : α) : SocketM α := do
  let _ ← lookupFd fd
  return answer

def accept (fd : Int) (answer : Option NewFd) : SocketM (Option NewFd) := do
  match ← do_io fd answer with
  | none => return none
  | some new =>
      addNewFd new
      return some new

def close (fd : Int) : SocketM Unit := do
  match ← lookupFd fd with
  | none => return
  | some _ => modify fun s => (s.1, s.2.delFd fd.toNat)

/-- `setsockopt` of `SO_RCVTIMEO` or `SO_SNDTIMEO`. -/
def setsockopt (fd : Int) (type : EventType) (timeout : Int) : SocketM Unit := do
  match ← lookupFd fd with
  | none => return
  | some _ => modify fun s => (s.1, s.2.modify fd.toNat (·.setTimeout type timeout))

end Hooked

/-! ## The members -/

namespace Socket

def isValid (sock : Socket) : Bool := sock.sockfd != -1

def isConnected (sock : Socket) : Bool := sock.state == .CONNECTED

def setSockfd (fd : Int) : SocketM Unit := modify fun s => ({ s.1 with sockfd := fd }, s.2)

def setState (state : SocketState) : SocketM Unit :=
  modify fun s => ({ s.1 with state := state }, s.2)

def newSock (answer : Option NewFd) : SocketM Unit := do
  setSockfd (← Hooked.socket answer)

def bind (answer : Option NewFd) (bound : Bool) : SocketM Bool := do
  if (← get).1.isValid then return bound
  newSock answer
  if (← get).1.isValid then return bound
  return false

def listen (listens : Bool) : SocketM Bool := do
  if (← get).1.isValid && listens then
    setState .LISTEN
    return true
  return false

def close : SocketM Bool := do
  let sock := (← get).1
  if sock.state == .CLOSE && sock.sockfd == -1 then return true
  Hooked.close sock.sockfd
  setState .CLOSE
  setSockfd (-1)
  return true

/-- `connect` once it has called `newSock`, if it had to. -/
def connectSock (connects : Bool) : SocketM Bool := do
  if ← Hooked.connect (← get).1.sockfd connects then
    setState .CONNECTED
    return true
  let _ ← close
  return false

def connect (answer : Option NewFd) (connects : Bool) : SocketM Bool := do
  if (← get).1.isValid then connectSock connects
  else
    newSock answer
    connectSock connects

def init (fd : Int) : SocketM Bool := do
  match ← lookupFd fd with
  | none => return false
  | some ctx =>
      if ctx.isSock && !ctx.close then
        setSockfd fd
        setState .CONNECTED
        return true
      return false

/-- What becomes of the object that `accept` makes: `init` takes the descriptor, or the
object is destroyed again. -/
def takeFd (fd : Int) : SocketM Bool := do
  if ← init fd then return true
  let _ ← close
  return false

/-- What a member does with an object that it has made. -/
def onNew {α : Type} (act : SocketM α) : SocketM (α × Socket) := fun s =>
  match act ({}, s.2) with
  | .ok a t => .ok (a, t.1) (s.1, t.2)
  | .error e t => .error e (s.1, t.2)

def accept (answer : Option NewFd) : SocketM (Option Socket) := do
  match ← Hooked.accept (← get).1.sockfd answer with
  | none => return none
  | some new =>
      let (taken, conn) ← onNew (takeFd new.fd)
      return if taken then some conn else none

/-- `send` and `sendTo`, `recv` and `recvFrom`. -/
def transfer (answer : Int) : SocketM Int := do
  if (← get).1.isConnected then Hooked.do_io (← get).1.sockfd answer else return -1

/-- `setRecvTimeout` and `setSendTimeout`. -/
def setTimeout (type : EventType) (timeout : Int) : SocketM Unit := do
  Hooked.setsockopt (← get).1.sockfd type timeout

/-- `getRecvTimeout` and `getSendTimeout`. -/
def getTimeout (type : EventType) : SocketM Int := do
  match ← lookupFd (← get).1.sockfd with
  | none => return -1
  | some ctx => return ctx.getTimeout type

end Socket

/-- A call of a member on an object, with what the kernel answers. -/
inductive SocketCall : Type
  | bind (answer : Option NewFd) (bound : Bool)
  | listen (listens : Bool)
  | connect (answer : Option NewFd) (connects : Bool)
  | accept (answer : Option NewFd)
  | transfer (answer : Int)
  | setTimeout (type : EventType) (timeout : Int)
  | getTimeout (type : EventType)
  | close
  /-- The destructor, which calls `close`. -/
  | destroy
  deriving DecidableEq

/-- What a call does, and the object it makes. -/
def SocketCall.run : SocketCall → SocketM (Option Socket)
  | bind answer bound => do
      let _ ← Socket.bind answer bound
      return none
  | listen listens => do
      let _ ← Socket.listen listens
      return none
  | connect answer connects => do
      let _ ← Socket.connect answer connects
      return none
  | accept answer => Socket.accept answer
  | transfer answer => do
      let _ ← Socket.transfer answer
      return none
  | setTimeout type timeout => do
      Socket.setTimeout type timeout
      return none
  | getTimeout type => do
      let _ ← Socket.getTimeout type
      return none
  | close => do
      let _ ← Socket.close
      return none
  | destroy => do
      let _ ← Socket.close
      return none

/-- The objects that have been made, in order, without those destroyed. -/
structure Sockets : Type where
  objects : List (Option Socket) := []
  fdmanager : FdManager := {}

inductive SocketOp : Type
  | CreateTcp
  | call (i : Nat) (call : SocketCall)
  deriving DecidableEq

namespace Sockets

/-- An operation; one on an object that is not there does nothing. -/
def step (s : Sockets) : SocketOp → Except Fault Sockets
  | .CreateTcp => .ok { s with objects := s.objects ++ [some {}] }
  | .call i call =>
      match s.objects[i]?.join with
      | none => .ok s
      | some sock =>
          match call.run (sock, s.fdmanager) with
          | .ok made (sock, m) =>
              let left := if call = .destroy then none else some sock
              .ok { objects := s.objects.set i left ++ made.toList.map some, fdmanager := m }
          | .error e _ => .error e

/-- A sequence of operations. -/
def run (s : Sockets) (ops : List SocketOp) : Except Fault Sockets := ops.foldlM step s

end Sockets

/-! ## What the members do -/

/-- The program has run into a failed assertion. -/
def Aborts {α : Type} (r : EStateM.Result Fault (Socket × FdManager) α) : Prop :=
  ∃ s, r = .error .assertFailed s

/-- The program has returned with a result and an object of this kind, or it has left the
table of contexts. -/
inductive Safely {α : Type} (P : α → Socket → Prop) :
    EStateM.Result Fault (Socket × FdManager) α → Prop
  | returns {a : α} {sock : Socket} {m : FdManager} : P a sock → Safely P (.ok a (sock, m))
  | outOfBounds {s : Socket × FdManager} : Safely P (.error .outOfBounds s)

section

variable {α β : Type} {s t : Socket × FdManager} {x : SocketM α} {f : α → SocketM β}

theorem Aborts.bind (first : Aborts (x s)) : Aborts ((x >>= f) s) := by
  obtain ⟨u, failed⟩ := first
  exact ⟨u, bind_error failed⟩

theorem Aborts.after {a : α} (first : x s = .ok a t) (rest : Aborts (f a t)) :
    Aborts ((x >>= f) s) := by
  rw [bind_ok first]
  exact rest

theorem Safely.bind {P : α → Socket → Prop} {Q : β → Socket → Prop} (first : Safely P (x s))
    (rest : ∀ a sock m, P a sock → Safely Q (f a (sock, m))) : Safely Q ((x >>= f) s) := by
  generalize ran : x s = r at first
  cases first with
  | returns is =>
      rw [bind_ok ran]
      exact rest _ _ _ is
  | outOfBounds =>
      rw [bind_error ran]
      exact .outOfBounds

theorem Safely.after {Q : β → Socket → Prop} {a : α} (first : x s = .ok a t)
    (rest : Safely Q (f a t)) : Safely Q ((x >>= f) s) := by
  rw [bind_ok first]
  exact rest

/-- A program that does not look at the result. -/
theorem Safely.discard {P : Socket → Prop} {Q : β → Socket → Prop} {b : β}
    (first : Safely (fun (_ : α) => P) (x s)) (keeps : ∀ sock, P sock → Q b sock) :
    Safely Q ((do let _ ← x; return b : SocketM β) s) :=
  first.bind fun _ sock _ is => .returns (keeps sock is)

end

theorem lookupFd_natCast (n : Nat) (s : Socket × FdManager) :
    lookupFd n s = .ok (s.2.getFdContext n) s := by
  unfold lookupFd
  rw [if_neg (by omega)]
  rfl

theorem aborts_lookupFd (s : Socket × FdManager) : Aborts (lookupFd (-1) s) := ⟨s, rfl⟩

/-- An object has no descriptor, and then it is not connected, or it has one. -/
inductive Socket.Wf : Socket → Prop
  | unopened {state : SocketState} : state ≠ .CONNECTED → Wf ⟨-1, state⟩
  | opened (n : Nat) (state : SocketState) : Wf ⟨n, state⟩

namespace Socket

variable {n : Nat} {state : SocketState} {m m' : FdManager}

theorem wf_new : ({} : Socket).Wf := .unopened (by decide)

@[simp] theorem isValid_opened : isValid ⟨n, state⟩ = true := by
  rw [isValid, bne_iff_ne]
  change (n : Int) ≠ -1
  omega

@[simp] theorem isValid_unopened : isValid ⟨-1, state⟩ = false := rfl

/-- What `newSock` leaves. -/
theorem newSock_safely (fd : Int) (state : SocketState) (answer : Option NewFd) :
    Safely (fun _ sock => match answer with
      | none => sock = ⟨-1, state⟩
      | some new => sock = ⟨new.fd, state⟩) (newSock answer (⟨fd, state⟩, m)) := by
  cases answer with
  | none => exact .returns rfl
  | some new =>
      cases added : m.addFd new.fd { isSock := new.isSock } with
      | none =>
          have failed : addNewFd new (⟨fd, state⟩, m) = .error .outOfBounds (⟨fd, state⟩, m) := by
            simp only [addNewFd, added]
          have ended : newSock (some new) (⟨fd, state⟩, m) =
              .error .outOfBounds (⟨fd, state⟩, m) := bind_error (bind_error failed)
          rw [ended]
          exact .outOfBounds
      | some m' =>
          have done : addNewFd new (⟨fd, state⟩, m) = .ok () (⟨fd, state⟩, m') := by
            simp only [addNewFd, added]
          have made : Hooked.socket (some new) (⟨fd, state⟩, m) =
              .ok (new.fd : Int) (⟨fd, state⟩, m') := bind_ok done
          exact .after made (.returns rfl)

theorem close_aborts (other : state ≠ .CLOSE) : Aborts (close (⟨-1, state⟩, m)) := by
  have here : (state == .CLOSE) = false := beq_eq_false_iff_ne.mpr other
  unfold close
  rw [get_bind]
  simp only [here, Bool.false_and]
  exact (aborts_lookupFd _).bind.bind

theorem close_opened (n : Nat) (state : SocketState) (m : FdManager) :
    ∃ m', close (⟨n, state⟩, m) = .ok true (⟨-1, .CLOSE⟩, m') := by
  obtain ⟨m', done⟩ : ∃ m', Hooked.close n (⟨n, state⟩, m) = .ok () (⟨n, state⟩, m') := by
    unfold Hooked.close
    rw [bind_ok (lookupFd_natCast n _)]
    cases m.getFdContext n with
    | none => exact ⟨_, rfl⟩
    | some ctx => exact ⟨_, rfl⟩
  have here : ((n : Int) == -1) = false := beq_eq_false_iff_ne.mpr (by omega)
  refine ⟨m', ?_⟩
  unfold close
  rw [get_bind]
  simp only [here, Bool.and_false]
  exact bind_ok done

theorem close_safely {sock : Socket} (wf : sock.Wf) (fine : sock.sockfd = -1 → sock.state = .CLOSE) :
    Safely (fun _ sock => sock.Wf) (close (sock, m)) := by
  cases wf with
  | unopened other =>
      have closed := fine rfl
      dsimp only at closed
      subst closed
      exact .returns (.unopened other)
  | opened n state =>
      obtain ⟨m', done⟩ := close_opened n state m
      rw [done]
      exact .returns (.unopened (by decide))

theorem connectSock_safely (connects : Bool) :
    Safely (fun _ sock => sock.Wf) (connectSock connects (⟨n, state⟩, m)) := by
  obtain ⟨result, answered⟩ : ∃ result,
      Hooked.connect n connects (⟨n, state⟩, m) = .ok result (⟨n, state⟩, m) := by
    unfold Hooked.connect
    rw [bind_ok (lookupFd_natCast n _)]
    cases m.getFdContext n with
    | none => exact ⟨_, rfl⟩
    | some ctx => exact ⟨_, rfl⟩
  unfold connectSock
  rw [get_bind]
  refine .after answered ?_
  cases result with
  | true => exact .returns (.opened n .CONNECTED)
  | false =>
      obtain ⟨m', done⟩ := close_opened n state m
      exact .after done (.returns (.unopened (by decide)))

theorem bind_safely {sock : Socket} (wf : sock.Wf) (answer : Option NewFd) (bound : Bool) :
    Safely (fun _ sock => sock.Wf) (bind answer bound (sock, m)) := by
  unfold bind
  rw [get_bind]
  cases wf with
  | opened n state =>
      rw [isValid_opened, if_pos rfl]
      exact .returns (.opened n state)
  | @unopened state other =>
      rw [isValid_unopened, if_neg Bool.false_ne_true]
      refine (newSock_safely (-1) state answer).bind fun _ sock m is => ?_
      rw [get_bind]
      cases answer with
      | none =>
          subst is
          rw [isValid_unopened, if_neg Bool.false_ne_true]
          exact .returns (.unopened other)
      | some new =>
          subst is
          rw [isValid_opened, if_pos rfl]
          exact .returns (.opened new.fd state)

theorem listen_safely {sock : Socket} (wf : sock.Wf) (listens : Bool) :
    Safely (fun _ sock => sock.Wf) (listen listens (sock, m)) := by
  unfold listen
  rw [get_bind]
  split
  · cases wf with
    | opened n state => exact .returns (.opened n .LISTEN)
    | unopened other => exact .returns (.unopened (by decide))
  · exact .returns wf

theorem connect_aborts (connects : Bool) : Aborts (connect none connects (⟨-1, state⟩, m)) := by
  unfold connect
  rw [get_bind, isValid_unopened, if_neg Bool.false_ne_true]
  have still : newSock none (⟨-1, state⟩, m) = .ok () (⟨-1, state⟩, m) := rfl
  refine .after still ?_
  unfold connectSock
  rw [get_bind]
  exact Aborts.bind (x := Hooked.connect (-1) connects) (aborts_lookupFd _).bind

theorem connect_safely {sock : Socket} (wf : sock.Wf) {answer : Option NewFd}
    (fine : sock.sockfd = -1 → answer ≠ none) (connects : Bool) :
    Safely (fun _ sock => sock.Wf) (connect answer connects (sock, m)) := by
  unfold connect
  rw [get_bind]
  cases wf with
  | opened n state =>
      rw [isValid_opened, if_pos rfl]
      exact connectSock_safely connects
  | @unopened state other =>
      rw [isValid_unopened, if_neg Bool.false_ne_true]
      refine (newSock_safely (-1) state answer).bind fun _ sock m is => ?_
      cases answer with
      | none => exact absurd rfl (fine rfl)
      | some new =>
          subst is
          exact connectSock_safely connects

theorem hooked_do_io {α : Type} (answer : α) :
    Hooked.do_io n answer (⟨n, state⟩, m) = .ok answer (⟨n, state⟩, m) :=
  bind_ok (lookupFd_natCast n _)

theorem transfer_safely {sock : Socket} (wf : sock.Wf) (answer : Int) :
    Safely (fun _ sock => sock.Wf) (transfer answer (sock, m)) := by
  unfold transfer
  rw [get_bind]
  cases wf with
  | opened n state =>
      split
      · rw [get_bind, hooked_do_io]
        exact .returns (.opened n state)
      · exact .returns (.opened n state)
  | @unopened state other =>
      have closed : isConnected ⟨-1, state⟩ = false := beq_eq_false_iff_ne.mpr other
      rw [closed, if_neg Bool.false_ne_true]
      exact .returns (.unopened other)

theorem setTimeout_safely (type : EventType) (timeout : Int) :
    Safely (fun _ sock => sock.Wf) (setTimeout type timeout (⟨n, state⟩, m)) := by
  unfold setTimeout Hooked.setsockopt
  rw [get_bind]
  refine .after (lookupFd_natCast n _) ?_
  cases m.getFdContext n with
  | none => exact .returns (.opened n state)
  | some ctx => exact .returns (.opened n state)

theorem getTimeout_safely (type : EventType) :
    Safely (fun _ sock => sock.Wf) (getTimeout type (⟨n, state⟩, m)) := by
  unfold getTimeout
  rw [get_bind]
  refine .after (lookupFd_natCast n _) ?_
  cases m.getFdContext n with
  | none => exact .returns (.opened n state)
  | some ctx => exact .returns (.opened n state)

/-- An accepted descriptor, with its context in the table. -/
theorem takeFd_of_isSock {fd : Nat} (found : m.getFdContext fd = some { isSock := true }) :
    takeFd fd ({}, m) = .ok true (⟨fd, .CONNECTED⟩, m) := by
  have taken : init fd ({}, m) = .ok true (⟨fd, .CONNECTED⟩, m) := by
    refine (bind_ok (lookupFd_natCast fd _)).trans ?_
    simp only [found]
    rfl
  exact bind_ok taken

theorem takeFd_aborts {fd : Nat} (found : m.getFdContext fd = some { isSock := false }) :
    Aborts (takeFd fd ({}, m)) := by
  have left : init fd ({}, m) = .ok false ({}, m) := by
    refine (bind_ok (lookupFd_natCast fd _)).trans ?_
    simp only [found]
    rfl
  exact .after left (close_aborts (by decide)).bind

theorem onNew_aborts {α : Type} {act : SocketM α} {sock : Socket} (failed : Aborts (act ({}, m))) :
    Aborts (onNew act (sock, m)) := by
  obtain ⟨u, failed⟩ := failed
  refine ⟨(sock, u.2), ?_⟩
  simp only [onNew, failed]

theorem onNew_ok {α : Type} {act : SocketM α} {sock new : Socket} {a : α}
    (done : act ({}, m) = .ok a (new, m')) : onNew act (sock, m) = .ok (a, new) (sock, m') := by
  simp only [onNew, done]

theorem hooked_accept_some {new : NewFd}
    (added : m.addFd new.fd { isSock := new.isSock } = some m') :
    Hooked.accept n (some new) (⟨n, state⟩, m) = .ok (some new) (⟨n, state⟩, m') := by
  have done : addNewFd new (⟨n, state⟩, m) = .ok () (⟨n, state⟩, m') := by
    simp only [addNewFd, added]
  exact (bind_ok (hooked_do_io (some new))).trans (bind_ok done)

theorem accept_aborts {fd : Nat} (added : m.addFd fd { isSock := false } = some m') :
    Aborts (accept (some ⟨fd, false⟩) (⟨n, state⟩, m)) := by
  unfold accept
  rw [get_bind]
  refine .after (hooked_accept_some added) ?_
  exact (onNew_aborts (takeFd_aborts (FdManager.getFdContext_addFd added).1)).bind

theorem accept_safely {answer : Option NewFd}
    (fine : ∀ fd, answer = some ⟨fd, false⟩ → m.addFd fd { isSock := false } = none) :
    Safely (fun made sock => sock.Wf ∧ ∀ new ∈ made, new.Wf)
      (accept answer (⟨n, state⟩, m)) := by
  unfold accept
  rw [get_bind]
  cases answer with
  | none =>
      have waited : Hooked.accept n none (⟨n, state⟩, m) = .ok none (⟨n, state⟩, m) :=
        bind_ok (hooked_do_io none)
      refine .after waited (.returns ⟨.opened n state, fun new member => ?_⟩)
      cases member
  | some new =>
      obtain ⟨fd, isSock⟩ := new
      cases added : m.addFd fd { isSock := isSock } with
      | none =>
          have failed : addNewFd ⟨fd, isSock⟩ (⟨n, state⟩, m) =
              .error .outOfBounds (⟨n, state⟩, m) := by
            simp only [addNewFd, added]
          have ended : Hooked.accept n (some ⟨fd, isSock⟩) (⟨n, state⟩, m) =
              .error .outOfBounds (⟨n, state⟩, m) :=
            (bind_ok (hooked_do_io (some (⟨fd, isSock⟩ : NewFd)))).trans (bind_error failed)
          rw [bind_error ended]
          exact .outOfBounds
      | some m' =>
          cases isSock with
          | false =>
              have both := added.symm.trans (fine fd rfl)
              cases both
          | true =>
              refine .after (hooked_accept_some added) ?_
              have taken := takeFd_of_isSock (FdManager.getFdContext_addFd added).1
              refine .after (onNew_ok taken)
                (Safely.returns (a := some (⟨fd, .CONNECTED⟩ : Socket)) ?_)
              refine ⟨.opened n state, fun new member => ?_⟩
              cases member
              exact .opened fd .CONNECTED

end Socket

/-! ## Descriptors that are not there -/

/-- The calls that look up a negative descriptor: those for the descriptor itself while
there is none, `connect` when it cannot make one, `accept` also when `fstat` fails on the
descriptor that it was given, and `close` and the destructor on an object that was not
closed. -/
def SocketCall.Negative (sock : Socket) (m : FdManager) : SocketCall → Prop
  | bind _ _ => False
  | listen _ => False
  | connect answer _ => sock.sockfd = -1 ∧ answer = none
  | accept answer => sock.sockfd = -1 ∨
      ∃ fd, answer = some ⟨fd, false⟩ ∧ m.addFd fd { isSock := false } ≠ none
  | transfer _ => False
  | setTimeout _ _ => sock.sockfd = -1
  | getTimeout _ => sock.sockfd = -1
  | close => sock.sockfd = -1 ∧ sock.state ≠ .CLOSE
  | destroy => sock.sockfd = -1 ∧ sock.state ≠ .CLOSE

theorem SocketCall.aborts_of_negative {sock : Socket} {m : FdManager} (wf : sock.Wf)
    {call : SocketCall} (negative : call.Negative sock m) : Aborts (call.run (sock, m)) := by
  cases call with
  | bind answer bound => cases negative
  | listen listens => cases negative
  | transfer answer => cases negative
  | connect answer connects =>
      obtain ⟨none, rfl⟩ := negative
      obtain ⟨fd, state⟩ := sock
      subst none
      exact (Socket.connect_aborts connects).bind
  | accept answer =>
      cases wf with
      | unopened other => exact ⟨_, rfl⟩
      | opened n state =>
          obtain none | ⟨fd, rfl, room⟩ := negative
          · have apart : (n : Int) ≠ -1 := by omega
            exact absurd none apart
          · obtain ⟨m', added⟩ := Option.ne_none_iff_exists'.mp room
            exact Socket.accept_aborts added
  | setTimeout type timeout =>
      obtain ⟨fd, state⟩ := sock
      subst negative
      exact ⟨_, rfl⟩
  | getTimeout type =>
      obtain ⟨fd, state⟩ := sock
      subst negative
      exact ⟨_, rfl⟩
  | close =>
      obtain ⟨fd, state⟩ := sock
      obtain ⟨none, other⟩ := negative
      subst none
      exact (Socket.close_aborts other).bind
  | destroy =>
      obtain ⟨fd, state⟩ := sock
      obtain ⟨none, other⟩ := negative
      subst none
      exact (Socket.close_aborts other).bind

theorem SocketCall.safely_of_not_negative {sock : Socket} {m : FdManager} (wf : sock.Wf)
    {call : SocketCall} (fine : ¬call.Negative sock m) :
    Safely (fun made sock => sock.Wf ∧ ∀ new ∈ made, new.Wf) (call.run (sock, m)) := by
  have nothing (sock : Socket) (wf : sock.Wf) :
      sock.Wf ∧ ∀ new ∈ (none : Option Socket), new.Wf := ⟨wf, fun new member => by cases member⟩
  cases call with
  | bind answer bound => exact (Socket.bind_safely wf answer bound).discard nothing
  | listen listens => exact (Socket.listen_safely wf listens).discard nothing
  | transfer answer => exact (Socket.transfer_safely wf answer).discard nothing
  | connect answer connects =>
      have opens : sock.sockfd = -1 → answer ≠ none := fun none failed => fine ⟨none, failed⟩
      exact (Socket.connect_safely wf opens connects).discard nothing
  | accept answer =>
      cases wf with
      | unopened other => exact absurd (Or.inl rfl) fine
      | opened n state =>
          refine Socket.accept_safely fun fd given => ?_
          by_contra room
          exact fine (Or.inr ⟨fd, given, room⟩)
  | setTimeout type timeout =>
      cases wf with
      | unopened other => exact absurd rfl fine
      | opened n state => exact (Socket.setTimeout_safely type timeout).discard nothing
  | getTimeout type =>
      cases wf with
      | unopened other => exact absurd rfl fine
      | opened n state => exact (Socket.getTimeout_safely type).discard nothing
  | close =>
      have closed : sock.sockfd = -1 → sock.state = .CLOSE :=
        fun none => Decidable.byContradiction fun other => fine ⟨none, other⟩
      exact (Socket.close_safely wf closed).discard nothing
  | destroy =>
      have closed : sock.sockfd = -1 → sock.state = .CLOSE :=
        fun none => Decidable.byContradiction fun other => fine ⟨none, other⟩
      exact (Socket.close_safely wf closed).discard nothing

namespace Sockets

/-- Every object is sound. -/
def Wf (s : Sockets) : Prop := ∀ sock, some sock ∈ s.objects → sock.Wf

/-- The operation makes a hooked function look up a negative descriptor. -/
def Negative (s : Sockets) : SocketOp → Prop
  | .CreateTcp => False
  | .call i call => ∃ sock, s.objects[i]?.join = some sock ∧ call.Negative sock s.fdmanager

variable {s t : Sockets}

theorem wf_empty : ({} : Sockets).Wf := by
  intro sock member
  cases member

theorem Wf.object (wf : s.Wf) {i : Nat} {sock : Socket} (there : s.objects[i]?.join = some sock) :
    sock.Wf :=
  wf sock (List.mem_of_getElem? (Option.join_eq_some_iff.mp there))

/-- A call on an object faults, or leaves it and the object it makes sound. -/
theorem Wf.call_cases (wf : s.Wf) {i : Nat} {sock : Socket}
    (there : s.objects[i]?.join = some sock) (call : SocketCall) :
    call.Negative sock s.fdmanager ∧ s.step (.call i call) = .error .assertFailed ∨
      ¬call.Negative sock s.fdmanager ∧ (s.step (.call i call) = .error .outOfBounds ∨
        ∃ t, s.step (.call i call) = .ok t ∧ t.Wf) := by
  have sound := wf.object there
  by_cases negative : call.Negative sock s.fdmanager
  · refine Or.inl ⟨negative, ?_⟩
    obtain ⟨u, aborted⟩ := SocketCall.aborts_of_negative sound negative
    simp only [step, there, aborted]
  · refine Or.inr ⟨negative, ?_⟩
    have safe := SocketCall.safely_of_not_negative sound negative
    generalize ran : call.run (sock, s.fdmanager) = r at safe
    cases safe with
    | outOfBounds =>
        refine Or.inl ?_
        simp only [step, there, ran]
    | @returns made sock' m is =>
        let left := if call = .destroy then none else some sock'
        refine Or.inr ⟨⟨s.objects.set i left ++ made.toList.map some, m⟩, ?_, ?_⟩
        · simp only [step, there, ran, left]
        · intro other member
          rcases List.mem_append.mp member with old | new
          · rcases List.mem_or_eq_of_mem_set old with kept | same
            · exact wf other kept
            · simp only [left] at same
              split at same
              · cases same
              · cases same
                exact is.1
          · obtain ⟨_, inside, same⟩ := List.mem_map.mp new
            cases same
            exact is.2 _ (Option.mem_toList.mp inside)

theorem Wf.step (wf : s.Wf) {op : SocketOp} (done : s.step op = .ok t) : t.Wf := by
  cases op with
  | CreateTcp =>
      cases done
      intro sock member
      rcases List.mem_append.mp member with old | new
      · exact wf sock old
      · cases List.mem_singleton.mp new
        exact Socket.wf_new
  | call i call =>
      cases there : s.objects[i]?.join with
      | none =>
          simp only [Sockets.step, there] at done
          cases done
          exact wf
      | some sock =>
          rcases wf.call_cases there call with ⟨-, failed⟩ | ⟨-, failed | ⟨u, ended, sound⟩⟩
          · cases failed.symm.trans done
          · cases failed.symm.trans done
          · cases ended.symm.trans done
            exact sound

theorem Wf.step_asserts_iff (wf : s.Wf) {op : SocketOp} :
    s.step op = .error .assertFailed ↔ s.Negative op := by
  cases op with
  | CreateTcp =>
      constructor
      · intro failed
        cases failed
      · intro negative
        cases negative
  | call i call =>
      cases there : s.objects[i]?.join with
      | none =>
          simp only [Sockets.step, Negative, there]
          constructor
          · intro failed
            cases failed
          · rintro ⟨sock, absurd, -⟩
            cases absurd
      | some sock =>
          have only : s.Negative (.call i call) ↔ call.Negative sock s.fdmanager := by
            simp only [Negative, there, Option.some.injEq, exists_eq_left']
          rw [only]
          rcases wf.call_cases there call with ⟨negative, failed⟩ | ⟨fine, failed | ⟨u, ended, -⟩⟩
          · exact iff_of_true failed negative
          · refine iff_of_false (fun other => ?_) fine
            cases failed.symm.trans other
          · refine iff_of_false (fun other => ?_) fine
            cases ended.symm.trans other

/-- **When the assertion of `getFdContext` holds.** A sequence of operations on `Socket`
objects, with any answers of the kernel, does not run into `assert(fd >= 0)` if and only
if none of the operations it reaches looks up a descriptor that is not there: `connect`
when `socket` fails, `accept` and the timeouts on an object without descriptor, `accept`
when `fstat` fails on the new descriptor, `close` and the destructor on an object that
has no descriptor and was not closed. -/
theorem run_asserts_iff (ops : List SocketOp) :
    run {} ops ≠ .error .assertFailed ↔
      ∀ before op t, before ++ [op] <+: ops → run {} before = .ok t → ¬t.Negative op :=
  foldlM_ne_error_iff (fun wf => wf.step_asserts_iff) (fun wf done => wf.step done) wf_empty ops

/-- A `Socket` that was never opened ends the program when it is destroyed. -/
theorem not_run_asserts : run {} [.CreateTcp, .call 0 .destroy] = .error .assertFailed := rfl

end Sockets

end Reyao
