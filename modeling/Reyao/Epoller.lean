import Mathlib.Logic.Function.Basic
import Mathlib.Data.List.Basic
import Reyao.Cxx

/-!
# The poller of a worker (`epoller.h`, `epoller.cc`)

An `Epoller` has a table of I/O events indexed by descriptor and a kernel object
with the interest of the descriptors registered there. An event keeps who waits
for each direction in a context; `triggleEvent` hands the waiter to the task queue
of the worker in the context.

The operations compare the size of the table with the descriptor as an `int`, so a table
of 2^31 slots is one that is too short, and is cut.

An operation that runs into a failed assertion, a null pointer or the end of the
table has no result. The waiters it wakes are part of the result.
-/

namespace Reyao

abbrev EpollMask : Type := BitVec 32

def EPOLLERR : EpollMask := 0x8
def EPOLLHUP : EpollMask := 0x10
def EPOLLET : EpollMask := 0x80000000

/-- The directions of an event. -/
inductive EventType : Type
  | EPOLLIN
  | EPOLLOUT
  deriving DecidableEq, Repr

def EventType.mask : EventType → EpollMask
  | .EPOLLIN => 0x1
  | .EPOLLOUT => 0x4

inductive CtlOp : Type
  | EPOLL_CTL_ADD
  | EPOLL_CTL_MOD
  | EPOLL_CTL_DEL
  deriving DecidableEq, Repr

/-- `Worker::Task`: a coroutine to resume or a function to call. -/
inductive Task (C F : Type) : Type
  | co (c : C)
  | func (f : F)
  deriving DecidableEq

def Task.co? {C F : Type} : Task C F → Option C
  | .co c => some c
  | .func _ => none

def Task.func? {C F : Type} : Task C F → Option F
  | .co _ => none
  | .func f => some f

variable {W C F : Type}

/-- `IOEvent::EventCtx`. -/
structure EventCtx (W C F : Type) : Type where
  worker : Option W := none
  co : Option C := none
  func : Option F := none

/-- `IOEvent`. -/
structure IOEvent (W C F : Type) : Type where
  fd : Nat
  types : EpollMask := 0
  readEvent : EventCtx W C F := {}
  writeEvent : EventCtx W C F := {}

namespace IOEvent

def getEventCtx (type : EventType) (event : IOEvent W C F) : EventCtx W C F :=
  match type with
  | .EPOLLIN => event.readEvent
  | .EPOLLOUT => event.writeEvent

/-- Assignment through the reference `getEventCtx` returns. -/
def setEventCtx (type : EventType) (ctx : EventCtx W C F) (event : IOEvent W C F) :
    IOEvent W C F :=
  match type with
  | .EPOLLIN => { event with readEvent := ctx }
  | .EPOLLOUT => { event with writeEvent := ctx }

/-- `resetEventCtx(type)`. -/
def resetEventCtx (type : EventType) (event : IOEvent W C F) : IOEvent W C F :=
  event.setEventCtx type {}

/-- What `addEvent` writes into an event: the bit and the context of `waiter`. -/
def register (worker : W) (waiter : Task C F) (type : EventType) (event : IOEvent W C F) :
    IOEvent W C F :=
  let event := { event with types := event.types ||| type.mask }
  let ctx := event.getEventCtx type
  match waiter with
  | .func f => event.setEventCtx type { ctx with worker := some worker, func := some f }
  | .co c => event.setEventCtx type { ctx with worker := some worker, co := some c }

/-- `triggleEvent(type)`, with what it adds to a task queue. -/
def triggleEvent (type : EventType) (event : IOEvent W C F) :
    Option (List (W × Task C F) × IOEvent W C F) := do
  if event.types &&& type.mask = 0 then failure
  let event := { event with types := event.types &&& ~~~type.mask }
  let ctx := event.getEventCtx type
  let worker ← ctx.worker
  match ctx.co with
  | some c =>
      return ([(worker, .co c)], event.setEventCtx type { ctx with co := none, worker := none })
  | none =>
      -- `addTask` drops a task that is empty
      return (ctx.func.toList.map fun f => (worker, .func f),
        event.setEventCtx type { ctx with func := none, worker := none })

end IOEvent

structure Epoller (W C F : Type) : Type where
  /-- The interest of the descriptors registered with `epfd_`. -/
  interest : Nat → Option EpollMask := fun _ => none
  pendingEvents : UInt64 := 0
  ioEvents : List (IOEvent W C F) := []

namespace Epoller

/-- `epoll_ctl(epfd_, op, fd, {events})`; `granted` is the kernel's answer and
`none` the result -1. -/
def epoll_ctl (granted : CtlOp → Nat → Bool) (op : CtlOp) (fd : Nat) (events : EpollMask)
    (interest : Nat → Option EpollMask) : Option (Nat → Option EpollMask) :=
  if granted op fd then
    match op with
    | .EPOLL_CTL_ADD => some (Function.update interest fd (some events))
    | .EPOLL_CTL_MOD => some (Function.update interest fd (some events))
    | .EPOLL_CTL_DEL => some (Function.update interest fd none)
  else none

/-- `(int)ioEvents_.size() <= fd`. -/
def Short (fd : Nat) (p : Epoller W C F) : Prop := toInt p.ioEvents.length ≤ fd

instance (fd : Nat) (p : Epoller W C F) : Decidable (p.Short fd) :=
  decidableToIntLe p.ioEvents.length fd

/-- `resize(size)`, which may also cut. -/
def resize (size : Nat) (p : Epoller W C F) : Epoller W C F :=
  { p with ioEvents := p.ioEvents.take size ++
      (List.range' p.ioEvents.length (size - p.ioEvents.length)).map fun i => { fd := i } }

/-- `--pendingEvents_`. -/
def decPending (p : Epoller W C F) : Epoller W C F :=
  { p with pendingEvents := p.pendingEvents - 1 }

/-- `triggleEvent(type)` on the event of a descriptor, and `--pendingEvents_`. -/
def triggle (fd : Nat) (type : EventType) (p : Epoller W C F) :
    Option (List (W × Task C F) × Epoller W C F) := do
  let event ← p.ioEvents[fd]?
  let (woken, event) ← event.triggleEvent type
  return (woken, decPending { p with ioEvents := p.ioEvents.set fd event })

/-- `addEvent(fd, type, func)` on a thread of `worker`, where `waiter` is the
function or the coroutine that calls. -/
def addEvent (granted : CtlOp → Nat → Bool) (worker : W) (waiter : Task C F) (fd : Nat)
    (type : EventType) (p : Epoller W C F) : Option (Bool × Epoller W C F) := do
  let p := if p.Short fd then p.resize (fd * 3 / 2) else p
  let event ← p.ioEvents[fd]?
  if event.types &&& type.mask ≠ 0 then return (false, p)
  let op := if event.types ≠ 0 then CtlOp.EPOLL_CTL_MOD else .EPOLL_CTL_ADD
  match epoll_ctl granted op fd (EPOLLET ||| event.types ||| type.mask) p.interest with
  | none => return (false, p)
  | some interest =>
      let ctx := event.getEventCtx type
      if ctx.co.isSome || ctx.worker.isSome then failure
      return (true, { p with
        interest := interest
        pendingEvents := p.pendingEvents + 1
        ioEvents := p.ioEvents.set fd (event.register worker waiter type) })

/-- `delEvent(fd, type)`. -/
def delEvent (granted : CtlOp → Nat → Bool) (fd : Nat) (type : EventType)
    (p : Epoller W C F) : Bool × Epoller W C F :=
  if p.Short fd then (false, p)
  else match p.ioEvents[fd]? with
  | none => (false, p)
  | some event =>
      if event.types &&& type.mask = 0 then (false, p)
      else
        let newTypes := event.types &&& ~~~type.mask
        let op := if newTypes ≠ 0 then CtlOp.EPOLL_CTL_MOD else .EPOLL_CTL_DEL
        match epoll_ctl granted op fd (EPOLLET ||| newTypes) p.interest with
        | none => (false, p)
        | some interest =>
            let p := decPending { p with interest := interest }
            (true, { p with
              ioEvents := p.ioEvents.set fd ({ event with types := newTypes }.resetEventCtx type) })

/-- `handleEvent(fd, type)`: what it returns and whom it wakes. -/
def handleEvent (granted : CtlOp → Nat → Bool) (fd : Nat) (type : EventType)
    (p : Epoller W C F) : Option (Bool × List (W × Task C F) × Epoller W C F) :=
  if p.Short fd then return (false, [], p)
  else match p.ioEvents[fd]? with
  | none => return (false, [], p)
  | some event =>
      if event.types &&& type.mask = 0 then return (false, [], p)
      else
        let newTypes := event.types &&& ~~~type.mask
        let op := if newTypes ≠ 0 then CtlOp.EPOLL_CTL_MOD else .EPOLL_CTL_DEL
        match epoll_ctl granted op fd (EPOLLET ||| newTypes) p.interest with
        | none => return (false, [], p)
        | some interest => do
            let (woken, p) ← triggle fd type { p with interest := interest }
            return (true, woken, p)

/-- `triggleEvent(type)` if the event has `type` among `types`. -/
def triggleIf (types : EpollMask) (fd : Nat) (type : EventType) (p : Epoller W C F) :
    Option (List (W × Task C F) × Epoller W C F) :=
  if types &&& type.mask ≠ 0 then triggle fd type p else some ([], p)

/-- Both directions in turn. -/
def triggleBoth (types : EpollMask) (fd : Nat) (p : Epoller W C F) :
    Option (List (W × Task C F) × Epoller W C F) := do
  let (first, p) ← triggleIf types fd .EPOLLIN p
  let (second, p) ← triggleIf types fd .EPOLLOUT p
  return (first ++ second, p)

/-- `handleAllEvent(fd)`: what it returns and whom it wakes. -/
def handleAllEvent (granted : CtlOp → Nat → Bool) (fd : Nat) (p : Epoller W C F) :
    Option (Bool × List (W × Task C F) × Epoller W C F) :=
  if p.Short fd then return (false, [], p)
  else match p.ioEvents[fd]? with
  | none => return (false, [], p)
  | some event =>
      if event.types = 0 then return (false, [], p)
      else match epoll_ctl granted .EPOLL_CTL_DEL fd 0 p.interest with
        | none => return (false, [], p)
        | some interest => do
            let (woken, p) ← triggleBoth event.types fd { p with interest := interest }
            return (true, woken, p)

/-- The directions a report is about: an error or a hangup counts as every
direction that is waited for. -/
def realEvents (types reported : EpollMask) : EpollMask :=
  let both := EventType.EPOLLIN.mask ||| EventType.EPOLLOUT.mask
  let events :=
    if reported &&& (EPOLLERR ||| EPOLLHUP) ≠ 0 then reported ||| (both &&& types) else reported
  events &&& both

/-- What `wait` does with one event the kernel has reported: `reported` is its
mask. A failure of `epoll_ctl` is logged and nothing more. -/
def handleReport (granted : CtlOp → Nat → Bool) (fd : Nat) (reported : EpollMask)
    (p : Epoller W C F) : Option (List (W × Task C F) × Epoller W C F) := do
  let event ← p.ioEvents[fd]?
  let real := realEvents event.types reported
  if event.types &&& real = 0 then return ([], p)
  let leftEvents := event.types &&& ~~~real
  let op := if leftEvents ≠ 0 then CtlOp.EPOLL_CTL_MOD else .EPOLL_CTL_DEL
  let interest := (epoll_ctl granted op fd (EPOLLET &&& leftEvents) p.interest).getD p.interest
  triggleBoth real fd { p with interest := interest }

end Epoller

end Reyao
