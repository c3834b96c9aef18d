import Reyao.Lib.OrderedSet
import Reyao.Lib.Run
import Mathlib.Algebra.Order.Ring.Int

/-!
# Timers (`timer.h`, `timer.cc`)

`timers_` is a `std::set` of shared pointers ordered by the expiry time of the
timers they point to and by address. The expiry time is mutable, so the order
of the set is a property of the whole heap and not of the set alone.

A pointer is the number of the timer in order of allocation; its address is a
field of the timer, chosen by the allocator. `F` is the type of the non-empty
`std::function` values. Every operation that holds the mutex is one function of
the manager's state, the clock reading `now` being an argument.
-/

namespace Reyao

open Lib

/-- Conversion to `int64_t`. -/
def toInt64 (i : Int) : Int := i.bmod (2 ^ 64)

structure Timer (F : Type) : Type where
  /-- What `get()` returns on a pointer to the timer. -/
  addr : Nat
  recursive : Bool := false
  interval : Int := 0
  expire : Int := 0
  func : Option F := none

/-- A non-null `Timer::SPtr`. -/
abbrev TimerPtr : Type := Nat

variable {F : Type}

/-- `Timer::Comparator`; `none` is a null pointer. -/
def Timer.Comparator (lhs rhs : Option (Timer F)) : Bool :=
  match lhs, rhs with
  | none, none => false
  | none, some _ => true
  | some _, none => false
  | some l, some r =>
      if l.expire < r.expire then true
      else if l.expire > r.expire then false
      else decide (l.addr < r.addr)

structure TimeManager (F : Type) : Type where
  /-- The timers allocated so far are those below `allocated`. -/
  heap : TimerPtr → Timer F
  allocated : Nat
  /-- `timers_`, in the order of its elements. -/
  timers : List TimerPtr
  needNotify : Bool
  /-- How often `timerInsertAtFront` was called. -/
  notified : Nat
  /-- What `LOG_ERROR` received. -/
  errors : List String

namespace TimeManager

/-- `TimeManager()`. -/
def init : TimeManager F where
  heap _ := { addr := 0 }
  allocated := 0
  timers := []
  needNotify := false
  notified := 0
  errors := []

/-- The comparator of `timers_` on pointers. -/
def before (m : TimeManager F) (a b : TimerPtr) : Bool :=
  Timer.Comparator (some (m.heap a)) (some (m.heap b))

def find (m : TimeManager F) (t : TimerPtr) : Option Nat := OrderedSet.find m.before t m.timers

/-- `timers_.insert(t)`. -/
def insert (t : TimerPtr) (m : TimeManager F) : TimeManager F :=
  { m with timers := OrderedSet.insert m.before t m.timers }

/-- `timers_.erase(it)`. -/
def erase (it : Nat) (m : TimeManager F) : TimeManager F :=
  { m with timers := m.timers.eraseIdx it }

/-- Change the timer behind a pointer. -/
def modify (t : TimerPtr) (f : Timer F → Timer F) (m : TimeManager F) : TimeManager F :=
  { m with heap := Function.update m.heap t (f (m.heap t)) }

/-- `addTimer(interval, func, recursive)` with any `std::function`, the empty one included;
`addr` is where the allocator puts the timer. -/
def addTimerOf (addr : Nat) (now interval : Int) (func : Option F) (recursive : Bool)
    (m : TimeManager F) : TimerPtr × TimeManager F :=
  let timer := m.allocated
  let m := { m with
    heap := Function.update m.heap timer
      { addr := addr, recursive := recursive, interval := interval,
        expire := toInt64 (now + interval), func := func }
    allocated := m.allocated + 1 }
  let atFront := OrderedSet.lowerBound m.before timer m.timers == 0
  let m := m.insert timer
  (timer, if atFront then { m with notified := m.notified + 1 } else m)

/-- `addTimer(interval, func, recursive)` with a function that can be called. -/
def addTimer (addr : Nat) (now interval : Int) (func : F) (recursive : Bool)
    (m : TimeManager F) : TimerPtr × TimeManager F :=
  m.addTimerOf addr now interval (some func) recursive

/-- `Timer::cancel()`. -/
def cancel (t : TimerPtr) (m : TimeManager F) : Bool × TimeManager F :=
  if (m.heap t).func.isSome then
    let m := m.modify t fun timer => { timer with func := none }
    match m.find t with
    | none => (false, { m with errors := m.errors ++ ["remove an unexisted timer"] })
    | some it => (true, m.erase it)
  else (false, m)

/-- `Timer::refresh()`. -/
def refresh (t : TimerPtr) (now : Int) (m : TimeManager F) : Bool × TimeManager F :=
  if (m.heap t).func.isNone then (false, m)
  else match m.find t with
    | none => (false, m)
    | some it =>
        let m := m.erase it
        let m := m.modify t fun timer =>
          { timer with expire := toInt64 (now + timer.interval) }
        (true, m.insert t)

/-- `Timer::reset(interval, fromNow)`. -/
def reset (t : TimerPtr) (interval : Int) (fromNow : Bool) (now : Int) (m : TimeManager F) :
    Bool × TimeManager F :=
  if (m.heap t).interval = interval ∧ fromNow = false then (true, m)
  else if (m.heap t).func.isNone then (false, m)
  else match m.find t with
    | none => (false, m)
    | some it =>
        let m := m.erase it
        let start := if fromNow then now
          else toInt64 ((m.heap t).expire - (m.heap t).interval)
        let m := m.modify t fun timer =>
          { timer with interval := interval, expire := toInt64 (start + interval) }
        let m := m.insert t
        let atFront := m.timers.head? == some t
        (true, if atFront then { m with needNotify := true, notified := m.notified + 1 } else m)

/-- `getExpire()`. -/
def getExpire (now : Int) (m : TimeManager F) : Int × TimeManager F :=
  let m := { m with needNotify := false }
  match m.timers with
  | [] => (-1, m)
  | first :: _ =>
      if now > (m.heap first).expire then (0, m)
      else (toInt64 ((m.heap first).expire - now), m)

/-- One turn of the loop over the expired timers: the function handed out, and
the timer re-armed or dropped. -/
def expireOne (now : Int) (t : TimerPtr) (m : TimeManager F) :
    (TimerPtr × Option F) × TimeManager F :=
  let out := (t, (m.heap t).func)
  if (m.heap t).recursive then
    let m := m.modify t fun timer => { timer with expire := toInt64 (now + timer.interval) }
    (out, m.insert t)
  else (out, m.modify t fun timer => { timer with func := none })

/-- The loop over the expired timers. -/
def expireAll (now : Int) :
    List TimerPtr → TimeManager F → List (TimerPtr × Option F) × TimeManager F
  | [], m => ([], m)
  | t :: ts, m =>
      let (out, m) := expireOne now t m
      let (outs, m) := expireAll now ts m
      (out :: outs, m)

/-- The iterator at which the expired timers end: `lower_bound` of a probe timer
at address `probe`, then past the timers that expire right now. -/
def expiredEnd (now : Int) (probe : Nat) (m : TimeManager F) : Nat :=
  let nowTimer : Timer F := { addr := probe, expire := now }
  let it := (m.timers.takeWhile fun t =>
    Timer.Comparator (some (m.heap t)) (some nowTimer)).length
  it + ((m.timers.drop it).takeWhile fun t => (m.heap t).expire == now).length

/-- `expiredFunctions(expired_funcs)`: the functions appended to its argument,
each with the timer it came from. -/
def expiredFunctions (now : Int) (probe : Nat) (m : TimeManager F) :
    List (TimerPtr × Option F) × TimeManager F :=
  if m.timers.isEmpty then ([], m)
  else
    let it := m.expiredEnd now probe
    let expiredTimers := m.timers.take it
    expireAll now expiredTimers { m with timers := m.timers.drop it }

/-- `hasTimer()`. -/
def hasTimer (m : TimeManager F) : Bool := !m.timers.isEmpty

end TimeManager

end Reyao
