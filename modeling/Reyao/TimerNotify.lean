import Reyao.Cxx
import Reyao.TimerExpiry
import Reyao.WorkerNotify

/-!
# Waking workers for a timer (`scheduler.cc`, `timer.cc`, `worker.cc`, `epoller.cc`)

The workers of a scheduler share its timers. A worker without tasks asks for the time to
the earliest timer, at most five seconds of which it spends in `epoll_wait`; when a timer is
put before all others, `timerInsertAtFront` writes to the eventfds of the workers that poll.

A call on the timers holds the mutex of the manager and is one step, with the notifications
it makes; the turns of a worker are steps of their own, so that a call can come between any
two of them. The clock is that of `GetCurrentMs` and of `epoll_wait`, and goes forward.
-/

namespace Reyao

open Lib

/-- Where a worker is, as far as its timeouts depend on it. -/
inductive PollPc : Type
  /-- In `run`, with `idle_` false. -/
  | busy
  /-- In `idle`, before `canStop`. -/
  | idle
  /-- In `wait`, before `polling_ = true`. -/
  | arm (timeout : Int)
  | enter (timeout : Int)
  | epoll_wait (timeout : Int) (deadline : Option Int)
  /-- `epoll_wait` has returned, with or without the eventfd. -/
  | returned (reported : Bool)
  | expired (reported : Bool)
  | handle (reported : Bool)
  /-- The idle coroutine has ended. -/
  | stopped
  deriving DecidableEq

namespace PollPc

/-- `idle_`, which only the worker itself writes. -/
def isIdle : PollPc → Bool
  | busy => false
  | stopped => false
  | _ => true

/-- `polling_`, which only the worker itself writes. -/
def polling : PollPc → Bool
  | enter _ => true
  | epoll_wait _ _ => true
  | returned _ => true
  | _ => false

end PollPc

def kMaxTimeout : Int := 5000

/-- The timeout `Epoller::wait` hands to `epoll_wait`. -/
def waitTimeout (timeout : Int) : Int :=
  if timeout ≠ -1 then
    if timeout > kMaxTimeout then kMaxTimeout else timeout
  else kMaxTimeout

/-- When `epoll_wait` returns at the latest; never with a negative timeout. -/
def epollDeadline (clock timeout : Int) : Option Int :=
  if timeout < 0 then none else some (clock + timeout)

/-- A wait with this deadline is over at the time `x`. -/
def endsBy (deadline : Option Int) (x : Int) : Bool := deadline.any fun d => decide (d ≤ x)

/-- The workers `W` of a scheduler and its timers. -/
structure TimedWorkers (W F : Type) : Type where
  manager : TimeManager F := .init
  clock : Int
  /-- `mainWorker_`, which runs in no thread of `threads_`. -/
  main : W
  /-- `threads_`, by their workers. -/
  threads : List W := []
  pc : W → PollPc := fun _ => .busy
  eventfd : W → Nat := fun _ => 0

inductive TimedLabel (W F : Type) : Type
  | tick
  /-- `init` stores a thread that it has started. -/
  | startThread (w : W)
  | addTimer (addr : Nat) (interval : Int) (func : Option F) (recursive : Bool)
  | cancel (t : TimerPtr)
  | refresh (t : TimerPtr)
  | reset (t : TimerPtr) (interval : Int) (fromNow : Bool)
  /-- `notify` from `addTask` or `stop`. -/
  | notify (w : W)
  | idle (w : W)
  /-- `canStop`; `quits` if the worker is to stop and has no task. -/
  | canStop (w : W) (quits : Bool)
  | arm (w : W)
  | enter (w : W)
  | wake (w : W) (reported : Bool)
  | interrupted (w : W)
  | disarm (w : W)
  | expire (w : W) (probe : Nat)
  | handle (w : W)

namespace TimedWorkers

variable {W F : Type} [DecidableEq W]

def setPc (s : TimedWorkers W F) (w : W) (pc : PollPc) : TimedWorkers W F :=
  { s with pc := Function.update s.pc w pc }

/-- `Epoller::notify()`. -/
def notify (s : TimedWorkers W F) (w : W) : TimedWorkers W F :=
  if (s.pc w).polling then
    { s with eventfd := Function.update s.eventfd w (Notice.bump (s.eventfd w)) }
  else s

/-- `timerInsertAtFront()`. -/
def timerInsertAtFront (s : TimedWorkers W F) : TimedWorkers W F :=
  s.threads.foldl (fun s w => if (s.pc w).isIdle then s.notify w else s) s

/-- A call on the timers, with the notifications it makes. -/
def call (s : TimedWorkers W F) (call : TimerCall F) : Option (TimedWorkers W F) :=
  if call.Enabled s.manager then
    let manager := call.exec s.manager
    let s' := { s with manager := manager }
    some (if s.manager.notified < manager.notified then s'.timerInsertAtFront else s')
  else none

def step (s : TimedWorkers W F) : TimedLabel W F → Option (TimedWorkers W F)
  | .tick => some { s with clock := s.clock + 1 }
  | .startThread w =>
      if w ≠ s.main ∧ w ∉ s.threads then some { s with threads := s.threads ++ [w] } else none
  | .addTimer addr interval func recursive =>
      s.call (.addTimer addr s.clock interval func recursive)
  | .cancel t => s.call (.other (.cancel t))
  | .refresh t => s.call (.other (.refresh t s.clock))
  | .reset t interval fromNow => s.call (.other (.reset t interval fromNow s.clock))
  | .notify w => some (s.notify w)
  | .idle w => if s.pc w = .busy then some (s.setPc w .idle) else none
  | .canStop w quits =>
      if s.pc w = .idle then
        let (timeout, manager) := s.manager.getExpire s.clock
        let s := { s with manager := manager }
        some (s.setPc w (if quits && timeout == -1 then .stopped else .arm (toInt timeout)))
      else none
  | .arm w =>
      match s.pc w with
      | .arm timeout => some (s.setPc w (.enter (waitTimeout timeout)))
      | _ => none
  | .enter w =>
      match s.pc w with
      | .enter timeout =>
          some (s.setPc w (.epoll_wait timeout (epollDeadline s.clock timeout)))
      | _ => none
  | .wake w reported =>
      match s.pc w with
      | .epoll_wait _ _ =>
          if reported = true → 0 < s.eventfd w then some (s.setPc w (.returned reported)) else none
      | _ => none
  | .interrupted w =>
      -- the loop of `wait` starts again with the timeout it has
      match s.pc w with
      | .epoll_wait timeout _ => some (s.setPc w (.enter (waitTimeout timeout)))
      | _ => none
  | .disarm w =>
      match s.pc w with
      | .returned reported => some (s.setPc w (.expired reported))
      | _ => none
  | .expire w probe =>
      match s.pc w with
      | .expired reported => do
          let s ← s.call (.other (.expiredFunctions s.clock probe))
          return s.setPc w (.handle reported)
      | _ => none
  | .handle w =>
      match s.pc w with
      | .handle reported =>
          let eventfd := if reported then Function.update s.eventfd w 0 else s.eventfd
          some ({ s with eventfd := eventfd }.setPc w .busy)
      | _ => none

/-- A scheduler whose workers have just started to run. -/
def start (main : W) (clock : Int) : TimedWorkers W F where
  main := main
  clock := clock

/-- The worker is in `epoll_wait` and its deadline has not come. -/
def Blocked (s : TimedWorkers W F) (w : W) (deadline : Option Int) : Prop :=
  ∃ timeout, s.pc w = .epoll_wait timeout deadline ∧ endsBy deadline s.clock = false

/-- If the earliest timer expires before the deadline of every worker that is blocked, one
of these has a readable eventfd. -/
def Notified (s : TimedWorkers W F) : Prop :=
  ∀ first, s.manager.timers.head? = some first → (∃ w d, s.Blocked w d) →
    (∀ w d, s.Blocked w d → endsBy d (s.manager.heap first).expire = false) →
    ∃ w d, s.Blocked w d ∧ 0 < s.eventfd w

end TimedWorkers

/-! ## What a call does to the timers -/

namespace TimeManager

variable {F : Type} {m m' : TimeManager F} {t : TimerPtr}

/-- The timers a call leaves: those that were there, and one it has put to expire at `e`. -/
def Leaves (m m' : TimeManager F) (e : Option Int) : Prop :=
  ∀ u ∈ m'.timers, (u ∈ m.timers ∧ (m'.heap u).expire = (m.heap u).expire) ∨
    e = some (m'.heap u).expire

/-- The call has told the scheduler of a timer that expires at `x`, or there is one that
expires no later. -/
def Told (m m' : TimeManager F) (x : Int) : Prop :=
  m.notified < m'.notified ∨ ∃ v ∈ m.timers, (m.heap v).expire ≤ x

theorem expire_le_of_not_before {a b : TimerPtr} (behind : m.before b a = false) :
    (m.heap a).expire ≤ (m.heap b).expire := by
  have order : ¬m.key b < m.key a := by
    rw [← m.before_iff, behind]
    exact Bool.false_ne_true
  exact Prod.Lex.monotone_fst _ _ (not_lt.mp order)

theorem before_asymm {a b : TimerPtr} (before : m.before a b = true) : m.before b a = false := by
  have order := (m.before_iff a b).mp before
  refine Bool.eq_false_of_not_eq_true fun after => ?_
  exact lt_asymm order ((m.before_iff b a).mp after)

/-- Nothing but the timer that is put comes into the set. -/
theorem mem_insert {u : TimerPtr} (member : u ∈ (m.insert t).timers) : u = t ∨ u ∈ m.timers := by
  change u ∈ OrderedSet.insert m.before t m.timers at member
  generalize m.timers = ts at member
  induction ts with
  | nil => exact Or.inl (List.mem_singleton.mp member)
  | cons y ys ih =>
      rw [OrderedSet.insert] at member
      split at member
      · rcases List.mem_cons.mp member with rfl | later
        · exact Or.inr List.mem_cons_self
        · exact (ih later).imp_right (List.mem_cons_of_mem y)
      · split at member
        · exact List.mem_cons.mp member
        · exact Or.inr member

/-- A timer that is not put first has one before it that expires no later. -/
theorem first_of_insert (behind : (m.insert t).timers.head? ≠ some t) :
    ∃ v ∈ m.timers, v ≠ t ∧ (m.heap v).expire ≤ (m.heap t).expire := by
  change (OrderedSet.insert m.before t m.timers).head? ≠ some t at behind
  cases members : m.timers with
  | nil =>
      rw [members] at behind
      exact absurd rfl behind
  | cons y ys =>
      rw [members, OrderedSet.insert] at behind
      split at behind
      · rename_i before
        exact ⟨y, List.mem_cons_self, fun same => behind (congrArg some same),
          expire_le_of_not_before (before_asymm before)⟩
      · split at behind
        · exact absurd rfl behind
        · rename_i after
          exact ⟨y, List.mem_cons_self, fun same => behind (congrArg some same),
            expire_le_of_not_before (Bool.eq_false_of_not_eq_true after)⟩

/-- A timer is put into a set whose other timers are as they were. -/
theorem leaves_insert {made : TimeManager F} (members : ∀ u ∈ made.timers, u ∈ m.timers)
    (others : ∀ u, u ≠ t → (made.heap u).expire = (m.heap u).expire) {x : Int}
    (expire : (made.heap t).expire = x) : m.Leaves (made.insert t) (some x) := by
  intro u member
  by_cases same : u = t
  · subst same
    exact Or.inr (congrArg some expire.symm)
  · exact Or.inl ⟨members u ((mem_insert member).resolve_left same), others u same⟩

theorem leaves_addTimerOf (addr : Nat) (now interval : Int) (func : Option F) (recursive : Bool) :
    m.Leaves (m.addTimerOf addr now interval func recursive).2 (some (toInt64 (now + interval))) ∧
      m.Told (m.addTimerOf addr now interval func recursive).2 (toInt64 (now + interval)) := by
  let made : TimeManager F := { m with
    heap := Function.update m.heap m.allocated
      { addr := addr, recursive := recursive, interval := interval,
        expire := toInt64 (now + interval), func := func }
    allocated := m.allocated + 1 }
  have others : ∀ u, u ≠ m.allocated → (made.heap u).expire = (m.heap u).expire := by
    intro u other
    change (Function.update m.heap m.allocated _ u).expire = (m.heap u).expire
    rw [Function.update_of_ne other]
  have expire : (made.heap m.allocated).expire = toInt64 (now + interval) := by
    change (Function.update m.heap m.allocated _ m.allocated).expire = _
    rw [Function.update_self]
  have members : ∀ u ∈ made.timers, u ∈ m.timers := fun u member => member
  have leaves : m.Leaves (made.insert m.allocated) (some (toInt64 (now + interval))) :=
    leaves_insert members others expire
  rw [TimeManager.addTimerOf]
  change m.Leaves (if OrderedSet.lowerBound made.before m.allocated m.timers == 0 then
      { made.insert m.allocated with notified := m.notified + 1 }
      else made.insert m.allocated) _ ∧
    m.Told (if OrderedSet.lowerBound made.before m.allocated m.timers == 0 then
      { made.insert m.allocated with notified := m.notified + 1 }
      else made.insert m.allocated) _
  split
  · exact ⟨leaves, Or.inl (Nat.lt_succ_self _)⟩
  · rename_i behind
    refine ⟨leaves, Or.inr ?_⟩
    cases there : m.timers with
    | nil =>
        rw [there] at behind
        exact absurd rfl behind
    | cons y ys =>
        have before : made.before y m.allocated = true := by
          by_contra after
          rw [there, OrderedSet.lowerBound, List.takeWhile_cons, if_neg after] at behind
          exact behind rfl
        have other : y ≠ m.allocated := by
          rintro rfl
          cases before.symm.trans (before_asymm before)
        refine ⟨y, List.mem_cons_self, ?_⟩
        rw [← others y other, ← expire]
        exact expire_le_of_not_before (before_asymm before)

/-- When the timer expires that `reset` puts back, if it does. -/
def resetExpire (m : TimeManager F) (t : TimerPtr) (interval : Int) (fromNow : Bool) (now : Int) :
    Option Int :=
  if (m.heap t).interval = interval ∧ fromNow = false then none
  else if (m.heap t).func.isNone ∨ (m.find t).isNone then none
  else some (toInt64
    ((if fromNow then now else toInt64 ((m.heap t).expire - (m.heap t).interval)) + interval))

/-- When the timer expires that `refresh` puts back, if it does. -/
def refreshExpire (m : TimeManager F) (t : TimerPtr) (now : Int) : Option Int :=
  if (m.heap t).func.isNone ∨ (m.find t).isNone then none
  else some (toInt64 (now + (m.heap t).interval))

theorem Leaves.refl (m : TimeManager F) (e : Option Int) : m.Leaves m e :=
  fun _ member => Or.inl ⟨member, rfl⟩

/-- A timer is taken out, changed and put back. -/
theorem leaves_rearm (it : Nat) (f : Timer F → Timer F) {x : Int}
    (expire : (f (m.heap t)).expire = x) :
    m.Leaves (((m.erase it).modify t f).insert t) (some x) := by
  refine leaves_insert (fun u member => (List.eraseIdx_sublist _ _).subset member)
    (fun u other => ?_) ?_
  · exact congrArg Timer.expire (heap_modify_of_ne other _ f)
  · exact (congrArg Timer.expire (heap_modify_same (m.erase it) t f)).trans expire

/-- As `reset` does it, which looks whether the timer stands first. -/
theorem leaves_front (it : Nat) (f : Timer F → Timer F) {x : Int}
    (expire : (f (m.heap t)).expire = x) {m₁ : TimeManager F}
    (moved : m₁ = ((m.erase it).modify t f).insert t) :
    m.Leaves (if m₁.timers.head? == some t then
        { m₁ with needNotify := true, notified := m₁.notified + 1 } else m₁) (some x) ∧
      m.Told (if m₁.timers.head? == some t then
        { m₁ with needNotify := true, notified := m₁.notified + 1 } else m₁) x := by
  have leaves : m.Leaves m₁ (some x) := by
    rw [moved]
    exact leaves_rearm it f expire
  split
  · refine ⟨leaves, Or.inl ?_⟩
    rw [moved]
    exact Nat.lt_succ_self _
  · rename_i behind
    rw [moved, beq_iff_eq] at behind
    obtain ⟨v, member, other, earlier⟩ := first_of_insert behind
    rw [heap_modify_of_ne other, heap_modify_same] at earlier
    exact ⟨leaves, Or.inr ⟨v, (List.eraseIdx_sublist _ _).subset member, expire ▸ earlier⟩⟩

theorem leaves_refresh (now : Int) : m.Leaves (m.refresh t now).2 (m.refreshExpire t now) := by
  rw [TimeManager.refresh, refreshExpire]
  by_cases dead : (m.heap t).func.isNone = true
  · rw [if_pos dead]
    exact Leaves.refl m _
  · rw [if_neg dead]
    cases found : m.find t with
    | none => exact Leaves.refl m _
    | some it =>
        rw [if_neg (by simpa using dead)]
        exact leaves_rearm it _ rfl

theorem leaves_reset (interval : Int) (fromNow : Bool) (now : Int) :
    m.Leaves (m.reset t interval fromNow now).2 (m.resetExpire t interval fromNow now) ∧
      ∀ x ∈ m.resetExpire t interval fromNow now,
        m.Told (m.reset t interval fromNow now).2 x := by
  rw [TimeManager.reset, resetExpire]
  by_cases same : (m.heap t).interval = interval ∧ fromNow = false
  · rw [if_pos same, if_pos same]
    exact ⟨Leaves.refl m _, fun x put => absurd put (Option.not_mem_none x)⟩
  · rw [if_neg same, if_neg same]
    by_cases dead : (m.heap t).func.isNone = true
    · rw [if_pos dead, if_pos (Or.inl dead)]
      exact ⟨Leaves.refl m _, fun x put => absurd put (Option.not_mem_none x)⟩
    · rw [if_neg dead]
      cases found : m.find t with
      | none =>
          rw [if_pos (Or.inr (Option.isNone_none))]
          exact ⟨Leaves.refl m _, fun x put => absurd put (Option.not_mem_none x)⟩
      | some it =>
          rw [if_neg (by simpa using dead)]
          obtain ⟨leaves, told⟩ := leaves_front (m := m) (t := t) it (fun timer =>
            { timer with interval := interval, expire := toInt64 ((if fromNow then now
              else toInt64 ((m.heap t).expire - (m.heap t).interval)) + interval) }) rfl rfl
          refine ⟨leaves, fun x put => ?_⟩
          cases put
          exact told

theorem leaves_cancel : m.Leaves (m.cancel t).2 none := by
  rw [TimeManager.cancel]
  split
  · have expires : ∀ u, ((m.modify t fun timer => { timer with func := none }).heap u).expire =
        (m.heap u).expire := by
      intro u
      by_cases same : u = t
      · subst same
        rw [heap_modify_same]
      · rw [heap_modify_of_ne same]
    simp only
    split
    · exact fun u member => Or.inl ⟨member, expires u⟩
    · exact fun u member => Or.inl ⟨(List.eraseIdx_sublist _ _).subset member, expires u⟩
  · exact Leaves.refl m _

/-- Nothing expires before its time. -/
theorem leaves_expiredFunctions (ordered : m.Ordered []) {now : Int} (probe : Nat)
    (later : ∀ u ∈ m.timers, now < (m.heap u).expire) :
    m.Leaves (m.expiredFunctions now probe).2 none := by
  obtain ⟨expired, m', done, expires, -⟩ := ordered.expires now probe
  have none_expired : ∀ u, u ∉ expired := by
    intro u member
    obtain ⟨there, due⟩ := (expires.exact u).mp member
    exact absurd (later u there) (not_lt.mpr due)
  rw [done]
  intro u member
  rcases (expires.members u).mp member with ⟨there, -⟩ | ⟨again, -⟩
  · exact Or.inl ⟨there, congrArg Timer.expire (expires.unchanged u (none_expired u))⟩
  · exact absurd again (none_expired u)

/-- No timer expires before the first. -/
theorem Ordered.first_le (ordered : m.Ordered []) {first : TimerPtr} {rest : List TimerPtr}
    (members : m.timers = first :: rest) :
    ∀ u ∈ m.timers, (m.heap first).expire ≤ (m.heap u).expire := by
  intro u member
  rw [members] at member
  rcases List.mem_cons.mp member with rfl | later
  · exact le_refl _
  · have sorted := ordered.sorted
    rw [members] at sorted
    have order := (List.pairwise_cons.mp sorted).1 u later
    exact Prod.Lex.monotone_fst _ _ order.le

end TimeManager

/-! ## Timeouts -/

theorem endsBy_some (d x : Int) : endsBy (some d) x = true ↔ d ≤ x := decide_eq_true_iff

theorem endsBy_mono {d : Option Int} {x y : Int} (ends : endsBy d x = true) (le : x ≤ y) :
    endsBy d y = true := by
  cases d with
  | none => cases ends
  | some d =>
      rw [endsBy_some] at ends ⊢
      exact le_trans ends le

theorem epollDeadline_of_nonneg {clock timeout : Int} (nonneg : 0 ≤ timeout) :
    epollDeadline clock timeout = some (clock + timeout) := if_neg (not_lt.mpr nonneg)

theorem waitTimeout_of_bounds {timeout : Int} (bounds : 0 ≤ timeout ∧ timeout ≤ kMaxTimeout) :
    waitTimeout timeout = timeout := by
  rw [waitTimeout, if_pos (by omega), if_neg (by omega)]

theorem waitTimeout_bounds {timeout : Int} (least : -1 ≤ timeout) :
    0 ≤ waitTimeout timeout ∧ waitTimeout timeout ≤ kMaxTimeout := by
  rw [waitTimeout, kMaxTimeout]
  split
  · split <;> omega
  · omega

/-- The conversions to `int64_t` and to `int` do not make a timeout longer. -/
theorem waitTimeout_le {left : Int} (nonneg : 0 ≤ left) :
    waitTimeout (toInt (toInt64 left)) ≤ left := by
  rw [toInt, toInt64, Int.bmod_def, Int.bmod_def, waitTimeout, kMaxTimeout]
  split
  · split <;> omega
  · omega

namespace PollPc

/-- The timeout of a worker on its way from `getExpire` to `epoll_wait`. -/
def gap : PollPc → Option Int
  | arm timeout => some (waitTimeout timeout)
  | enter timeout => some timeout
  | _ => none

/-- The timeout of a worker on its way to `epoll_wait` or in it. -/
def timeout : PollPc → Option Int
  | epoll_wait timeout _ => some timeout
  | pc => pc.gap

/-- The deadline of a worker in `epoll_wait`, or the one it has if it gets there right now. -/
def due (clock : Int) : PollPc → Option (Option Int)
  | epoll_wait _ deadline => some deadline
  | pc => pc.gap.map (epollDeadline clock)

end PollPc

namespace TimedWorkers

variable {W F : Type}

/-- The worker is, or will be, in `epoll_wait` until after the time `x`, and nobody has
notified it. -/
def late (s : TimedWorkers W F) (w : W) (x : Int) : Bool :=
  s.eventfd w == 0 &&
    ((s.pc w).due s.clock).any fun d => !endsBy d s.clock && !endsBy d x

/-- `timerInsertAtFront` notifies the worker. -/
def Reaches (s : TimedWorkers W F) (w : W) : Prop :=
  w ∈ s.threads ∧ (s.pc w).isIdle = true ∧ (s.pc w).polling = true

/-- What a step must find so that no worker sleeps past the earliest timer. -/
def InTime (s : TimedWorkers W F) : TimedLabel W F → Prop
  -- no time is lost between `getExpire` and `epoll_wait`
  | .tick => ∀ w, ∀ timeout ∈ (s.pc w).gap, 0 < s.eventfd w ∨ timeout = 0 ∨
      ∀ u ∈ s.manager.timers, s.clock + timeout < (s.manager.heap u).expire
  -- whoever sleeps past a timer that is put is notified
  | .addTimer _ interval _ _ =>
      ∀ w, s.late w (toInt64 (s.clock + interval)) = true → s.Reaches w
  | .reset t interval fromNow => ∀ x ∈ s.manager.resetExpire t interval fromNow s.clock,
      ∀ w, s.late w x = true → s.Reaches w
  | .refresh t => ∀ x ∈ s.manager.refreshExpire t s.clock, ∀ w, s.late w x = false
  -- the time left does not become negative as an `int`
  | .canStop _ _ => -1 ≤ toInt (s.manager.getExpire s.clock).1
  -- a wait does not start again that would not end in time
  | .interrupted w => ∀ timeout ∈ (s.pc w).timeout, 0 < s.eventfd w ∨ timeout = 0 ∨
      ∀ u ∈ s.manager.timers, s.clock + timeout ≤ (s.manager.heap u).expire
  | _ => True

instance [DecidableEq W] (s : TimedWorkers W F) (w : W) : Decidable (s.Reaches w) :=
  inferInstanceAs (Decidable (_ ∧ _ ∧ _))

instance [Fintype W] [DecidableEq W] (s : TimedWorkers W F) :
    (e : TimedLabel W F) → Decidable (s.InTime e)
  | .tick => inferInstanceAs (Decidable (∀ w, ∀ timeout ∈ (s.pc w).gap,
      0 < s.eventfd w ∨ timeout = 0 ∨
        ∀ u ∈ s.manager.timers, s.clock + timeout < (s.manager.heap u).expire))
  | .addTimer _ interval _ _ => inferInstanceAs (Decidable (∀ w,
      s.late w (toInt64 (s.clock + interval)) = true → s.Reaches w))
  | .reset t interval fromNow => inferInstanceAs (Decidable (
      ∀ x ∈ s.manager.resetExpire t interval fromNow s.clock,
        ∀ w, s.late w x = true → s.Reaches w))
  | .refresh t => inferInstanceAs (Decidable (
      ∀ x ∈ s.manager.refreshExpire t s.clock, ∀ w, s.late w x = false))
  | .canStop _ _ => inferInstanceAs (Decidable (-1 ≤ toInt _))
  | .interrupted w => inferInstanceAs (Decidable (∀ timeout ∈ (s.pc w).timeout,
      0 < s.eventfd w ∨ timeout = 0 ∨
        ∀ u ∈ s.manager.timers, s.clock + timeout ≤ (s.manager.heap u).expire))
  | .startThread _ | .cancel _ | .notify _ | .idle _ | .arm _ | .enter _ | .wake _ _ | .disarm _
  | .expire _ _ | .handle _ => inferInstanceAs (Decidable True)

/-- Nobody has to wake the worker, or somebody has. -/
def Ready (s : TimedWorkers W F) (w : W) (deadline : Option Int) : Prop :=
  0 < s.eventfd w ∨ endsBy deadline s.clock = true ∨
    ∀ u ∈ s.manager.timers, endsBy deadline (s.manager.heap u).expire = true

structure Inv (s : TimedWorkers W F) : Prop where
  ordered : s.manager.Ordered []
  timeouts : ∀ w, ∀ timeout ∈ (s.pc w).timeout, 0 ≤ timeout ∧ timeout ≤ kMaxTimeout
  ready : ∀ w, ∀ deadline ∈ (s.pc w).due s.clock, s.Ready w deadline

theorem inv_start (main : W) (clock : Int) : (start main clock : TimedWorkers W F).Inv := by
  refine ⟨TimeManager.held_init.ordered, fun w timeout none => ?_, fun w deadline none => ?_⟩
  · cases none
  · cases none

/-- The timers and the workers are as the property asks. -/
theorem Inv.notified {s : TimedWorkers W F} (inv : s.Inv) : s.Notified := by
  intro first members blocked earlier
  obtain ⟨w, d, timeout, here, waits⟩ := blocked
  have ready := inv.ready w d (by rw [here]; rfl)
  rcases ready with readable | past | ends
  · exact ⟨w, d, ⟨timeout, here, waits⟩, readable⟩
  · cases waits.symm.trans past
  · have late := earlier w d ⟨timeout, here, waits⟩
    cases late.symm.trans (ends first (List.mem_of_head? members))

/-! ## Steps -/

/-- Nobody who sleeps loses a notification. -/
theorem Inv.eventfd {s : TimedWorkers W F} (inv : s.Inv) {eventfd : W → Nat}
    (kept : ∀ w, (s.pc w).due s.clock ≠ none → 0 < s.eventfd w → 0 < eventfd w) :
    ({ s with eventfd := eventfd } : TimedWorkers W F).Inv := by
  refine ⟨inv.ordered, inv.timeouts, fun k deadline due => ?_⟩
  refine (inv.ready k deadline due).imp_left (kept k fun none => ?_)
  change (s.pc k).due s.clock = some deadline at due
  cases none.symm.trans due

/-- The clock moves on. -/
theorem Inv.tick {s : TimedWorkers W F} (inv : s.Inv) (in_time : s.InTime .tick) :
    ({ s with clock := s.clock + 1 } : TimedWorkers W F).Inv := by
  refine ⟨inv.ordered, inv.timeouts, fun w d due => ?_⟩
  change d ∈ (s.pc w).due (s.clock + 1) at due
  have gap : ∀ timeout, (s.pc w).gap = some timeout → (s.pc w).timeout = some timeout →
      d = epollDeadline (s.clock + 1) timeout →
      ({ s with clock := s.clock + 1 } : TimedWorkers W F).Ready w d := by
    intro timeout here waits same
    have bounds := inv.timeouts w timeout waits
    rw [epollDeadline_of_nonneg bounds.1] at same
    subst same
    refine (in_time w timeout here).imp_right (Or.imp (fun zero => ?_) fun later u member => ?_)
    · rw [endsBy_some]
      change s.clock + 1 + timeout ≤ s.clock + 1
      omega
    · rw [endsBy_some]
      have expires : s.clock + timeout < (s.manager.heap u).expire := later u member
      change s.clock + 1 + timeout ≤ (s.manager.heap u).expire
      omega
  cases here : s.pc w with
  | arm timeout =>
      rw [here] at due gap
      exact gap _ rfl rfl (Option.some.inj due).symm
  | enter timeout =>
      rw [here] at due gap
      exact gap _ rfl rfl (Option.some.inj due).symm
  | epoll_wait timeout deadline =>
      rw [here] at due
      have was := inv.ready w d (by rw [here]; exact due)
      refine was.imp_right (Or.imp_left fun past => endsBy_mono past ?_)
      change s.clock ≤ s.clock + 1
      omega
  | _ =>
      rw [here] at due
      cases due

/-- The timeout `getExpire` returns ends by the earliest timer, or at once. -/
theorem ready_getExpire {s : TimedWorkers W F} {w : W} (ordered : s.manager.Ordered [])
    (least : -1 ≤ toInt (s.manager.getExpire s.clock).1) :
    s.Ready w (epollDeadline s.clock (waitTimeout (toInt (s.manager.getExpire s.clock).1))) := by
  rw [epollDeadline_of_nonneg (waitTimeout_bounds least).1]
  right
  cases members : s.manager.timers with
  | nil =>
      right
      intro u member
      cases member
  | cons first rest =>
      have first_le := ordered.first_le members
      rw [TimeManager.getExpire]
      simp only [members]
      by_cases past : s.clock > (s.manager.heap first).expire
      · left
        rw [if_pos past, endsBy_some]
        have zero : waitTimeout (toInt 0) = 0 := rfl
        rw [zero]
        omega
      · right
        intro u member
        have left_le : waitTimeout (toInt (toInt64 ((s.manager.heap first).expire - s.clock))) ≤
            (s.manager.heap first).expire - s.clock := waitTimeout_le (by omega)
        have later := first_le u (members ▸ member)
        rw [if_neg past, endsBy_some]
        change s.clock + waitTimeout (toInt (toInt64 _)) ≤ _
        omega

section

variable [DecidableEq W] {s s' : TimedWorkers W F} {w : W}

/-- A worker goes on. -/
theorem Inv.setPc (inv : s.Inv) {pc : PollPc}
    (timeouts : ∀ timeout ∈ pc.timeout, 0 ≤ timeout ∧ timeout ≤ kMaxTimeout)
    (ready : ∀ deadline ∈ pc.due s.clock, s.Ready w deadline) : (s.setPc w pc).Inv := by
  refine ⟨inv.ordered, fun k timeout => ?_, fun k deadline => ?_⟩
  · change timeout ∈ (Function.update s.pc w pc k).timeout → _
    by_cases here : k = w
    · subst here
      rw [Function.update_self]
      exact timeouts timeout
    · rw [Function.update_of_ne here]
      exact inv.timeouts k timeout
  · change deadline ∈ (Function.update s.pc w pc k).due s.clock → _
    by_cases here : k = w
    · subst here
      rw [Function.update_self]
      exact ready deadline
    · rw [Function.update_of_ne here]
      exact inv.ready k deadline

/-- A worker goes where it has no timeout. -/
theorem Inv.setPc_awake (inv : s.Inv) {pc : PollPc} (timeouts : pc.timeout = none)
    (due : pc.due s.clock = none) : (s.setPc w pc).Inv := by
  refine inv.setPc (fun timeout member => ?_) fun deadline member => ?_
  · rw [timeouts] at member
    cases member
  · rw [due] at member
    cases member

/-- A worker goes on to `epoll_wait` with the timeout it has. -/
theorem Inv.setPc_same (inv : s.Inv) {pc : PollPc} (timeout : pc.timeout = (s.pc w).timeout)
    (due : pc.due s.clock = (s.pc w).due s.clock) : (s.setPc w pc).Inv := by
  refine inv.setPc ?_ ?_
  · rw [timeout]
    exact inv.timeouts w
  · rw [due]
    exact inv.ready w

theorem notify_spec (s : TimedWorkers W F) (w : W) :
    ∃ eventfd, s.notify w = { s with eventfd := eventfd } ∧
      (∀ k, 0 < s.eventfd k → 0 < eventfd k) ∧
      ((s.pc w).polling = true → 0 < eventfd w) := by
  rw [notify]
  split
  · refine ⟨_, rfl, fun k readable => ?_, fun _ => ?_⟩
    · by_cases here : k = w
      · subst here
        rw [Function.update_self]
        exact Notice.bump_pos _
      · rw [Function.update_of_ne here]
        exact readable
    · rw [Function.update_self]
      exact Notice.bump_pos _
  · rename_i quiet
    exact ⟨_, rfl, fun _ readable => readable, fun polls => absurd polls quiet⟩

/-- The loop of `timerInsertAtFront`. -/
theorem foldl_notify (threads : List W) (s : TimedWorkers W F) :
    ∃ eventfd, threads.foldl (fun s w => if (s.pc w).isIdle then s.notify w else s) s =
        { s with eventfd := eventfd } ∧
      (∀ k, 0 < s.eventfd k → 0 < eventfd k) ∧
      ∀ k ∈ threads, (s.pc k).isIdle = true → (s.pc k).polling = true → 0 < eventfd k := by
  induction threads generalizing s with
  | nil => exact ⟨s.eventfd, rfl, fun _ readable => readable, fun k member => by cases member⟩
  | cons w threads ih =>
      obtain ⟨middle, first, kept, reached⟩ : ∃ middle,
          (if (s.pc w).isIdle then s.notify w else s) = { s with eventfd := middle } ∧
          (∀ k, 0 < s.eventfd k → 0 < middle k) ∧
          ((s.pc w).isIdle = true → (s.pc w).polling = true → 0 < middle w) := by
        split
        · obtain ⟨eventfd, notified, kept, reached⟩ := s.notify_spec w
          exact ⟨eventfd, notified, kept, fun _ => reached⟩
        · rename_i busy
          exact ⟨s.eventfd, rfl, fun _ readable => readable, fun idle => absurd idle busy⟩
      obtain ⟨eventfd, rest, kept', reached'⟩ := ih { s with eventfd := middle }
      refine ⟨eventfd, ?_, fun k readable => kept' k (kept k readable), fun k member idle polls => ?_⟩
      · rw [List.foldl_cons, first, rest]
      · rcases List.mem_cons.mp member with rfl | later
        · exact kept' k (reached idle polls)
        · exact reached' k later idle polls

theorem timerInsertAtFront_spec (s : TimedWorkers W F) :
    ∃ eventfd, s.timerInsertAtFront = { s with eventfd := eventfd } ∧
      (∀ k, 0 < s.eventfd k → 0 < eventfd k) ∧ ∀ k, s.Reaches k → 0 < eventfd k := by
  obtain ⟨eventfd, notified, kept, reached⟩ := foldl_notify s.threads s
  exact ⟨eventfd, notified, kept, fun k reaches => reached k reaches.1 reaches.2.1 reaches.2.2⟩

/-- A call keeps the workers ready that are not notified otherwise, if it notifies those for
whom it puts a timer too early. -/
theorem Inv.call (inv : s.Inv) {call : TimerCall F} (ran : s.call call = some s')
    (keeps : ∀ w, ∀ d ∈ (s.pc w).due s.clock, s.eventfd w = 0 → endsBy d s.clock = false →
      (∀ u ∈ s.manager.timers, endsBy d (s.manager.heap u).expire = true) →
      (∀ u ∈ (call.exec s.manager).timers,
        endsBy d ((call.exec s.manager).heap u).expire = true) ∨
      (s.manager.notified < (call.exec s.manager).notified ∧ s.Reaches w)) : s'.Inv := by
  rw [TimedWorkers.call] at ran
  split at ran
  · rename_i enabled
    have ordered : (call.exec s.manager).Ordered [] := inv.ordered.call ⟨enabled, rfl⟩
    -- what the notifications leave
    obtain ⟨eventfd, rfl, kept, told⟩ : ∃ eventfd,
        s' = { s with manager := call.exec s.manager, eventfd := eventfd } ∧
        (∀ k, 0 < s.eventfd k → 0 < eventfd k) ∧
        (s.manager.notified < (call.exec s.manager).notified → ∀ k, s.Reaches k → 0 < eventfd k) := by
      have same := Option.some.inj ran
      rw [← same]
      split
      · obtain ⟨eventfd, notified, kept, reached⟩ :=
          timerInsertAtFront_spec { s with manager := call.exec s.manager }
        exact ⟨eventfd, notified, kept, fun _ => reached⟩
      · rename_i quiet
        exact ⟨s.eventfd, rfl, fun _ readable => readable, fun notified => absurd notified quiet⟩
    refine ⟨ordered, inv.timeouts, fun k d due => ?_⟩
    by_cases readable : 0 < s.eventfd k
    · exact Or.inl (kept k readable)
    · by_cases past : endsBy d s.clock = true
      · exact Or.inr (Or.inl past)
      · have ends := ((inv.ready k d due).resolve_left readable).resolve_left past
        rcases keeps k d due (by omega) (Bool.eq_false_of_not_eq_true past) ends with
          still | ⟨notified, reaches⟩
        · exact Or.inr (Or.inr still)
        · exact Or.inl (told notified k reaches)
  · cases ran

/-- A call that puts a timer. -/
theorem Inv.put (inv : s.Inv) {call : TimerCall F} (ran : s.call call = some s') {e : Option Int}
    (leaves : s.manager.Leaves (call.exec s.manager) e)
    (told : ∀ x ∈ e, ∀ w, s.late w x = true →
      s.Reaches w ∧ s.manager.Told (call.exec s.manager) x) : s'.Inv := by
  refine inv.call ran fun w d due unread waits ends => ?_
  by_cases still : ∀ u ∈ (call.exec s.manager).timers,
      endsBy d ((call.exec s.manager).heap u).expire = true
  · exact Or.inl still
  · push Not at still
    obtain ⟨u, member, early⟩ := still
    rcases leaves u member with ⟨there, same⟩ | put
    · rw [same] at early
      exact absurd (ends u there) early
    · have late : s.late w ((call.exec s.manager).heap u).expire = true := by
        rw [late, Option.mem_def.mp due, unread, Option.any_some, waits,
          Bool.eq_false_of_not_eq_true early]
        rfl
      obtain ⟨reaches, notified | ⟨v, there, no_later⟩⟩ := told _ put w late
      · exact Or.inr ⟨notified, reaches⟩
      · exact absurd (endsBy_mono (ends v there) no_later) early

theorem Inv.canStop (inv : s.Inv) {quits : Bool} (in_time : s.InTime (.canStop w quits))
    (ran : s.step (.canStop w quits) = some s') : s'.Inv := by
  simp only [step] at ran
  split at ran
  · cases ran
    have same : (s.manager.getExpire s.clock).2 = { s.manager with needNotify := false } := by
      rw [TimeManager.getExpire]
      simp only
      split
      · rfl
      · split <;> rfl
    have read : ({ s with manager := (s.manager.getExpire s.clock).2 } : TimedWorkers W F).Inv := by
      rw [same]
      exact ⟨inv.ordered.notify false s.manager.notified, inv.timeouts, inv.ready⟩
    have ready : ({ s with manager := (s.manager.getExpire s.clock).2 } : TimedWorkers W F).Ready w
        (epollDeadline s.clock (waitTimeout (toInt (s.manager.getExpire s.clock).1))) := by
      have ready : s.Ready w _ := ready_getExpire inv.ordered in_time
      rw [same]
      exact ready
    split
    · exact read.setPc_awake rfl rfl
    · refine read.setPc (fun timeout member => ?_) fun deadline member => ?_
      · cases member
        exact waitTimeout_bounds in_time
      · cases member
        exact ready
  · cases ran

theorem Inv.expire (inv : s.Inv) {probe : Nat} (ran : s.step (.expire w probe) = some s') :
    s'.Inv := by
  simp only [step] at ran
  split at ran
  · obtain ⟨t, called, same⟩ := Option.bind_eq_some_iff.mp ran
    cases same
    refine Inv.setPc_awake (inv.call called fun k d due unread waits ends => Or.inl ?_) rfl rfl
    -- nothing expires while somebody waits who is in time
    have later : ∀ u ∈ s.manager.timers, s.clock < (s.manager.heap u).expire := by
      intro u member
      by_contra past
      cases waits.symm.trans (endsBy_mono (ends u member) (not_lt.mp past))
    intro u member
    rcases TimeManager.leaves_expiredFunctions inv.ordered probe later u member with
      ⟨there, same⟩ | put
    · change endsBy d ((s.manager.expiredFunctions s.clock probe).2.heap u).expire = true
      rw [same]
      exact ends u there
    · cases put
  · cases ran

/-- Every step that is in time leaves the workers ready. -/
theorem Inv.step {e : TimedLabel W F} (inv : s.Inv) (in_time : s.InTime e)
    (ran : s.step e = some s') : s'.Inv := by
  cases e with
  | tick =>
      cases ran
      exact inv.tick in_time
  | startThread k =>
      simp only [TimedWorkers.step] at ran
      split at ran
      · cases ran
        exact ⟨inv.ordered, inv.timeouts, inv.ready⟩
      · cases ran
  | addTimer addr interval func recursive =>
      obtain ⟨leaves, told⟩ := TimeManager.leaves_addTimerOf (m := s.manager) addr s.clock
        interval func recursive
      refine inv.put ran leaves fun x put w late => ?_
      cases put
      exact ⟨in_time w late, told⟩
  | cancel t =>
      refine inv.put ran TimeManager.leaves_cancel fun x put => ?_
      cases put
  | refresh t =>
      refine inv.put ran (TimeManager.leaves_refresh s.clock) fun x put w late => ?_
      cases late.symm.trans (in_time x put w)
  | reset t interval fromNow =>
      obtain ⟨leaves, told⟩ := TimeManager.leaves_reset (m := s.manager) (t := t) interval fromNow
        s.clock
      exact inv.put ran leaves fun x put w late => ⟨in_time x put w late, told x put⟩
  | notify k =>
      cases ran
      obtain ⟨eventfd, notified, kept, -⟩ := s.notify_spec k
      rw [notified]
      exact inv.eventfd fun w _ => kept w
  | idle k =>
      simp only [TimedWorkers.step] at ran
      split at ran
      · cases ran
        exact inv.setPc_awake rfl rfl
      · cases ran
  | canStop k quits => exact inv.canStop in_time ran
  | arm k =>
      simp only [TimedWorkers.step] at ran
      split at ran
      · rename_i timeout here
        cases ran
        exact inv.setPc_same (by rw [here]; rfl) (by rw [here]; rfl)
      · cases ran
  | enter k =>
      simp only [TimedWorkers.step] at ran
      split at ran
      · rename_i timeout here
        cases ran
        exact inv.setPc_same (by rw [here]; rfl) (by rw [here]; rfl)
      · cases ran
  | wake k reported =>
      simp only [TimedWorkers.step] at ran
      split at ran
      · split at ran
        · cases ran
          exact inv.setPc_awake rfl rfl
        · cases ran
      · cases ran
  | interrupted k =>
      simp only [TimedWorkers.step] at ran
      split at ran
      · rename_i timeout deadline here
        cases ran
        have waits : (s.pc k).timeout = some timeout := by
          rw [here]
          rfl
        have bounds := inv.timeouts k timeout waits
        rw [waitTimeout_of_bounds bounds]
        refine inv.setPc (fun again member => ?_) fun again member => ?_
        · cases member
          exact bounds
        · cases member
          rw [epollDeadline_of_nonneg bounds.1]
          refine (in_time timeout waits).imp_right (Or.imp (fun zero => ?_) fun ends u there => ?_)
          · rw [endsBy_some]
            omega
          · rw [endsBy_some]
            exact ends u there
      · cases ran
  | disarm k =>
      simp only [TimedWorkers.step] at ran
      split at ran
      · cases ran
        exact inv.setPc_awake rfl rfl
      · cases ran
  | expire k probe => exact inv.expire ran
  | handle k =>
      simp only [TimedWorkers.step] at ran
      split at ran
      · rename_i reported here
        cases ran
        refine Inv.setPc_awake (inv.eventfd fun w sleeps readable => ?_) rfl rfl
        cases reported with
        | false => exact readable
        | true =>
            have other : w ≠ k := by
              rintro rfl
              rw [here] at sleeps
              exact sleeps rfl
            rw [if_pos rfl, Function.update_of_ne other]
            exact readable
      · cases ran

/-- **Nobody sleeps past the earliest timer.** In every run whose steps are in time, with any
number of workers: if the earliest timer expires before the deadline of every worker that is
blocked in `epoll_wait`, then one of these has been notified. -/
theorem earliest_timer_notifies {main : W} {clock : Int} {es : List (TimedLabel W F)}
    (run : Lib.Run (Lib.Guarded InTime (Lib.Steps TimedWorkers.step)) (start main clock) es s) :
    s.Notified :=
  (run.invariant (inv_start main clock) fun inv step => inv.step step.1 step.2).notified

end

/-! ### Runs of a scheduler with one thread -/

/-- A worker without tasks goes to sleep. -/
def fallsAsleep (w : Bool) : List (TimedLabel Bool Nat) :=
  [.idle w, .canStop w false, .arm w, .enter w]

/-- A timer for a scheduler whose thread sleeps, and whose main worker is busy. -/
def timerForThread : List (TimedLabel Bool Nat) :=
  .startThread true :: fallsAsleep true ++ [.addTimer 64 10 (some 1) false]

theorem timerForThread_notifies :
    ∃ s, Lib.Run (Lib.Guarded InTime (Lib.Steps TimedWorkers.step)) (start false 0)
        timerForThread s ∧
      s.Blocked true (some 5000) ∧ s.manager.timers = [0] ∧ (s.manager.heap 0).expire = 10 ∧
      0 < s.eventfd true ∧ s.Notified := by
  have ends : (Lib.exec (fun (s : TimedWorkers Bool Nat) e =>
      if s.InTime e then s.step e else none) (start false 0) timerForThread).map (fun s =>
        (s.pc true, s.clock, s.manager.timers, (s.manager.heap 0).expire, s.eventfd true)) =
      some (.epoll_wait 5000 (some 5000), 0, [0], 10, 1) := by
    decide
  obtain ⟨s, ran, left⟩ := Option.map_eq_some_iff.mp ends
  simp only [Prod.mk.injEq] at left
  obtain ⟨pc, clock, timers, expire, eventfd⟩ := left
  have run : Lib.Run (Lib.Guarded InTime (Lib.Steps TimedWorkers.step)) (start false 0)
      timerForThread s := by
    refine (Lib.run_of_exec ran).mono fun {s e t} (step : ite _ _ _ = some t) => ?_
    split at step
    · rename_i in_time
      exact ⟨in_time, step⟩
    · cases step
  have blocked : s.Blocked true (some 5000) := by
    refine ⟨5000, pc, ?_⟩
    rw [clock]
    rfl
  refine ⟨s, run, blocked, timers, expire, ?_, earliest_timer_notifies run⟩
  rw [eventfd]
  exact Nat.one_pos

/-- A timer while the main worker sleeps and the thread is busy. -/
def timerForMain : List (TimedLabel Bool Nat) :=
  .startThread true :: fallsAsleep false ++ [.addTimer 64 10 (some 1) false]

/-- A timer between `getExpire` and `polling_ = true` of the thread. -/
def timerInGap : List (TimedLabel Bool Nat) :=
  [.startThread true, .idle true, .canStop true false, .addTimer 64 10 (some 1) false, .arm true,
    .enter true]

/-- A signal interrupts the wait for a timer. -/
def interruptedWait : List (TimedLabel Bool Nat) :=
  [.startThread true, .addTimer 64 10 (some 1) false] ++ fallsAsleep true ++
    [.tick, .interrupted true, .enter true]

/-- The time to the timer is negative as an `int`. -/
def farTimer : List (TimedLabel Bool Nat) :=
  [.startThread true, .addTimer 64 (2 ^ 31) (some 1) false] ++ fallsAsleep true

/-- The only worker that sleeps is not notified. -/
theorem not_notified_of {es : List (TimedLabel Bool Nat)} (w : Bool) (timeout clock expire : Int)
    (deadline : Option Int)
    (ends : (Lib.exec TimedWorkers.step (start false 0) es).map (fun s => ((s.pc w, s.pc !w),
      s.clock, s.manager.timers, (s.manager.heap 0).expire, s.eventfd w)) =
      some ((.epoll_wait timeout deadline, .busy), clock, [0], expire, 0))
    (waits : endsBy deadline clock = false) (early : endsBy deadline expire = false) :
    ∃ s, Lib.Run (Lib.Steps TimedWorkers.step) (start false 0) es s ∧ ¬s.Notified := by
  obtain ⟨s, ran, left⟩ := Option.map_eq_some_iff.mp ends
  simp only [Prod.mk.injEq] at left
  obtain ⟨⟨pc, busy⟩, now, timers, expires, eventfd⟩ := left
  have only : ∀ k d, s.Blocked k d → k = w ∧ d = deadline := by
    rintro k d ⟨timeout, here, -⟩
    by_cases same : k = w
    · subst same
      rw [pc] at here
      cases here
      exact ⟨rfl, rfl⟩
    · rw [Bool.eq_not.mpr same, busy] at here
      cases here
  have blocked : s.Blocked w deadline := ⟨timeout, pc, by rwa [now]⟩
  refine ⟨s, Lib.run_of_exec ran, fun notified => ?_⟩
  obtain ⟨k, d, here, readable⟩ : ∃ k d, s.Blocked k d ∧ 0 < s.eventfd k := by
    refine notified 0 (by rw [timers]; rfl) ⟨w, deadline, blocked⟩ fun k d here => ?_
    rw [(only k d here).2, expires]
    exact early
  rw [(only k d here).1, eventfd] at readable
  exact absurd readable (Nat.lt_irrefl 0)

/-- `timerInsertAtFront` misses the main worker and a thread that is about to poll, and
nobody is told of a wait that is too long from the start or starts again. -/
theorem not_always_notified :
    (∃ s : TimedWorkers Bool Nat,
      Lib.Run (Lib.Steps TimedWorkers.step) (start false 0) timerForMain s ∧ ¬s.Notified) ∧
    (∃ s : TimedWorkers Bool Nat,
      Lib.Run (Lib.Steps TimedWorkers.step) (start false 0) timerInGap s ∧ ¬s.Notified) ∧
    (∃ s : TimedWorkers Bool Nat,
      Lib.Run (Lib.Steps TimedWorkers.step) (start false 0) interruptedWait s ∧ ¬s.Notified) ∧
    ∃ s : TimedWorkers Bool Nat,
      Lib.Run (Lib.Steps TimedWorkers.step) (start false 0) farTimer s ∧ ¬s.Notified := by
  refine ⟨?_, ?_, ?_, ?_⟩
  · exact not_notified_of false 5000 0 10 (some 5000) (by decide) rfl rfl
  · exact not_notified_of true 5000 0 10 (some 5000) (by decide) rfl rfl
  · exact not_notified_of true 10 1 10 (some 11) (by decide) rfl rfl
  · exact not_notified_of true (-2 ^ 31) 0 (2 ^ 31) none (by decide) rfl rfl

end TimedWorkers

end Reyao
