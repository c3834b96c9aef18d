import Reyao.EpollerSpec
import Reyao.Hook

/-!
# Where coroutines are

A coroutine that is not away is in one place: it runs on a worker, it is in the
queue of a worker, or it waits in the table of a poller. `Placed` says that it is
in one place only and that its own state fits the place. Steps move coroutines
from place to place.
-/

namespace Reyao

/-- Where a coroutine can be. -/
inductive Place (W : Type) : Type
  | queue (w : W)
  | running (w : W)
  | waiting (w : W) (fd : Nat) (type : EventType)

variable {W : Type}

/-- A coroutine that has been resumed and not suspended since. -/
def Pc.AtWork : Pc W → Prop
  | .away => False
  | .ready => False
  | .suspended _ _ => False
  | _ => True

/-- What a coroutine's own state says in each place. A call that runs or waits was
not cancelled. -/
def Pc.Fits (pc : Pc W) : Place W → Prop
  | .queue w => pc = .ready ∨ ∃ call timer, pc = .suspended call timer ∧ call.worker = w
  | .running w => pc.AtWork ∧
      ∀ call, pc.call? = some call → call.worker = w ∧ call.cancelled = none
  | .waiting w fd type => ∃ call timer, pc = .suspended call timer ∧ call.worker = w ∧
      call.fd = fd ∧ call.kind.type = type ∧ call.cancelled = none

namespace System

def At (s : System W) (c : Nat) : Place W → Prop
  | .queue w => .co c ∈ (s.workers w).tasks
  | .running w => (s.workers w).phase = .running c
  | .waiting w fd type => (s.workers w).poller.waiter fd type = some (.co c)

structure Placed (s : System W) : Prop where
  unique : ∀ {c : Nat} {p q : Place W}, s.At c p → s.At c q → p = q
  nodup : ∀ w, ((s.workers w).tasks.filterMap Task.co?).Nodup
  fits : ∀ {c : Nat} {p : Place W}, s.At c p → (s.coroutines c).pc.Fits p
  /-- Functions do not wait in a poller. -/
  coroutine : ∀ {w fd type task}, (s.workers w).poller.waiter fd type = some task →
    ∃ c, task = .co c

variable {s s' : System W} {w : W} {c : Nat}

/-- `c` goes to the place `q`, or away, and nobody else moves. -/
def Moves (s s' : System W) (c : Nat) (q : Option (Place W)) : Prop :=
  (∀ p, s'.At c p → q = some p) ∧ ∀ c', c' ≠ c → ∀ p, s'.At c' p → s.At c' p

/-- A move keeps everybody in one place. -/
theorem Placed.move (placed : s.Placed) {q : Option (Place W)} (moves : Moves s s' c q)
    (others : ∀ c', c' ≠ c → s'.coroutines c' = s.coroutines c')
    (fits : ∀ p, q = some p → (s'.coroutines c).pc.Fits p)
    (nodup : ∀ w, ((s'.workers w).tasks.filterMap Task.co?).Nodup)
    (coroutine : ∀ {w fd type task}, (s'.workers w).poller.waiter fd type = some task →
      ∃ c, task = .co c) : s'.Placed where
  unique {c' p q'} here there := by
    by_cases same : c' = c
    · subst same
      exact Option.some.inj ((moves.1 p here).symm.trans (moves.1 q' there))
    · exact placed.unique (moves.2 c' same p here) (moves.2 c' same q' there)
  nodup := nodup
  fits {c' p} here := by
    by_cases same : c' = c
    · subst same
      exact fits p (moves.1 p here)
    · rw [others c' same]
      exact placed.fits (moves.2 c' same p here)
  coroutine := coroutine

/-- A coroutine that runs, and what its state is then. -/
theorem Placed.running (placed : s.Placed) (running : (s.workers w).phase = .running c) :
    (s.coroutines c).pc.AtWork ∧
      ∀ call, s.InCall c call → call.worker = w ∧ call.cancelled = none :=
  placed.fits (p := .running w) running

theorem Placed.waiting (placed : s.Placed) {fd : Nat} {type : EventType}
    (waits : (s.workers w).poller.waiter fd type = some (.co c)) :
    ∃ call timer, (s.coroutines c).pc = .suspended call timer ∧ call.worker = w ∧
      call.fd = fd ∧ call.kind.type = type ∧ call.cancelled = none :=
  placed.fits (p := .waiting w fd type) waits

section

variable [DecidableEq W]

/-- Tasks for one worker go to the end of its queue. -/
theorem addTasks_eq_setTasks {tasks : List (W × Task Nat Callback)} (own : ∀ t ∈ tasks, t.1 = w) :
    s.addTasks tasks = s.setTasks w ((s.workers w).tasks ++ tasks.map Prod.snd) := by
  induction tasks generalizing s with
  | nil =>
      rw [List.map_nil, List.append_nil, setTasks, setWorker]
      change s = { s with workers := Function.update s.workers w (s.workers w) }
      rw [Function.update_eq_self]
  | cons task tasks ih =>
      have first : task.1 = w := own task List.mem_cons_self
      have ih := ih (s := s.setTasks w ((s.workers w).tasks ++ [task.2]))
        fun t member => own t (List.mem_cons_of_mem _ member)
      rw [addTasks, List.foldl_cons, first]
      refine ih.trans ?_
      simp only [setTasks, setWorker, Function.update_self, Function.update_idem, List.map_cons,
        List.append_assoc, List.cons_append, List.nil_append]

omit [DecidableEq W] in
theorem mem_filterMap_co? {tasks : List (Task Nat Callback)} :
    c ∈ tasks.filterMap Task.co? ↔ .co c ∈ tasks := by
  rw [List.mem_filterMap]
  constructor
  · rintro ⟨task, member, is⟩
    cases task with
    | co c' =>
        cases is
        exact member
    | func f => cases is
  · exact fun member => ⟨.co c, member, rfl⟩

omit [DecidableEq W] in
/-- Those who are woken are different from each other and from those in the queue. -/
theorem Placed.nodup_wake (placed : s.Placed) {fd : Nat} {which : EventType → Bool}
    {woken : List (W × Task Nat Callback)} {poller : Epoller W Nat Callback}
    (woke : Epoller.Woke w (s.workers w).poller fd which woken poller) :
    (((s.workers w).tasks ++ woken.map Prod.snd).filterMap Task.co?).Nodup := by
  have waits : ∀ {c}, c ∈ (woken.map Prod.snd).filterMap Task.co? →
      ∃ type, s.At c (.waiting w fd type) := by
    intro c member
    obtain ⟨type, -, waits⟩ := (woke.mem_tasks _).mp (mem_filterMap_co?.mp member)
    exact ⟨type, waits⟩
  have due_waits : ∀ {c type}, Epoller.due (s.workers w).poller fd which type = some (.co c) →
      s.At c (.waiting w fd type) := by
    intro c type is_due
    rw [Epoller.due] at is_due
    split at is_due
    · exact is_due
    · cases is_due
  have different : ((woken.map Prod.snd).filterMap Task.co?).Nodup := by
    rw [woke.tasks_eq, List.filterMap_append, List.nodup_append]
    have one : ∀ o : Option (Task Nat Callback), (o.toList.filterMap Task.co?).Nodup := by
      intro o
      cases o with
      | none => exact List.nodup_nil
      | some task =>
          cases task with
          | co c => exact List.pairwise_singleton _ _
          | func f => exact List.nodup_nil
    refine ⟨one _, one _, fun a reads b writes same => ?_⟩
    subst same
    have first := due_waits (Option.mem_toList.mp (mem_filterMap_co?.mp reads))
    have second := due_waits (Option.mem_toList.mp (mem_filterMap_co?.mp writes))
    cases placed.unique first second
  rw [List.filterMap_append, List.nodup_append]
  refine ⟨placed.nodup w, different, fun a queued b woken same => ?_⟩
  subst same
  obtain ⟨type, waiting⟩ := waits woken
  cases placed.unique (p := .queue w) (mem_filterMap_co?.mp queued) waiting

/-- Who waits after waking. -/
theorem waiter_wake {fd : Nat} {which : EventType → Bool}
    {woken : List (W × Task Nat Callback)} {poller : Epoller W Nat Callback}
    (woke : Epoller.Woke w (s.workers w).poller fd which woken poller) (v : W) (fd' : Nat)
    (type : EventType) :
    (((s.setPoller w poller).addTasks woken).workers v).poller.waiter fd' type =
      if v = w ∧ fd' = fd ∧ which type = true then none
      else (s.workers v).poller.waiter fd' type := by
  rw [addTasks_eq_setTasks woke.own, poller_setTasks, poller_setPoller]
  by_cases same : v = w
  · rw [if_pos same, woke.waiter_eq, same]
    simp only [true_and]
  · rw [if_neg same, if_neg fun all => same all.1]

theorem phase_wake {woken : List (W × Task Nat Callback)} {poller : Epoller W Nat Callback}
    (own : ∀ t ∈ woken, t.1 = w) (v : W) :
    (((s.setPoller w poller).addTasks woken).workers v).phase = (s.workers v).phase := by
  rw [addTasks_eq_setTasks own, phase_setTasks, phase_setPoller]

/-- Waking puts no function into a queue. -/
theorem Placed.func_of_wake (placed : s.Placed) {fd : Nat} {which : EventType → Bool}
    {woken : List (W × Task Nat Callback)} {poller : Epoller W Nat Callback}
    (woke : Epoller.Woke w (s.workers w).poller fd which woken poller) {v : W} {callback : Callback}
    (queued : .func callback ∈ (((s.setPoller w poller).addTasks woken).workers v).tasks) :
    .func callback ∈ (s.workers v).tasks := by
  rw [addTasks_eq_setTasks woke.own, tasks_setTasks, tasks_setPoller] at queued
  split at queued
  · rename_i same
    rw [same]
    rcases List.mem_append.mp queued with old | new
    · exact old
    · obtain ⟨type, -, waits⟩ := (woke.mem_tasks _).mp new
      obtain ⟨c, is⟩ := placed.coroutine waits
      cases is
  · rwa [tasks_setPoller] at queued

/-- Waking moves who waited into the queue of the worker. -/
theorem Placed.wake (placed : s.Placed) {fd : Nat} {which : EventType → Bool}
    {woken : List (W × Task Nat Callback)} {poller : Epoller W Nat Callback}
    (woke : Epoller.Woke w (s.workers w).poller fd which woken poller) :
    ((s.setPoller w poller).addTasks woken).Placed := by
  have phase : ∀ v, (((s.setPoller w poller).addTasks woken).workers v).phase =
      (s.workers v).phase := phase_wake woke.own
  have waiter := waiter_wake woke
  rw [addTasks_eq_setTasks woke.own, tasks_setPoller] at phase waiter ⊢
  generalize after : (s.setPoller w poller).setTasks w ((s.workers w).tasks ++
    woken.map Prod.snd) = s' at phase waiter ⊢
  -- who waits now has waited before, and was not woken
  have waits_before : ∀ {v fd' type task}, (s'.workers v).poller.waiter fd' type = some task →
      (s.workers v).poller.waiter fd' type = some task ∧
        ¬(v = w ∧ fd' = fd ∧ which type = true) := by
    intro v fd' type task waits
    rw [waiter] at waits
    split at waits
    · cases waits
    · rename_i other
      exact ⟨waits, other⟩
  -- everybody is where he was, but for those who were woken
  have before : ∀ {c p}, s'.At c p → s.At c p ∧
      (∀ type, which type = true → p ≠ .waiting w fd type) ∨
      p = .queue w ∧ ∃ type, which type = true ∧ s.At c (.waiting w fd type) := by
    intro c p here
    cases p with
    | queue v =>
        simp only [At] at here
        rw [← after, tasks_setTasks, tasks_setPoller] at here
        split at here
        · rename_i same
          rcases List.mem_append.mp here with old | new
          · exact Or.inl ⟨by rw [same]; exact old, by simp⟩
          · exact Or.inr ⟨by rw [same], (woke.mem_tasks _).mp new⟩
        · exact Or.inl ⟨here, by simp⟩
    | running v => exact Or.inl ⟨(phase v).symm.trans here, by simp⟩
    | waiting v fd' type =>
        obtain ⟨waited, other⟩ := waits_before here
        refine Or.inl ⟨waited, fun type' woken same => ?_⟩
        cases same
        exact other ⟨rfl, rfl, woken⟩
  refine ⟨fun {c p q} here there => ?_, fun v => ?_, fun {c p} here => ?_, fun waits =>
    placed.coroutine (waits_before waits).1⟩
  · rcases before here with ⟨old, stays⟩ | ⟨rfl, type, woken, waited⟩
    · rcases before there with ⟨old', -⟩ | ⟨rfl, type, woken, waited⟩
      · exact placed.unique old old'
      · exact absurd (placed.unique old waited) (stays type woken)
    · rcases before there with ⟨old', stays⟩ | ⟨rfl, -⟩
      · exact absurd (placed.unique old' waited) (stays type woken)
      · rfl
  · rw [← after, tasks_setTasks]
    split
    · exact placed.nodup_wake woke
    · rw [tasks_setPoller]
      exact placed.nodup v
  · have coroutines : s'.coroutines = s.coroutines := by rw [← after]; rfl
    rw [coroutines]
    rcases before here with ⟨old, -⟩ | ⟨rfl, type, -, waited⟩
    · exact placed.fits old
    · obtain ⟨call, timer, pc, own, -⟩ := placed.waiting waited
      exact Or.inr ⟨call, timer, pc, own⟩

end

end System

end Reyao
