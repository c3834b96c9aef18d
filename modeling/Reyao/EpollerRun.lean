import Mathlib.Algebra.Order.Group.Multiset
import Mathlib.Algebra.Order.Ring.Nat
import Reyao.EpollerMoves
import Reyao.Lib.Run

/-!
# Runs of a poller

The calls of the thread of a worker on its poller, in any order, with any answers
of the kernel. `wait` is one label for what `epoll_wait` returns and one for each
report it then handles.

`Kept` couples bits, contexts and `pendingEvents_`; every call keeps it, because
every call does nothing or replaces one event (`Effect`). The exception is an `addEvent` that
finds a table whose size is negative as an `int` and cuts waiters off (`CutsNobody`).
-/

namespace Reyao

variable {W C F : Type}

/-! ## The tasks of a table -/

/-- Replacing one entry. -/
theorem flatMap_set_perm {α β : Type} (f : α → List β) {l : List α} {i : Nat} {a : α}
    (at_i : l[i]? = some a) (b : α) :
    List.Perm ((l.set i b).flatMap f ++ f a) (l.flatMap f ++ f b) := by
  induction l generalizing i with
  | nil => cases at_i
  | cons x l ih =>
      cases i with
      | zero =>
          cases at_i
          simp only [List.set_cons_zero, List.flatMap_cons, List.append_assoc]
          refine List.perm_append_comm.trans ?_
          rw [← List.append_assoc]
          exact List.perm_append_comm.append_right _
      | succ i =>
          simp only [List.set_cons_succ, List.flatMap_cons, List.append_assoc]
          exact (ih at_i).append_left _

namespace IOEvent

/-- The tasks that wait for an event. -/
def tasks (event : IOEvent W C F) : List (Task C F) :=
  tasksOf fun type =>
    if event.types &&& type.mask = 0 then none else (event.getEventCtx type).task

theorem tasks_of {worker : W} {fd : Nat} {q : EventType → Option (Task C F)} :
    (IOEvent.of worker fd q).tasks = tasksOf q := by
  refine congrArg tasksOf (funext fun type => ?_)
  change (if maskOf q &&& type.mask = 0 then none else _) = _
  split
  · rename_i clear
    exact (maskOf_and_eq_zero.mp clear).symm
  · rw [Epoller.getEventCtx_of, EventCtx.task_of]

theorem tasks_new {fd : Nat} : ({ fd := fd } : IOEvent W C F).tasks = [] := by
  have clear : ∀ type : EventType, (0 : EpollMask) &&& type.mask = 0 := fun _ => BitVec.zero_and
  simp only [tasks, tasksOf, clear, if_true]
  rfl

end IOEvent

/-- The number of bits set in a mask. -/
def bitCount (types : EpollMask) : Nat := (List.range 32).countP types.getLsbD

theorem bitCount_maskOf {q : EventType → Option (Task C F)} :
    bitCount (maskOf q) = (tasksOf q).length := by
  rw [maskOf, tasksOf]
  cases q .EPOLLIN <;> cases q .EPOLLOUT <;> simp [EventType.mask, bitCount] <;> decide

namespace Epoller

/-- The tasks that wait in a table. -/
def tasks (p : Epoller W C F) : List (Task C F) := p.ioEvents.flatMap IOEvent.tasks

/-- The number of bits set in `types` over all events. -/
def typeBits (p : Epoller W C F) : Nat :=
  (p.ioEvents.map fun event => bitCount event.types).sum

variable {worker : W} {p p' : Epoller W C F} {fd : Nat} {type : EventType}
  {q : EventType → Option (Task C F)} {mask : Option EpollMask}

theorem Wf.of_mem (wf : p.Wf worker) {event : IOEvent W C F} (member : event ∈ p.ioEvents) :
    ∃ fd, event = IOEvent.of worker fd (p.waiter fd) := by
  obtain ⟨fd, at_fd⟩ := List.mem_iff_getElem?.mp member
  exact ⟨fd, wf fd event at_fd⟩

theorem length_tasks (wf : p.Wf worker) : p.tasks.length = p.typeBits := by
  rw [tasks, typeBits, List.length_flatMap]
  refine congrArg List.sum (List.map_congr_left fun event member => ?_)
  obtain ⟨fd, rfl⟩ := wf.of_mem member
  rw [IOEvent.tasks_of]
  exact bitCount_maskOf.symm

theorem length_tasksOf_le : (tasksOf q).length ≤ 2 := by
  rw [tasksOf]
  cases q .EPOLLIN <;> cases q .EPOLLOUT <;> simp

theorem length_tasks_le (p : Epoller W C F) : p.tasks.length ≤ 2 * p.ioEvents.length := by
  rw [tasks]
  induction p.ioEvents with
  | nil => exact Nat.le_refl _
  | cons event rest ih =>
      have here : event.tasks.length ≤ 2 := length_tasksOf_le
      rw [List.flatMap_cons, List.length_append, List.length_cons]
      omega

theorem tasks_resize (p : Epoller W C F) (size : Nat) :
    (p.resize size).tasks = (p.ioEvents.take size).flatMap IOEvent.tasks := by
  rw [tasks, Epoller.resize, List.flatMap_append, List.flatMap_map]
  have added : ∀ i ∈ List.range' p.ioEvents.length (size - p.ioEvents.length),
      ({ fd := i } : IOEvent W C F).tasks = [] := fun _ _ => IOEvent.tasks_new
  rw [List.flatMap_eq_nil_iff.mpr added, List.append_nil]

/-- The tasks in the part of the table that is kept and in the part that is cut off. -/
theorem tasks_cut (p : Epoller W C F) (size : Nat) :
    p.tasks = (p.resize size).tasks ++ (p.ioEvents.drop size).flatMap IOEvent.tasks := by
  rw [tasks_resize, ← List.flatMap_append, List.take_append_drop, tasks]

theorem tasks_eq_nil_iff (q : EventType → Option (Task C F)) :
    tasksOf q = [] ↔ ∀ type, q type = none := by
  rw [tasksOf, List.append_eq_nil_iff, Option.toList_eq_nil_iff, Option.toList_eq_nil_iff]
  constructor
  · rintro ⟨reads, writes⟩ type
    cases type with
    | EPOLLIN => exact reads
    | EPOLLOUT => exact writes
  · exact fun nobody => ⟨nobody _, nobody _⟩

/-- Tasks are cut off exactly when somebody waits there. -/
theorem uncut_iff (wf : p.Wf worker) (size : Nat) :
    p.Uncut size ↔ (p.ioEvents.drop size).flatMap IOEvent.tasks = [] := by
  rw [List.flatMap_eq_nil_iff]
  constructor
  · intro uncut event member
    obtain ⟨i, at_i⟩ := List.mem_iff_getElem?.mp member
    rw [List.getElem?_drop] at at_i
    rw [wf _ _ at_i, IOEvent.tasks_of, tasks_eq_nil_iff]
    exact uncut _ (Nat.le_add_right _ _)
  · intro nobody fd beyond
    cases there : p.ioEvents[fd]? with
    | none => exact fun type => congrFun (waiter_of_outside there) type
    | some event =>
        have member : event ∈ p.ioEvents.drop size := by
          refine List.mem_iff_getElem?.mpr ⟨fd - size, ?_⟩
          rwa [List.getElem?_drop, Nat.add_sub_cancel' beyond]
        have none := nobody event member
        rw [wf fd event there, IOEvent.tasks_of] at none
        exact (tasks_eq_nil_iff _).mp none

theorem tasks_grown (wf : p.Wf worker) (fits : p.Fits fd) : (p.grown fd).tasks = p.tasks := by
  rw [grown]
  split
  · rename_i short
    rw [tasks_cut p (fd * 3 / 2), (uncut_iff wf _).mp (fits short), List.append_nil]
  · rfl

/-- An `addEvent` that cuts somebody off leaves fewer tasks. -/
theorem tasks_grown_lt (wf : p.Wf worker) (cuts : ¬p.Fits fd) :
    (p.grown fd).tasks.length < p.tasks.length := by
  obtain ⟨short, cut⟩ := Classical.not_imp.mp cuts
  rw [uncut_iff wf] at cut
  have some_left := List.length_pos_iff.mpr cut
  rw [grown, if_pos short, tasks_cut p (fd * 3 / 2), List.length_append]
  omega

/-- Somebody other than the descriptor's waiters is lost. -/
theorem grown_loses (wf : p.Wf worker) (large : 2 ≤ fd) (cuts : ¬p.Fits fd) :
    ∃ lost ≠ fd, (∃ type, p.waiter lost type ≠ none) ∧
      ∀ type, (p.grown fd).waiter lost type = none := by
  obtain ⟨short, cut⟩ := Classical.not_imp.mp cuts
  obtain ⟨lost, beyond, type, somebody⟩ : ∃ lost, fd * 3 / 2 ≤ lost ∧
      ∃ type, p.waiter lost type ≠ none := by
    simpa [Uncut] using cut
  refine ⟨lost, by omega, ⟨type, somebody⟩, congrFun ?_⟩
  rw [grown, if_pos short, (wf.resize _).2, if_neg (Nat.not_lt.mpr beyond)]

theorem pending_grown (p : Epoller W C F) (fd : Nat) :
    (p.grown fd).pendingEvents = p.pendingEvents := by
  rw [grown]
  split
  · rfl
  · rfl

theorem interest_grown (p : Epoller W C F) (fd : Nat) : (p.grown fd).interest = p.interest := by
  rw [grown]
  split
  · rfl
  · rfl

/-- What a replaced event does to the tasks of the table. -/
theorem Moved.tasks_perm (wf : p.Wf worker) (moved : Moved worker p fd q mask p') :
    List.Perm (p'.tasks ++ tasksOf (p.waiter fd)) (p.tasks ++ tasksOf q) := by
  have event := List.getElem?_eq_getElem moved.inside
  rw [wf fd _ event] at event
  have replaced := flatMap_set_perm IOEvent.tasks event (IOEvent.of worker fd q)
  rw [IOEvent.tasks_of, IOEvent.tasks_of, ← moved.table] at replaced
  exact replaced

/-- `pendingEvents_` counts the tasks afterwards exactly when it did before. -/
theorem Moved.pending_iff (wf : p.Wf worker) (moved : Moved worker p fd q mask p') :
    p'.pendingEvents = UInt64.ofNat p'.tasks.length ↔
      p.pendingEvents = UInt64.ofNat p.tasks.length := by
  have perm := (moved.tasks_perm wf).length_eq
  rw [List.length_append, List.length_append] at perm
  have sums := congrArg UInt64.ofNat perm
  rw [UInt64.ofNat_add, UInt64.ofNat_add] at sums
  have pending := moved.pending
  constructor
  · intro counts
    rw [counts, sums] at pending
    exact ((UInt64.add_left_inj _).mp pending).symm
  · intro counts
    rw [counts, ← sums] at pending
    exact (UInt64.add_left_inj _).mp pending

/-! ## What every call keeps -/

/-- Bits, contexts and `pendingEvents_` agree, and the kernel knows of no direction
that nobody waits for. -/
structure Kept (worker : W) (p : Epoller W C F) : Prop where
  wf : p.Wf worker
  size : p.ioEvents.length ≤ 3 * 2 ^ 30
  pending : p.pendingEvents = UInt64.ofNat p.tasks.length
  covered : ∀ fd mask, p.interest fd = some mask → (∃ type, p.waiter fd type ≠ none) ∧
    ∀ type : EventType, mask &&& type.mask ≠ 0 → p.waiter fd type ≠ none

theorem Kept.empty (worker : W) : Kept worker ({} : Epoller W C F) := by
  refine ⟨wf_empty worker, Nat.zero_le _, rfl, ?_⟩
  intro fd mask registered
  cases registered

theorem length_grown_le (size : p.ioEvents.length ≤ 3 * 2 ^ 30) (small : fd < 2 ^ 31) :
    (p.grown fd).ioEvents.length ≤ 3 * 2 ^ 30 := by
  rw [Epoller.grown]
  split
  · rw [length_resize]
    omega
  · exact size

theorem Kept.grown (kept : Kept worker p) (small : fd < 2 ^ 31) (fits : p.Fits fd) :
    Kept worker (p.grown fd) := by
  have waiters := waiter_grown kept.wf fits
  refine ⟨grown_wf kept.wf fd, length_grown_le kept.size small, ?_, fun fd' mask registered => ?_⟩
  · rw [tasks_grown kept.wf fits, pending_grown, kept.pending]
  · rw [interest_grown] at registered
    rw [waiters]
    exact kept.covered fd' mask registered

/-- An interest only where somebody waits, and in no direction but those somebody
waits for. -/
def Covers (q : EventType → Option (Task C F)) (mask : Option EpollMask) : Prop :=
  ∀ bits, mask = some bits → (∃ type, q type ≠ none) ∧
    ∀ type : EventType, bits &&& type.mask ≠ 0 → q type ≠ none

theorem Moved.kept (kept : Kept worker p) (moved : Moved worker p fd q mask p')
    (covers : Covers q mask) : Kept worker p' := by
  obtain ⟨wf, waiters⟩ := moved.wf kept.wf
  have length : p'.ioEvents.length = p.ioEvents.length := by
    rw [moved.table, List.length_set]
  have size : p'.ioEvents.length ≤ 3 * 2 ^ 30 := length ▸ kept.size
  refine ⟨wf, size, (moved.pending_iff kept.wf).mpr kept.pending, fun fd' bits registered => ?_⟩
  · rw [waiters]
    rw [moved.interest_eq] at registered
    by_cases same : fd' = fd
    · subst same
      rw [Function.update_self] at registered
      rw [Function.update_self]
      exact covers bits registered
    · rw [Function.update_of_ne same] at registered
      rw [Function.update_of_ne same]
      exact kept.covered fd' bits registered

/-- What a call does: nothing to the waiters, or one event replaced. `left` is the
interest of a descriptor by the waiters it is left with, `bound` is above the descriptor the
table grows for, `added` is the task that has been registered. -/
inductive Effect (worker : W) (left : (EventType → Option (Task C F)) → Option EpollMask)
    (bound : Nat) (p : Epoller W C F) :
    List (Task C F) → Bool → List (W × Task C F) → Epoller W C F → Prop
  | same {returned : Bool} : Effect worker left bound p [] returned [] p
  | larger {fd : Nat} : fd < bound → p.Fits fd → Effect worker left bound p [] false [] (p.grown fd)
  | moved {p₀ p' : Epoller W C F} {fd : Nat} {q : EventType → Option (Task C F)}
      {added : List (Task C F)} {woken : List (W × Task C F)} :
    p₀ = p ∨ fd < bound ∧ p.Fits fd ∧ p₀ = p.grown fd → Moved worker p₀ fd q (left q) p' →
    List.Subperm (woken.map Prod.snd ++ tasksOf q) (tasksOf (p.waiter fd) ++ added) →
    Effect worker left bound p added true woken p'

section

variable {left : (EventType → Option (Task C F)) → Option EpollMask} {bound : Nat}
  {added : List (Task C F)} {returned : Bool} {woken : List (W × Task C F)}

theorem Kept.base (kept : Kept worker p) {p₀ : Epoller W C F}
    (base : p₀ = p ∨ fd < 2 ^ 31 ∧ p.Fits fd ∧ p₀ = p.grown fd) :
    Kept worker p₀ ∧ p₀.waiter = p.waiter ∧ p₀.tasks = p.tasks := by
  rcases base with rfl | ⟨small, fits, rfl⟩
  · exact ⟨kept, rfl, rfl⟩
  · exact ⟨kept.grown small fits, waiter_grown kept.wf fits, tasks_grown kept.wf fits⟩

theorem Effect.kept (kept : Kept worker p) (covers : ∀ q, Covers q (left q))
    (effect : Effect worker left (2 ^ 31) p added returned woken p') : Kept worker p' := by
  cases effect with
  | same => exact kept
  | larger small fits => exact kept.grown small fits
  | moved base moved _ => exact moved.kept (kept.base base).1 (covers _)

/-- What is handed out or still waits was waiting or has been registered. -/
theorem Effect.ledger (kept : Kept worker p)
    (effect : Effect worker left (2 ^ 31) p added returned woken p') :
    List.Subperm (woken.map Prod.snd ++ p'.tasks) (p.tasks ++ added) := by
  cases effect with
  | same =>
      rw [List.append_nil]
      exact List.Subperm.refl _
  | larger small fits =>
      rw [List.append_nil, tasks_grown kept.wf fits]
      exact List.Subperm.refl _
  | @moved _ _ fd _ _ _ base moved ledger =>
      obtain ⟨kept₀, waiters, tasks⟩ := kept.base base
      have perm := moved.tasks_perm kept₀.wf
      rw [waiters, tasks] at perm
      rw [← Multiset.coe_le] at ledger ⊢
      rw [← Multiset.coe_eq_coe] at perm
      simp only [← Multiset.coe_add] at ledger perm ⊢
      refine le_of_add_le_add_right (a := (tasksOf (p.waiter fd) : Multiset (Task C F))) ?_
      rw [add_assoc, perm, add_left_comm, add_assoc, add_comm (added : Multiset (Task C F))]
      exact add_le_add_right ledger _

/-- A table that grows for low descriptors only stays short. -/
theorem Effect.small (small : p.ioEvents.length < 2 ^ 31) (low : (bound - 1) * 3 / 2 < 2 ^ 31)
    (effect : Effect worker left bound p added returned woken p') :
    p'.ioEvents.length < 2 ^ 31 := by
  have grown : ∀ fd < bound, (p.grown fd).ioEvents.length < 2 ^ 31 := by
    intro fd below
    rw [Epoller.grown]
    split
    · rw [length_resize]
      omega
    · exact small
  cases effect with
  | same => exact small
  | larger below _ => exact grown _ below
  | moved base moved _ =>
      rw [moved.table, List.length_set]
      rcases base with rfl | ⟨below, -, rfl⟩
      · exact small
      · exact grown _ below

end

end Epoller

/-! ## Calls -/

/-- The calls on a poller. -/
inductive PollCall (C F : Type) : Type
  | addEvent (granted : CtlOp → Nat → Bool) (waiter : Task C F) (fd : Nat) (type : EventType)
  | delEvent (granted : CtlOp → Nat → Bool) (fd : Nat) (type : EventType)
  | handleEvent (granted : CtlOp → Nat → Bool) (fd : Nat) (type : EventType)
  | handleAllEvent (granted : CtlOp → Nat → Bool) (fd : Nat)
  /-- `wait`, up to the return of `epoll_wait`. -/
  | epoll_wait (reports : List (Nat × EpollMask))
  /-- The next round of the loop of `wait`. -/
  | report

namespace PollCall

/-- The kernel refuses nothing the call asks for. -/
def Granted : PollCall C F → Prop
  | .addEvent granted _ _ _ => ∀ op fd, granted op fd = true
  | .delEvent granted _ _ => ∀ op fd, granted op fd = true
  | .handleEvent granted _ _ => ∀ op fd, granted op fd = true
  | .handleAllEvent granted _ => ∀ op fd, granted op fd = true
  | .epoll_wait _ => True
  | .report => True

/-- The descriptor that `addEvent` is called on is below a bound. -/
def Below (bound : Nat) : PollCall C F → Prop
  | .addEvent _ _ fd _ => fd < bound
  | _ => True

/-- The task a call has registered. -/
def added (returned : Bool) : PollCall C F → List (Task C F)
  | .addEvent _ waiter _ _ => if returned then [waiter] else []
  | _ => []

/-- The interest a call leaves a descriptor with the waiters `q`. -/
def left (q : EventType → Option (Task C F)) : PollCall C F → Option EpollMask
  | .report => if maskOf q = 0 then none else some 0
  | _ => armedMask q

end PollCall

/-- A poller and the reports `wait` has not handled yet. -/
structure Polling (W C F : Type) : Type where
  poller : Epoller W C F := {}
  reports : List (Nat × EpollMask) := []

namespace Polling

/-- What a call returns, what it adds to the task queues and what it leaves. `wait`
returns nothing. -/
def call (worker : W) (s : Polling W C F) :
    PollCall C F → Option (Bool × List (W × Task C F) × Polling W C F)
  | .addEvent granted waiter fd type => do
      let (added, p) ← s.poller.addEvent granted worker waiter fd type
      return (added, [], { s with poller := p })
  | .delEvent granted fd type =>
      let (deleted, p) := s.poller.delEvent granted fd type
      some (deleted, [], { s with poller := p })
  | .handleEvent granted fd type => do
      let (handled, woken, p) ← s.poller.handleEvent granted fd type
      return (handled, woken, { s with poller := p })
  | .handleAllEvent granted fd => do
      let (handled, woken, p) ← s.poller.handleAllEvent granted fd
      return (handled, woken, { s with poller := p })
  | .epoll_wait reports => some (true, [], { s with reports := reports })
  | .report =>
      match s.reports with
      | [] => none
      | (fd, reported) :: rest => do
          let (woken, p) ← s.poller.handleReport (fun _ _ => true) fd reported
          return (true, woken, { poller := p, reports := rest })

/-- A report has bits of the mask last set for the descriptor, an error or a hangup. -/
def Reportable (p : Epoller W C F) (report : Nat × EpollMask) : Prop :=
  ∃ mask, p.interest report.1 = some mask ∧
    report.2 &&& ~~~(mask ||| EPOLLERR ||| EPOLLHUP) = 0

instance (p : Epoller W C F) (report : Nat × EpollMask) : Decidable (Reportable p report) :=
  decidable_of_iff ((p.interest report.1).any fun mask =>
    decide (report.2 &&& ~~~(mask ||| EPOLLERR ||| EPOLLHUP) = 0))
    (by simp [Reportable, Option.any_eq_true])

/-- The calls there can be: `wait` handles its reports before it returns, and the
kernel reports a descriptor once. -/
def Allowed (s : Polling W C F) : PollCall C F → Prop
  | .addEvent _ _ fd _ => s.reports = [] ∧ 2 ≤ fd ∧ fd < 2 ^ 31
  | .delEvent _ fd _ => s.reports = [] ∧ 2 ≤ fd ∧ fd < 2 ^ 31
  | .handleEvent _ fd _ => s.reports = [] ∧ 2 ≤ fd ∧ fd < 2 ^ 31
  | .handleAllEvent _ fd => s.reports = [] ∧ 2 ≤ fd ∧ fd < 2 ^ 31
  | .epoll_wait reports => s.reports = [] ∧ (reports.map Prod.fst).Nodup ∧
      ∀ report ∈ reports, Reportable s.poller report
  | .report => s.reports ≠ []

instance (s : Polling W C F) : (c : PollCall C F) → Decidable (s.Allowed c)
  | .addEvent _ _ _ _ => inferInstanceAs (Decidable (_ ∧ _))
  | .delEvent _ _ _ => inferInstanceAs (Decidable (_ ∧ _))
  | .handleEvent _ _ _ => inferInstanceAs (Decidable (_ ∧ _))
  | .handleAllEvent _ _ => inferInstanceAs (Decidable (_ ∧ _))
  | .epoll_wait _ => inferInstanceAs (Decidable (_ ∧ _ ∧ _))
  | .report => inferInstanceAs (Decidable (_ ≠ _))

/-- No slot somebody waits in is cut off by the `resize` of `addEvent`. -/
def CutsNobody (s : Polling W C F) : PollCall C F → Prop
  | .addEvent _ _ fd _ => s.poller.Fits fd
  | _ => True

/-- A call with what it returned and whom it woke. -/
structure Event (W C F : Type) : Type where
  call : PollCall C F
  returned : Bool
  woken : List (W × Task C F)

/-- A call that can be made. -/
def Step (worker : W) (s : Polling W C F) (e : Event W C F) (s' : Polling W C F) : Prop :=
  s.Allowed e.call ∧ s.call worker e.call = some (e.returned, e.woken, s')

/-- Calls in turn. -/
def runCalls (worker : W) (s : Polling W C F) :
    List (PollCall C F) → Option (List (Event W C F) × Polling W C F)
  | [] => some ([], s)
  | c :: calls =>
      if s.Allowed c then do
        let (returned, woken, s) ← s.call worker c
        let (es, s) ← runCalls worker s calls
        return (⟨c, returned, woken⟩ :: es, s)
      else none

variable {worker : W} {s s' : Polling W C F} {c : PollCall C F} {e : Event W C F}

theorem run_of_runCalls {calls : List (PollCall C F)} {es : List (Event W C F)}
    (ran : s.runCalls worker calls = some (es, s')) :
    Lib.Run (Step worker) s es s' ∧ es.map Event.call = calls := by
  induction calls generalizing s es with
  | nil =>
      cases ran
      exact ⟨Lib.Run.nil _, rfl⟩
  | cons c calls ih =>
      rw [runCalls] at ran
      split at ran
      · rename_i allowed
        obtain ⟨⟨returned, woken, t⟩, called, ran⟩ := Option.bind_eq_some_iff.mp ran
        obtain ⟨⟨rest, u⟩, later, ran⟩ := Option.bind_eq_some_iff.mp ran
        cases ran
        obtain ⟨run, calls⟩ := ih later
        exact ⟨Lib.Run.cons ⟨allowed, called⟩ run, congrArg (c :: ·) calls⟩
      · cases ran

/-- What every call keeps. -/
structure Kept (worker : W) (s : Polling W C F) : Prop where
  poller : Epoller.Kept worker s.poller
  nodup : (s.reports.map Prod.fst).Nodup
  reportable : ∀ report ∈ s.reports, Reportable s.poller report

theorem inside_of_waiter {p : Epoller W C F} {fd : Nat} {type : EventType}
    (somebody : p.waiter fd type ≠ none) : fd < p.ioEvents.length := by
  refine Nat.lt_of_not_le fun outside => somebody ?_
  rw [Epoller.waiter_of_outside (List.getElem?_eq_none outside)]

theorem reported_waits (kept : Epoller.Kept worker s.poller) {report : Nat × EpollMask}
    (reportable : Reportable s.poller report) :
    report.1 < s.poller.ioEvents.length ∧
      ∀ type : EventType, report.2 &&& type.mask ≠ 0 → s.poller.waiter report.1 type ≠ none := by
  obtain ⟨mask, registered, bits⟩ := reportable
  obtain ⟨⟨type, somebody⟩, waits⟩ := kept.covered _ _ registered
  refine ⟨inside_of_waiter somebody, fun type bit => waits type ?_⟩
  rw [and_mask_ne_zero] at bit ⊢
  have here := congrArg (BitVec.getLsbD · type.bit) bits
  have small : type.bit < 32 ∧ EPOLLERR.getLsbD type.bit = false ∧
      EPOLLHUP.getLsbD type.bit = false := by
    cases type with
    | EPOLLIN => decide
    | EPOLLOUT => decide
  simp only [BitVec.getLsbD_and, BitVec.getLsbD_not, BitVec.getLsbD_or, bit, small.1, small.2.1,
    small.2.2, decide_true, Bool.true_and, Bool.or_false] at here
  cases set : mask.getLsbD type.bit with
  | true => rfl
  | false =>
      rw [set, BitVec.ofNat_eq_ofNat, BitVec.getLsbD_zero] at here
      cases here

/-- The tasks of one direction. -/
theorem tasksOf_perm (q : EventType → Option (Task C F)) (type : EventType) :
    List.Perm (tasksOf q) ((q type).toList ++ tasksOf (Function.update q type none)) := by
  cases type with
  | EPOLLIN => simp [tasksOf]
  | EPOLLOUT =>
      simp only [tasksOf, Function.update_self, Option.toList_none, List.append_nil]
      exact List.perm_append_comm

theorem tasksOf_split (types : EpollMask) (q : EventType → Option (Task C F)) :
    List.Perm (tasksOf (Epoller.taken types q) ++ tasksOf (Epoller.untaken types q))
      (tasksOf q) := by
  simp only [tasksOf, Epoller.taken, Epoller.untaken]
  split
  · split
    · simp
    · simp
  · split
    · simp only [Option.toList_none, List.nil_append, List.append_nil]
      exact List.perm_append_comm
    · simp

theorem armedMask_nobody : armedMask (fun _ => none : EventType → Option (Task C F)) = none :=
  if_pos (maskOf_eq_zero.mpr fun _ => rfl)

theorem map_snd_woken (tasks : List (Task C F)) :
    (tasks.map fun task => (worker, task)).map Prod.snd = tasks := by
  rw [List.map_map]
  exact List.map_id _

/-- A round of the loop of `wait`. -/
theorem call_report {report : Nat × EpollMask} {rest : List (Nat × EpollMask)}
    (reports : s.reports = report :: rest) {woken : List (W × Task C F)} {p' : Epoller W C F}
    (ran : s.poller.handleReport (fun _ _ => true) report.1 report.2 = some (woken, p')) :
    s.call worker .report = some (true, woken, { poller := p', reports := rest }) := by
  simp only [call, reports, ran]
  rfl

theorem Allowed.below (allowed : s.Allowed c) : c.Below (2 ^ 31) := by
  cases c with
  | addEvent _ _ _ _ => exact allowed.2.2
  | _ => trivial

theorem call_effect (kept : s.Kept worker) (allowed : s.Allowed c) (cuts : s.CutsNobody c)
    {bound : Nat} (below : c.Below bound) :
    ∃ returned woken s', s.call worker c = some (returned, woken, s') ∧
      Epoller.Effect worker c.left bound s.poller (c.added returned) returned woken s'.poller := by
  have wf := kept.poller.wf
  cases c with
  | addEvent granted waiter fd type =>
      rcases Epoller.addEvent_moves wf granted waiter allowed.2.1 type with
        ran | ⟨p', ran, free, -, moved⟩
      · exact ⟨false, [], _, Option.bind_eq_some_iff.mpr ⟨_, ran, rfl⟩,
          Epoller.Effect.larger below cuts⟩
      · refine ⟨true, [], _, Option.bind_eq_some_iff.mpr ⟨_, ran, rfl⟩,
          Epoller.Effect.moved (Or.inr ⟨below, cuts, rfl⟩) moved ?_⟩
        refine (List.Perm.trans (tasksOf_perm _ type) ?_).subperm
        rw [Function.update_self, Function.update_idem, ← free, Function.update_eq_self]
        exact List.perm_append_comm
  | delEvent granted fd type =>
      rcases Epoller.delEvent_moves wf granted fd type with ran | ⟨task, p', ran, -, moved⟩
      · exact ⟨false, [], s, by simp only [call, ran], Epoller.Effect.same⟩
      · refine ⟨true, [], { s with poller := p' }, by simp only [call, ran],
          Epoller.Effect.moved (Or.inl rfl) moved ?_⟩
        refine List.Subperm.trans (List.sublist_append_right _ _).subperm
          (List.Perm.trans (tasksOf_perm (s.poller.waiter fd) type).symm ?_).subperm
        exact (List.append_nil _).symm ▸ List.Perm.refl _
  | handleEvent granted fd type =>
      rcases Epoller.handleEvent_moves wf granted fd type with ran | ⟨task, p', ran, waits, moved⟩
      · exact ⟨false, [], s, Option.bind_eq_some_iff.mpr ⟨_, ran, rfl⟩, Epoller.Effect.same⟩
      · refine ⟨true, _, _, Option.bind_eq_some_iff.mpr ⟨_, ran, rfl⟩,
          Epoller.Effect.moved (Or.inl rfl) moved ?_⟩
        have perm := tasksOf_perm (s.poller.waiter fd) type
        rw [waits, ← List.append_nil (tasksOf (s.poller.waiter fd))] at perm
        exact perm.symm.subperm
  | handleAllEvent granted fd =>
      rcases Epoller.handleAllEvent_moves wf granted fd with ran | ⟨p', ran, moved⟩
      · exact ⟨false, [], s, Option.bind_eq_some_iff.mpr ⟨_, ran, rfl⟩, Epoller.Effect.same⟩
      · rw [← armedMask_nobody] at moved
        refine ⟨true, _, _, Option.bind_eq_some_iff.mpr ⟨_, ran, rfl⟩,
          Epoller.Effect.moved (Or.inl rfl) moved ?_⟩
        rw [map_snd_woken]
        exact List.Subperm.refl _
  | epoll_wait reports => exact ⟨true, [], _, rfl, Epoller.Effect.same⟩
  | report =>
      cases reports : s.reports with
      | nil => exact absurd reports allowed
      | cons report rest =>
          obtain ⟨inside, waits⟩ := reported_waits kept.poller
            (kept.reportable report (by rw [reports]; exact List.mem_cons_self))
          rcases Epoller.handleReport_moves wf inside waits with ⟨-, ran⟩ | ⟨-, p', ran, moved⟩
          · exact ⟨true, [], _, call_report reports ran, Epoller.Effect.same⟩
          · refine ⟨true, _, _, call_report reports ran,
              Epoller.Effect.moved (Or.inl rfl) moved ?_⟩
            rw [map_snd_woken]
            refine (List.Perm.trans (tasksOf_split _ _) ?_).subperm
            exact (List.append_nil _).symm ▸ List.Perm.refl _

/-- A call that can be made has a result, whether it cuts somebody off or not. -/
theorem call_isSome (kept : s.Kept worker) (allowed : s.Allowed c) :
    (s.call worker c).isSome := by
  by_cases cuts : s.CutsNobody c
  · obtain ⟨_, _, _, ran, -⟩ := call_effect kept allowed cuts allowed.below
    rw [ran]
    rfl
  · cases c with
    | addEvent granted waiter fd type =>
        rcases Epoller.addEvent_moves kept.poller.wf granted waiter allowed.2.1 type with
          ran | ⟨_, ran, -⟩
        · rw [call, ran]
          rfl
        · rw [call, ran]
          rfl
    | _ => exact absurd trivial cuts

theorem Step.effect (kept : s.Kept worker) (step : Step worker s e s')
    (cuts : s.CutsNobody e.call) {bound : Nat} (below : e.call.Below bound) :
    Epoller.Effect worker e.call.left bound s.poller (e.call.added e.returned) e.returned e.woken
      s'.poller := by
  obtain ⟨_, _, _, ran, effect⟩ := call_effect kept step.1 cuts below
  cases step.2.symm.trans ran
  exact effect

theorem maskOf_ne_zero {q : EventType → Option (Task C F)} :
    maskOf q ≠ 0 ↔ ∃ type, q type ≠ none := by
  rw [Ne, maskOf_eq_zero, Classical.not_forall]

theorem covers_left (c : PollCall C F) (q : EventType → Option (Task C F)) :
    Epoller.Covers q (c.left q) := by
  have armed : Epoller.Covers q (armedMask q) := by
    intro bits some_bits
    rw [armedMask] at some_bits
    split at some_bits
    · cases some_bits
    · rename_i waited
      cases some_bits
      refine ⟨maskOf_ne_zero.mp waited, fun type bit nobody => ?_⟩
      rw [BitVec.and_or_distrib_right, maskOf_and_eq_zero.mpr nobody] at bit
      refine bit ?_
      cases type with
      | EPOLLIN => rfl
      | EPOLLOUT => rfl
  cases c with
  | report =>
      intro bits some_bits
      simp only [PollCall.left] at some_bits
      split at some_bits
      · cases some_bits
      · rename_i waited
        cases some_bits
        exact ⟨maskOf_ne_zero.mp waited, fun _ bit => absurd BitVec.zero_and bit⟩
  | _ => exact armed

/-- The reports that are left are about other descriptors. -/
theorem reportable_rest (kept : s.Kept worker) {report : Nat × EpollMask}
    {rest : List (Nat × EpollMask)} (reports : s.reports = report :: rest) {returned : Bool}
    {woken : List (W × Task C F)} (ran : s.call worker .report = some (returned, woken, s')) :
    s'.reports = rest ∧ ∀ other ∈ rest, Reportable s'.poller other := by
  have nodup := kept.nodup
  rw [reports, List.map_cons, List.nodup_cons] at nodup
  have reportable : ∀ other ∈ rest, Reportable s.poller other := fun other member =>
    kept.reportable other (by rw [reports]; exact List.mem_cons_of_mem _ member)
  obtain ⟨inside, waits⟩ := reported_waits kept.poller
    (kept.reportable report (by rw [reports]; exact List.mem_cons_self))
  rcases Epoller.handleReport_moves kept.poller.wf inside waits with
    ⟨-, handled⟩ | ⟨-, p', handled, moved⟩
  · cases ran.symm.trans (call_report reports handled)
    exact ⟨rfl, reportable⟩
  · cases ran.symm.trans (call_report reports handled)
    refine ⟨rfl, fun other member => ?_⟩
    have elsewhere : other.1 ≠ report.1 := fun same =>
      nodup.1 (same ▸ List.mem_map_of_mem member)
    rw [Reportable, moved.interest_eq, Function.update_of_ne elsewhere]
    exact reportable other member

/-- Calls outside of `wait` happen when no report is left, and leave none. -/
theorem no_reports (none_left : s.reports = []) (same : s'.reports = s.reports) :
    (s'.reports.map Prod.fst).Nodup ∧ ∀ report ∈ s'.reports, Reportable s'.poller report := by
  rw [same, none_left]
  exact ⟨List.nodup_nil, fun _ member => absurd member List.not_mem_nil⟩

theorem Step.reports (kept : s.Kept worker) (step : Step worker s e s') :
    (s'.reports.map Prod.fst).Nodup ∧ ∀ report ∈ s'.reports, Reportable s'.poller report := by
  obtain ⟨c, returned, woken⟩ := e
  obtain ⟨allowed, ran⟩ := step
  cases c with
  | addEvent granted waiter fd type =>
      obtain ⟨_, -, last⟩ := Option.bind_eq_some_iff.mp ran
      cases last
      exact no_reports allowed.1 rfl
  | delEvent granted fd type =>
      cases ran
      exact no_reports allowed.1 rfl
  | handleEvent granted fd type =>
      obtain ⟨_, -, last⟩ := Option.bind_eq_some_iff.mp ran
      cases last
      exact no_reports allowed.1 rfl
  | handleAllEvent granted fd =>
      obtain ⟨_, -, last⟩ := Option.bind_eq_some_iff.mp ran
      cases last
      exact no_reports allowed.1 rfl
  | epoll_wait reports =>
      cases ran
      exact allowed.2
  | report =>
      cases reports : s.reports with
      | nil => exact absurd reports allowed
      | cons report rest =>
          obtain ⟨left, reportable⟩ := reportable_rest kept reports ran
          have nodup := kept.nodup
          rw [reports, List.map_cons, List.nodup_cons] at nodup
          rw [left]
          exact ⟨nodup.2, reportable⟩

theorem Step.kept (kept : s.Kept worker) (step : Step worker s e s')
    (cuts : s.CutsNobody e.call) : s'.Kept worker := by
  obtain ⟨nodup, reportable⟩ := step.reports kept
  have effect := step.effect kept cuts step.1.below
  exact ⟨effect.kept kept.poller (covers_left e.call), nodup, reportable⟩

/-- The calls that cut nobody off. -/
abbrev UncutStep (worker : W) : Polling W C F → Event W C F → Polling W C F → Prop :=
  Lib.Guarded (fun s e => s.CutsNobody e.call) (Step worker)

theorem kept_of_run {es : List (Event W C F)} (run : Lib.Run (UncutStep worker) {} es s) :
    s.Kept worker := by
  refine Lib.Run.invariant ?_ (fun kept step => step.2.kept kept step.1) run
  exact ⟨Epoller.Kept.empty worker, List.nodup_nil, fun _ member => absurd member List.not_mem_nil⟩

/-! ## Bits, contexts and counts -/

/-- The event of a descriptor; outside of the table it is as `resize` makes it. -/
def eventOf (p : Epoller W C F) (fd : Nat) : IOEvent W C F := (p.ioEvents[fd]?).getD { fd := fd }

/-- `pendingEvents_` counts the bits, and a bit is set exactly when the context of
its direction has a worker and either a coroutine or a function. -/
structure Coupled (p : Epoller W C F) : Prop where
  pending : p.pendingEvents.toNat = p.typeBits
  bit_iff : ∀ (fd : Nat) (event : IOEvent W C F), p.ioEvents[fd]? = some event → ∀ type : EventType,
    event.types &&& type.mask ≠ 0 ↔ (event.getEventCtx type).worker.isSome ∧
      ((event.getEventCtx type).co.isSome ↔ ¬(event.getEventCtx type).func.isSome)

theorem coupled_iff {p : Epoller W C F} (wf : p.Wf worker)
    (size : p.ioEvents.length ≤ 3 * 2 ^ 30) :
    Coupled p ↔ p.pendingEvents = UInt64.ofNat p.tasks.length := by
  have small := p.length_tasks_le
  have fits : p.tasks.length < 2 ^ 64 := by omega
  constructor
  · intro coupled
    rw [← UInt64.toNat_inj, UInt64.toNat_ofNat_of_lt' fits, Epoller.length_tasks wf]
    exact coupled.pending
  · intro pending
    constructor
    · rw [pending, UInt64.toNat_ofNat_of_lt' fits, Epoller.length_tasks wf]
    · intro fd event member type
      rw [wf fd event member, Epoller.getEventCtx_of]
      change maskOf (p.waiter fd) &&& type.mask ≠ 0 ↔ _
      rw [Ne, maskOf_and_eq_zero]
      rcases p.waiter fd type with _ | ⟨c | f⟩
      · simp [EventCtx.of]
      · simp [EventCtx.of]
      · simp [EventCtx.of]

theorem coupled_of_kept {p : Epoller W C F} (kept : Epoller.Kept worker p) : Coupled p :=
  (coupled_iff kept.wf kept.size).mpr kept.pending

/-- The tasks that have been registered in a run, and those that were added to a
task queue. -/
def registered (es : List (Event W C F)) : List (Task C F) :=
  es.flatMap fun e => e.call.added e.returned

def delivered (es : List (Event W C F)) : List (Task C F) :=
  es.flatMap fun e => e.woken.map Prod.snd

theorem ledger_of_run {es : List (Event W C F)} (run : Lib.Run (UncutStep worker) {} es s) :
    List.Subperm (delivered es ++ s.poller.tasks) (registered es) := by
  refine And.right (Lib.Run.historyInvariant (I := fun es (s : Polling W C F) => s.Kept worker ∧
    List.Subperm (delivered es ++ s.poller.tasks) (registered es)) ?_ ?_ run)
  · exact ⟨kept_of_run (Lib.Run.nil _), List.Subperm.refl _⟩
  · intro es s e s' ⟨kept, ledger⟩ step
    refine ⟨step.2.kept kept step.1, ?_⟩
    have here := (step.2.effect kept step.1 step.2.1.below).ledger kept.poller
    simp only [delivered, registered, List.flatMap_append, List.flatMap_singleton] at ledger ⊢
    rw [← Multiset.coe_le] at here ledger ⊢
    simp only [← Multiset.coe_add] at here ledger ⊢
    refine le_trans ?_ (add_le_add_left ledger _)
    rw [add_assoc, add_assoc]
    exact add_le_add_right here _

theorem eventOf_of {p : Epoller W C F} (wf : p.Wf worker) (fd : Nat) :
    eventOf p fd = IOEvent.of worker fd (p.waiter fd) := by
  rw [eventOf]
  cases member : p.ioEvents[fd]? with
  | none =>
      rw [Epoller.waiter_of_outside member]
      exact Epoller.of_nobody fd
  | some event => exact wf fd event member

theorem types_eventOf {p : Epoller W C F} (wf : p.Wf worker) (fd : Nat) :
    (eventOf p fd).types = maskOf (p.waiter fd) := by
  rw [eventOf_of wf]
  rfl

theorem eventOf_grown {p : Epoller W C F} (wf : p.Wf worker) {fd : Nat} (fits : p.Fits fd)
    (fd' : Nat) : eventOf (p.grown fd) fd' = eventOf p fd' := by
  rw [eventOf_of wf, eventOf_of (Epoller.grown_wf wf fd), Epoller.waiter_grown wf fits]

theorem effect_refused {left : (EventType → Option (Task C F)) → Option EpollMask} {bound : Nat}
    {added : List (Task C F)} {woken : List (W × Task C F)} {p p' : Epoller W C F}
    (wf : p.Wf worker) (effect : Epoller.Effect worker left bound p added false woken p') :
    woken = [] ∧ p'.pendingEvents = p.pendingEvents ∧ ∀ fd, eventOf p' fd = eventOf p fd := by
  cases effect with
  | same => exact ⟨rfl, rfl, fun _ => rfl⟩
  | larger _ fits => exact ⟨rfl, Epoller.pending_grown _ _, eventOf_grown wf fits⟩

/-! ## Calls that cut waiters off -/

/-- Only `addEvent` cuts, and it goes on with the table it is left with. -/
theorem Step.cut (kept : s.Kept worker) (step : Step worker s e s')
    (cuts : ¬s.CutsNobody e.call) :
    ∃ fd, 2 ≤ fd ∧ fd < 2 ^ 31 ∧ ¬s.poller.Fits fd ∧ (s'.poller = s.poller.grown fd ∨
      ∃ q mask, Epoller.Moved worker (s.poller.grown fd) fd q mask s'.poller) := by
  obtain ⟨c, returned, woken⟩ := e
  obtain ⟨allowed, ran⟩ := step
  cases c with
  | addEvent granted waiter fd type =>
      obtain ⟨-, large, small⟩ := allowed
      refine ⟨fd, large, small, cuts, ?_⟩
      obtain ⟨⟨added, p'⟩, called, last⟩ := Option.bind_eq_some_iff.mp ran
      cases last
      rcases Epoller.addEvent_moves kept.poller.wf granted waiter large type with
        refused | ⟨p₁, registers, -, -, moved⟩
      · cases called.symm.trans refused
        exact Or.inl rfl
      · cases called.symm.trans registers
        exact Or.inr ⟨_, _, moved⟩
  | _ => exact absurd trivial cuts

/-- Those cut off are counted on. -/
theorem Step.cut_uncoupled (kept : s.Kept worker) (step : Step worker s e s')
    (cuts : ¬s.CutsNobody e.call) : ¬Coupled s'.poller := by
  obtain ⟨fd, -, small, cut, went⟩ := step.cut kept cuts
  have wf := Epoller.grown_wf kept.poller.wf fd
  have size := Epoller.length_grown_le kept.poller.size small
  have fewer := Epoller.tasks_grown_lt kept.poller.wf cut
  have few := s.poller.length_tasks_le
  have before := kept.poller.size
  -- the count of the smaller table would have to be that of the larger one
  have uncounted : (s.poller.grown fd).pendingEvents ≠
      UInt64.ofNat (s.poller.grown fd).tasks.length := by
    have fits : s.poller.tasks.length < 2 ^ 64 := by omega
    rw [Epoller.pending_grown, kept.poller.pending, Ne, ← UInt64.toNat_inj,
      UInt64.toNat_ofNat_of_lt' fits, UInt64.toNat_ofNat_of_lt' (fewer.trans fits)]
    exact fewer.ne'
  rcases went with same | ⟨q, mask, moved⟩
  · rw [same, coupled_iff wf size]
    exact uncounted
  · have size' : s'.poller.ioEvents.length ≤ 3 * 2 ^ 30 := by
      rw [moved.table, List.length_set]
      exact size
    rw [coupled_iff (moved.wf wf).1 size', moved.pending_iff wf]
    exact uncounted

/-- The event of somebody who is cut off is gone, and the kernel knows of it on. -/
theorem Step.cut_loses (kept : s.Kept worker) (step : Step worker s e s')
    (cuts : ¬s.CutsNobody e.call) :
    ∃ fd, (eventOf s.poller fd).types ≠ 0 ∧ (eventOf s'.poller fd).types = 0 ∧
      s'.poller.interest fd = s.poller.interest fd := by
  obtain ⟨fd, large, -, cut, went⟩ := step.cut kept cuts
  have wf := Epoller.grown_wf kept.poller.wf fd
  obtain ⟨lost, elsewhere, somebody, nobody⟩ := Epoller.grown_loses kept.poller.wf large cut
  refine ⟨lost, ?_, ?_⟩
  · rw [types_eventOf kept.poller.wf]
    exact maskOf_ne_zero.mpr somebody
  · rcases went with same | ⟨q, mask, moved⟩
    · rw [same, types_eventOf wf, maskOf_eq_zero, Epoller.interest_grown]
      exact ⟨nobody, rfl⟩
    · obtain ⟨wf', waiters⟩ := moved.wf wf
      rw [types_eventOf wf', waiters, moved.interest_eq, Function.update_of_ne elsewhere,
        Function.update_of_ne elsewhere, maskOf_eq_zero, Epoller.interest_grown]
      exact ⟨nobody, rfl⟩

/-- One step keeps the coupling exactly when it cuts nobody off. -/
theorem Step.coupled_iff_cutsNobody (kept : s.Kept worker) (step : Step worker s e s') :
    Coupled s'.poller ↔ s.CutsNobody e.call :=
  ⟨fun coupled => Classical.not_not.mp fun cuts => step.cut_uncoupled kept cuts coupled,
    fun cuts => coupled_of_kept (step.kept kept cuts).poller⟩

/-- A call that returns false leaves everything as it was exactly when it cuts nobody off. -/
theorem Step.refused_iff (kept : s.Kept worker) (step : Step worker s e s')
    (refused : e.returned = false) :
    (e.woken = [] ∧ s'.poller.pendingEvents = s.poller.pendingEvents ∧
        ∀ fd, eventOf s'.poller fd = eventOf s.poller fd) ↔ s.CutsNobody e.call := by
  constructor
  · rintro ⟨-, -, same⟩
    refine Classical.not_not.mp fun cuts => ?_
    obtain ⟨fd, before, after, -⟩ := step.cut_loses kept cuts
    rw [same fd] at after
    exact before after
  · intro cuts
    have effect := step.effect kept cuts step.1.below
    rw [refused] at effect
    exact effect_refused kept.poller.wf effect

/-- In every run of calls that cut nobody off, the bits, the contexts and
`pendingEvents_` stay coupled, no assertion fails, a registration is handed to a task queue at
most once, and a call that returns false changes nothing. A further call keeps the coupling, and
changes nothing where it returns false, exactly when it cuts nobody off. -/
theorem calls_stay_coupled (worker : W) {es : List (Event W C F)} {s : Polling W C F}
    (run : Lib.Run (UncutStep worker) {} es s) :
    Coupled s.poller ∧
      (∀ c, s.Allowed c → (s.call worker c).isSome) ∧
      List.Subperm (delivered es) (registered es) ∧
      ((registered es).Nodup → (delivered es).Nodup) ∧
      ∀ e s', Step worker s e s' → (Coupled s'.poller ↔ s.CutsNobody e.call) ∧
        (e.returned = false → ((e.woken = [] ∧ s'.poller.pendingEvents = s.poller.pendingEvents ∧
          ∀ fd, eventOf s'.poller fd = eventOf s.poller fd) ↔ s.CutsNobody e.call)) := by
  have kept := kept_of_run run
  have once : List.Subperm (delivered es) (registered es) :=
    (List.sublist_append_left _ _).subperm.trans (ledger_of_run run)
  refine ⟨coupled_of_kept kept.poller, fun c allowed => call_isSome kept allowed, once,
    fun nodup => ?_, fun e s' step => ⟨step.coupled_iff_cutsNobody kept, step.refused_iff kept⟩⟩
  obtain ⟨l, perm, sublist⟩ := once
  exact perm.nodup_iff.mp (nodup.sublist sublist)

/-- Both directions of a descriptor, and a report that it can be read. -/
def readsOnly : List (PollCall Nat Nat) :=
  [.addEvent (fun _ _ => true) (.co 1) 5 .EPOLLIN, .addEvent (fun _ _ => true) (.co 2) 5 .EPOLLOUT,
    .epoll_wait [(5, 1)], .report]

theorem readsOnly_leaves : (runCalls () {} readsOnly).map (fun r =>
    (delivered r.1, r.2.poller.interest 5, (eventOf r.2.poller 5).types)) =
      some ([.co 1], some 0, 4) := by
  decide +kernel

theorem cutsNobody_of_small (small : s.poller.ioEvents.length < 2 ^ 31) (c : PollCall C F) :
    s.CutsNobody c := by
  cases c with
  | addEvent _ _ fd _ => exact Epoller.fits_of_small small fd
  | _ => trivial

/-- As long as every `addEvent` is on a descriptor of at most 1431655765, nobody is cut off. -/
theorem uncut_of_low {es : List (Event W C F)} (run : Lib.Run (Step worker) {} es s)
    (low : ∀ e ∈ es, e.call.Below 1431655766) : Lib.Run (UncutStep worker) {} es s := by
  refine And.left (Lib.Run.historyInvariant (I := fun es (s : Polling W C F) =>
    (∀ e ∈ es, e.call.Below 1431655766) → Lib.Run (UncutStep worker) {} es s ∧
      s.poller.ioEvents.length < 2 ^ 31) ?_ ?_ run low)
  · exact fun _ => ⟨Lib.Run.nil _, Nat.two_pow_pos 31⟩
  · intro es s e s' ih step low
    obtain ⟨run, small⟩ := ih fun e member => low e (List.mem_append_left _ member)
    have cuts := cutsNobody_of_small small e.call
    have below := low e (List.mem_append_right _ List.mem_cons_self)
    have effect := step.effect (kept_of_run run) cuts below
    exact ⟨run.snoc ⟨cuts, step⟩, effect.small small (by decide)⟩

theorem readsOnly_low {es : List (Event Unit Nat Nat)} (calls : es.map Event.call = readsOnly) :
    ∀ e ∈ es, e.call.Below 1431655766 := by
  intro e member
  have among : e.call ∈ readsOnly := calls ▸ List.mem_map_of_mem member
  simp only [readsOnly, List.mem_cons, List.not_mem_nil, or_false] at among
  rcases among with is | is | is | is
  · rw [is]
    exact (by decide : 5 < 1431655766)
  · rw [is]
    exact (by decide : 5 < 1431655766)
  · rw [is]
    trivial
  · rw [is]
    trivial

theorem read_delivered_coupled :
    ∃ (es : List (Event Unit Nat Nat)) (s : Polling Unit Nat Nat), Lib.Run (UncutStep ()) {} es s ∧
      Coupled s.poller ∧ delivered es = [.co 1] := by
  obtain ⟨⟨es, s⟩, ran, left⟩ := Option.map_eq_some_iff.mp readsOnly_leaves
  obtain ⟨run, calls⟩ := run_of_runCalls ran
  have uncut := uncut_of_low run (readsOnly_low calls)
  exact ⟨es, s, uncut, (calls_stay_coupled () uncut).1, (Prod.mk.inj left).1⟩

/-- A reader, a descriptor that the kernel refuses but the table is resized for, and a
second reader. -/
def cutOff : List (PollCall Nat Nat) :=
  [.addEvent (fun _ _ => true) (.co 1) 10 .EPOLLIN,
    .addEvent (fun _ _ => false) (.co 2) 1431655766 .EPOLLIN,
    .addEvent (fun _ _ => true) (.co 3) 5 .EPOLLIN]

theorem cutOff_first : (runCalls () {} (cutOff.take 1)).map (fun r =>
    (r.2.reports, (eventOf r.2.poller 10).types, r.2.poller.ioEvents.length)) =
      some ([], 1, 15) := by
  decide +kernel

/-- An `addEvent` that the kernel refuses. -/
theorem refused_addEvent (kept : s.Kept worker) (idle : s.reports = []) (waiter : Task C F)
    {fd : Nat} (large : 2 ≤ fd) (small : fd < 2 ^ 31) (type : EventType) :
    Step worker s ⟨.addEvent (fun _ _ => false) waiter fd type, false, []⟩
      { s with poller := s.poller.grown fd } := by
  refine ⟨⟨idle, large, small⟩, ?_⟩
  rcases Epoller.addEvent_moves kept.poller.wf (fun _ _ => false) waiter large type with
    ran | ⟨_, -, -, granted, -⟩
  · exact Option.bind_eq_some_iff.mpr ⟨_, ran, rfl⟩
  · rcases granted with yes | yes
    · cases yes
    · cases yes

/-- The table has 2^31 slots and one more, and is cut to seven: the reader of descriptor 10
is lost and counted on. -/
theorem not_calls_stay_coupled :
    ∃ (es : List (Event Unit Nat Nat)) (s : Polling Unit Nat Nat), Lib.Run (Step ()) {} es s ∧
      es.map Event.call = cutOff ∧ ¬Coupled s.poller := by
  obtain ⟨⟨es, s₁⟩, ran, left⟩ := Option.map_eq_some_iff.mp cutOff_first
  obtain ⟨run, calls⟩ := run_of_runCalls ran
  obtain ⟨idle, types, length⟩ : s₁.reports = [] ∧ (eventOf s₁.poller 10).types = 1 ∧
      s₁.poller.ioEvents.length = 15 := by
    simpa using left
  have small : s₁.poller.ioEvents.length < 2 ^ 31 := by omega
  have kept : s₁.Kept () := by
    refine kept_of_run (uncut_of_low run fun e member => ?_)
    have among : e.call ∈ cutOff.take 1 := calls ▸ List.mem_map_of_mem member
    rw [cutOff, List.take_succ_cons, List.take_zero, List.mem_singleton] at among
    rw [among]
    exact (by decide : 10 < 1431655766)
  have far : 1431655766 < 2 ^ 31 := by decide
  have second := refused_addEvent kept idle (.co 2) (by decide) far
    .EPOLLIN
  have fits := Epoller.fits_of_small small 1431655766
  have kept₂ := second.kept kept fits
  -- as an `int` the size is negative
  have cut : ¬(s₁.poller.grown 1431655766).Fits 5 := by
    intro uncut
    have short : s₁.poller.Short 1431655766 := (Epoller.short_iff small).mpr (by omega)
    have length₂ : (s₁.poller.grown 1431655766).ioEvents.length = 2147483649 := by
      rw [Epoller.grown, if_pos short, Epoller.length_resize]
    have nobody := uncut (by rw [Epoller.Short, length₂]; decide) 10 (by decide)
    rw [Epoller.waiter_grown kept.poller.wf fits] at nobody
    rw [types_eventOf kept.poller.wf, maskOf_eq_zero.mpr nobody] at types
    cases types
  have third : ({ s₁ with poller := s₁.poller.grown 1431655766 } : Polling Unit Nat Nat).Allowed
      (.addEvent (fun _ _ => true) (.co 3) 5 .EPOLLIN) := ⟨idle, by decide, by decide⟩
  obtain ⟨⟨returned, woken, s₃⟩, called⟩ := Option.isSome_iff_exists.mp (call_isSome kept₂ third)
  have step : Step () _ ⟨_, returned, woken⟩ s₃ := ⟨third, called⟩
  refine ⟨_, s₃, (run.snoc second).snoc step, ?_, step.cut_uncoupled kept₂ cut⟩
  rw [List.map_append, List.map_append, calls]
  rfl

/-! ## The kernel's interest -/

/-- The kernel's interest is absent where nobody waits and else `EPOLLET` with the
bits of `types`. -/
def Mirrored (p : Epoller W C F) : Prop :=
  ∀ fd, p.interest fd =
    if (eventOf p fd).types = 0 then none else some (EPOLLET ||| (eventOf p fd).types)

/-- The report that `wait` handles is about every direction of the descriptor that
is registered, or about none. -/
def WholeReport (s : Polling W C F) (e : Event W C F) : Prop :=
  e.call = .report → ∀ report ∈ s.reports.head?,
    let types := (eventOf s.poller report.1).types
    let real := Epoller.realEvents types report.2
    types &&& real = 0 ∨ types &&& ~~~real = 0

theorem mirrored_iff {p : Epoller W C F} (wf : p.Wf worker) :
    Mirrored p ↔ ∀ fd, p.interest fd = armedMask (p.waiter fd) := by
  simp only [Mirrored, types_eventOf wf]
  rfl

theorem mirrored_moved {p p' : Epoller W C F} (wf : p.Wf worker) (mirrored : Mirrored p)
    {fd : Nat} {q : EventType → Option (Task C F)} {mask : Option EpollMask}
    (moved : Epoller.Moved worker p fd q mask p') : Mirrored p' ↔ mask = armedMask q := by
  obtain ⟨wf', waiters⟩ := moved.wf wf
  rw [mirrored_iff wf'] 
  rw [mirrored_iff wf] at mirrored
  rw [waiters, moved.interest_eq]
  constructor
  · intro all
    have here := all fd
    rwa [Function.update_self, Function.update_self] at here
  · intro here fd'
    by_cases same : fd' = fd
    · rw [same, Function.update_self, Function.update_self, here]
    · rw [Function.update_of_ne same, Function.update_of_ne same]
      exact mirrored fd'

theorem mirrored_grown {p : Epoller W C F} (wf : p.Wf worker) (mirrored : Mirrored p) {fd : Nat}
    (fits : p.Fits fd) : Mirrored (p.grown fd) := by
  intro fd'
  rw [eventOf_grown wf fits, Epoller.interest_grown]
  exact mirrored fd'

/-- A call outside of `wait`. -/
theorem mirrored_effect {p p' : Epoller W C F} (kept : Epoller.Kept worker p)
    (mirrored : Mirrored p) {added : List (Task C F)} {returned : Bool}
    {woken : List (W × Task C F)}
    (effect : Epoller.Effect worker armedMask (2 ^ 31) p added returned woken p') : Mirrored p' := by
  cases effect with
  | same => exact mirrored
  | larger _ fits => exact mirrored_grown kept.wf mirrored fits
  | moved base moved _ =>
      refine (mirrored_moved (kept.base base).1.wf ?_ moved).mpr rfl
      rcases base with rfl | ⟨-, fits, rfl⟩
      · exact mirrored
      · exact mirrored_grown kept.wf mirrored fits

theorem mirrored_report (kept : s.Kept worker) (mirrored : Mirrored s.poller)
    (step : Step worker s e s') (is_report : e.call = .report) :
    Mirrored s'.poller ↔ WholeReport s e := by
  obtain ⟨c, returned, woken⟩ := e
  cases is_report
  obtain ⟨allowed, ran⟩ := step
  cases reports : s.reports with
  | nil => exact absurd reports allowed
  | cons report rest =>
      obtain ⟨inside, waits⟩ := reported_waits kept.poller
        (kept.reportable report (by rw [reports]; exact List.mem_cons_self))
      have whole : WholeReport s ⟨.report, returned, woken⟩ ↔
          maskOf (s.poller.waiter report.1) &&&
            Epoller.realEvents (maskOf (s.poller.waiter report.1)) report.2 = 0 ∨
          maskOf (s.poller.waiter report.1) &&&
            ~~~Epoller.realEvents (maskOf (s.poller.waiter report.1)) report.2 = 0 := by
        rw [← types_eventOf kept.poller.wf]
        simp [WholeReport, reports]
      rw [whole]
      rcases Epoller.handleReport_moves kept.poller.wf inside waits with
        ⟨idle, handled⟩ | ⟨busy, p', handled, moved⟩
      · cases ran.symm.trans (call_report reports handled)
        exact iff_of_true mirrored (Or.inl idle)
      · cases ran.symm.trans (call_report reports handled)
        rw [mirrored_moved kept.poller.wf mirrored moved, or_iff_right busy, Epoller.maskOf_untaken,
          armedMask]
        split
        · rename_i clear
          exact iff_of_true rfl clear
        · rename_i left
          refine iff_of_false (fun same => ?_) left
          have edge := congrArg (BitVec.getLsbD · 31) (Option.some.inj same)
          rw [BitVec.getLsbD_or] at edge
          cases edge

/-- Who is cut off is watched for on, but not waited for. -/
theorem Step.cut_unmirrored (kept : s.Kept worker) (mirrored : Mirrored s.poller)
    (step : Step worker s e s') (cuts : ¬s.CutsNobody e.call) : ¬Mirrored s'.poller := by
  obtain ⟨fd, before, after, same⟩ := step.cut_loses kept cuts
  intro mirrored'
  have now := mirrored' fd
  rw [same, mirrored fd, if_neg before, if_pos after] at now
  cases now

theorem mirrored_step (kept : s.Kept worker) (mirrored : Mirrored s.poller)
    (step : Step worker s e s') :
    Mirrored s'.poller ↔ WholeReport s e ∧ s.CutsNobody e.call := by
  by_cases cuts : s.CutsNobody e.call
  · rw [and_iff_left cuts]
    have effect := step.effect kept cuts step.1.below
    cases is : e.call with
    | report => exact mirrored_report kept mirrored step is
    | _ =>
        rw [is] at effect
        refine iff_of_true (mirrored_effect kept.poller mirrored effect) fun yes => ?_
        rw [is] at yes
        cases yes
  · exact iff_of_false (step.cut_unmirrored kept mirrored cuts) fun both => cuts both.2

/-- As long as every report is about all directions of its descriptor that are
registered, or about none, and no `addEvent` cuts a slot off that somebody waits in, the kernel's
interest mirrors `types`; after the first other step it does not. A table is only cut once it
has 2^31 slots, after an `addEvent` on a descriptor above 1431655765. -/
theorem interest_mirrors_types (worker : W) {es : List (Event W C F)} {s : Polling W C F}
    (run : Lib.Run (Lib.Guarded (fun s e => WholeReport s e ∧ s.CutsNobody e.call) (Step worker))
      {} es s) :
    Mirrored s.poller ∧
      ∀ e s', Step worker s e s' →
        (Mirrored s'.poller ↔ WholeReport s e ∧ s.CutsNobody e.call) := by
  have start : ({} : Polling W C F).Kept worker ∧ Mirrored ({} : Polling W C F).poller :=
    ⟨kept_of_run (Lib.Run.nil _), fun _ => rfl⟩
  have both : s.Kept worker ∧ Mirrored s.poller := by
    refine Lib.Run.invariant (I := fun s : Polling W C F => s.Kept worker ∧ Mirrored s.poller)
      start (fun held step => ?_) run
    exact ⟨step.2.kept held.1 step.1.2, (mirrored_step held.1 held.2 step.2).mpr step.1⟩
  exact ⟨both.2, fun _ _ step => mirrored_step both.1 both.2 step⟩

/-- One direction of a descriptor, and the report of it. -/
def readReported : List (PollCall Nat Nat) :=
  [.addEvent (fun _ _ => true) (.co 1) 5 .EPOLLIN, .epoll_wait [(5, 1)]]

theorem readReported_leaves : (runCalls () {} readReported).map (fun r =>
    (r.2.reports, (eventOf r.2.poller 5).types, (r.2.call () .report).isSome)) =
      some ([(5, 1)], 1, true) := by
  decide +kernel

theorem interest_mirrors_read :
    ∃ (es : List (Event Unit Nat Nat)) (s s' : Polling Unit Nat Nat) (e : Event Unit Nat Nat),
      Lib.Run (Lib.Guarded (fun s e => WholeReport s e ∧ s.CutsNobody e.call) (Step ())) {} es s ∧
        Mirrored s.poller ∧
        e.call = .report ∧ Step () s e s' ∧ Mirrored s'.poller := by
  obtain ⟨⟨es, s⟩, ran, left⟩ := Option.map_eq_some_iff.mp readReported_leaves
  obtain ⟨run, calls⟩ := run_of_runCalls ran
  obtain ⟨reports, types, handled⟩ : s.reports = [(5, 1)] ∧ (eventOf s.poller 5).types = 1 ∧
      (s.call () .report).isSome = true := by
    simpa using left
  obtain ⟨⟨returned, woken, s'⟩, called⟩ := Option.isSome_iff_exists.mp handled
  have among : ∀ e ∈ es, e.call ∈ readReported := fun e member =>
    calls ▸ List.mem_map_of_mem member
  have uncut : Lib.Run (UncutStep ()) {} es s := by
    refine uncut_of_low run fun e member => ?_
    have among := among e member
    simp only [readReported, List.mem_cons, List.not_mem_nil, or_false] at among
    rcases among with is | is
    · rw [is]
      exact (by decide : 5 < 1431655766)
    · rw [is]
      trivial
  have guarded : Lib.Run (Lib.Guarded (fun s e => WholeReport s e ∧ s.CutsNobody e.call)
      (Step ())) {} es s := by
    have whole : ∀ e ∈ es, ∀ s, WholeReport s e := by
      intro e member s is_report
      have among := among e member
      rw [is_report] at among
      simp [readReported] at among
    refine (uncut.guarded whole).mono ?_
    exact fun both => ⟨⟨both.1, both.2.1⟩, both.2.2⟩
  have step : Step () s ⟨.report, returned, woken⟩ s' := ⟨by rw [Allowed, reports]; simp, called⟩
  have mirrors := interest_mirrors_types () guarded
  refine ⟨es, s, s', _, guarded, mirrors.1, rfl, step, (mirrors.2 _ _ step).mpr ⟨?_, trivial⟩⟩
  intro _ report member
  rw [reports] at member
  cases member
  rw [types]
  exact Or.inr (by decide)

theorem readsOnly_granted : ∀ c ∈ readsOnly, c.Granted := by
  intro c member
  simp only [readsOnly, List.mem_cons, List.not_mem_nil, or_false] at member
  rcases member with rfl | rfl | rfl | rfl
  · exact fun _ _ => rfl
  · exact fun _ _ => rfl
  · trivial
  · trivial

/-- The writer of descriptor 5 waits on and the kernel does not watch for it. -/
theorem not_interest_mirrors_types :
    ¬∀ (es : List (Event Unit Nat Nat)) (s : Polling Unit Nat Nat), Lib.Run (Step ()) {} es s →
      (∀ e ∈ es, e.call.Granted) → Mirrored s.poller := by
  intro all
  obtain ⟨⟨es, s⟩, ran, left⟩ := Option.map_eq_some_iff.mp readsOnly_leaves
  obtain ⟨run, calls⟩ := run_of_runCalls ran
  obtain ⟨-, interest, types⟩ :
      _ ∧ s.poller.interest 5 = some 0 ∧ (eventOf s.poller 5).types = 4 := by
    simpa using left
  have mirrored := all es s run (fun e member =>
    readsOnly_granted e.call (calls ▸ List.mem_map_of_mem member)) 5
  rw [interest, types] at mirrored
  cases mirrored

end Polling

end Reyao
