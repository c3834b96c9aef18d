import Reyao.Epoller

/-!
# What the operations of a poller do

A poller is a table of waiters: `waiter p fd type` is the task that waits for a
direction of a descriptor. The bits and the contexts of an event say it twice;
`Wf` says that they agree and that every waiter is to be woken on the worker of
the poller. Every operation then has one lemma about the table and the interest.
-/

namespace Reyao

variable {W C F : Type}

/-! ## Events -/

/-- The context of a waiter on `worker`. -/
def EventCtx.of (worker : W) : Option (Task C F) → EventCtx W C F
  | none => {}
  | some (.co c) => { worker := some worker, co := some c }
  | some (.func f) => { worker := some worker, func := some f }

/-- The bits of the directions somebody waits for. -/
def maskOf (q : EventType → Option (Task C F)) : EpollMask :=
  (if (q .EPOLLIN).isSome then EventType.EPOLLIN.mask else 0) |||
    (if (q .EPOLLOUT).isSome then EventType.EPOLLOUT.mask else 0)

namespace IOEvent

/-- The event of a descriptor with the waiters `q` on `worker`. -/
def of (worker : W) (fd : Nat) (q : EventType → Option (Task C F)) : IOEvent W C F where
  fd := fd
  types := maskOf q
  readEvent := .of worker (q .EPOLLIN)
  writeEvent := .of worker (q .EPOLLOUT)

end IOEvent

section

variable {q : EventType → Option (Task C F)} {type : EventType}

theorem maskOf_and_eq_zero : maskOf q &&& type.mask = 0 ↔ q type = none := by
  rw [maskOf]
  cases type <;> cases q .EPOLLIN <;> cases q .EPOLLOUT <;>
    simp [EventType.mask]

theorem maskOf_eq_zero : maskOf q = 0 ↔ ∀ type, q type = none := by
  rw [maskOf]
  constructor
  · intro zero type
    cases type <;> cases h : q .EPOLLIN <;> cases h' : q .EPOLLOUT <;>
      simp [EventType.mask, h, h'] at zero ⊢
  · intro none_waits
    simp [none_waits]

theorem maskOf_clear : maskOf q &&& ~~~type.mask = maskOf (Function.update q type none) := by
  rw [maskOf, maskOf]
  cases type <;> cases h : q .EPOLLIN <;> cases h' : q .EPOLLOUT <;>
    simp [EventType.mask, h, h']

theorem maskOf_set {task : Task C F} :
    maskOf q ||| type.mask = maskOf (Function.update q type (some task)) := by
  rw [maskOf, maskOf]
  cases type <;> cases h : q .EPOLLIN <;> cases h' : q .EPOLLOUT <;>
    simp [EventType.mask, h, h']

/-- A direction that is waited for and not left over is among those reported. -/
theorem real_of_left {real : EpollMask} (left : maskOf q &&& ~~~real = 0) (waits : q type ≠ none) :
    real &&& type.mask ≠ 0 := by
  intro clear
  refine waits (maskOf_and_eq_zero.mp (BitVec.eq_of_getLsbD_eq fun i inside => ?_))
  have left_i := congrArg (BitVec.getLsbD · i) left
  have clear_i := congrArg (BitVec.getLsbD · i) clear
  simp only [BitVec.getLsbD_and, BitVec.getLsbD_not, BitVec.ofNat_eq_ofNat, BitVec.getLsbD_zero,
    inside, decide_true, Bool.true_and] at left_i clear_i ⊢
  cases h : real.getLsbD i with
  | true => rw [h] at clear_i; rw [Bool.true_and] at clear_i; rw [clear_i, Bool.and_false]
  | false => rw [h] at left_i; rw [Bool.not_false, Bool.and_true] at left_i; rw [left_i]; rfl

theorem IOEvent.triggleEvent_of {worker : W} {fd : Nat} {task : Task C F}
    (waits : q type = some task) :
    (IOEvent.of worker fd q).triggleEvent type =
      some ([(worker, task)], .of worker fd (Function.update q type none)) := by
  have set : ¬((IOEvent.of worker fd q).types &&& type.mask = 0) := by
    intro zero
    rw [maskOf_and_eq_zero.mp zero] at waits
    cases waits
  have cleared : (IOEvent.of worker fd q).types &&& ~~~type.mask =
      maskOf (Function.update q type none) := maskOf_clear
  rw [IOEvent.triggleEvent, if_neg set, cleared]
  cases type <;> cases task <;>
    simp [IOEvent.of, IOEvent.getEventCtx, IOEvent.setEventCtx, EventCtx.of, waits]

end

/-! ## Tables -/

/-- Who waits in a context. -/
def EventCtx.task (ctx : EventCtx W C F) : Option (Task C F) :=
  match ctx.co with
  | some c => some (.co c)
  | none => ctx.func.map .func

theorem EventCtx.task_of (worker : W) (task : Option (Task C F)) :
    (EventCtx.of worker task).task = task := by
  match task with
  | none => rfl
  | some (.co _) => rfl
  | some (.func _) => rfl

namespace Epoller

/-- The task that waits for a direction of a descriptor. -/
def waiter (p : Epoller W C F) (fd : Nat) (type : EventType) : Option (Task C F) :=
  match p.ioEvents[fd]? with
  | none => none
  | some event =>
      if event.types &&& type.mask = 0 then none else (event.getEventCtx type).task

/-- Bits and contexts agree, and waiters are woken on `worker`. -/
def Wf (worker : W) (p : Epoller W C F) : Prop :=
  ∀ fd event, p.ioEvents[fd]? = some event → event = IOEvent.of worker fd (p.waiter fd)

variable {worker : W} {p p' : Epoller W C F} {fd : Nat} {type : EventType}

theorem waiter_of_event {q : EventType → Option (Task C F)}
    (event : p.ioEvents[fd]? = some (.of worker fd q)) : p.waiter fd = q := by
  funext type
  rw [waiter, event]
  change (if maskOf q &&& type.mask = 0 then none
    else ((IOEvent.of worker fd q).getEventCtx type).task) = q type
  split
  · rename_i clear
    exact (maskOf_and_eq_zero.mp clear).symm
  · cases type with
    | EPOLLIN => exact EventCtx.task_of worker _
    | EPOLLOUT => exact EventCtx.task_of worker _

theorem waiter_of_outside (outside : p.ioEvents[fd]? = none) : p.waiter fd = fun _ => none := by
  funext type
  rw [waiter, outside]

theorem wf_empty (worker : W) : ({} : Epoller W C F).Wf worker := by
  intro fd event member
  cases member

/-- A descriptor somebody waits for has its event. -/
theorem Wf.event (wf : p.Wf worker) {task : Task C F} (waits : p.waiter fd type = some task) :
    p.ioEvents[fd]? = some (.of worker fd (p.waiter fd)) := by
  cases event : p.ioEvents[fd]? with
  | none =>
      rw [waiter_of_outside event] at waits
      cases waits
  | some event' => rw [wf fd event' event]

/-- Pollers with the same table have the same waiters. -/
theorem Wf.congr (wf : p.Wf worker) (same : p'.ioEvents = p.ioEvents) :
    p'.Wf worker ∧ p'.waiter = p.waiter := by
  have waiters : p'.waiter = p.waiter := by
    funext fd type
    rw [waiter, waiter, same]
  refine ⟨fun fd event member => ?_, waiters⟩
  rw [waiters]
  rw [same] at member
  exact wf fd event member

/-- Replacing the event of one descriptor. -/
theorem Wf.set (wf : p.Wf worker) (inside : fd < p.ioEvents.length)
    {q : EventType → Option (Task C F)}
    (table : p'.ioEvents = p.ioEvents.set fd (.of worker fd q)) :
    p'.Wf worker ∧ p'.waiter = Function.update p.waiter fd q := by
  have here : p'.ioEvents[fd]? = some (.of worker fd q) := by
    rw [table, List.getElem?_set_self inside]
  have there : ∀ {fd'}, fd' ≠ fd → p'.ioEvents[fd']? = p.ioEvents[fd']? := by
    intro fd' other
    rw [table, List.getElem?_set_ne other.symm]
  have waiters : p'.waiter = Function.update p.waiter fd q := by
    funext fd'
    by_cases same : fd' = fd
    · rw [same, Function.update_self, waiter_of_event here]
    · rw [Function.update_of_ne same]
      funext type
      rw [waiter, waiter, there same]
  refine ⟨fun fd' event member => ?_, waiters⟩
  rw [waiters]
  by_cases same : fd' = fd
  · rw [same, here, Option.some.injEq] at member
    rw [same, Function.update_self, member]
  · rw [Function.update_of_ne same]
    exact wf fd' event (by rw [← there same]; exact member)

/-! ## The size of the table -/

theorem short_iff (small : p.ioEvents.length < 2 ^ 31) : p.Short fd ↔ p.ioEvents.length ≤ fd := by
  rw [Short, toInt_of_lt small]
  exact Int.ofNat_le

theorem not_short (small : p.ioEvents.length < 2 ^ 31) {event : IOEvent W C F}
    (there : p.ioEvents[fd]? = some event) : ¬p.Short fd := by
  rw [short_iff small]
  exact Nat.not_le.mpr (List.getElem?_eq_some_iff.mp there).1

theorem length_resize {size : Nat} : (p.resize size).ioEvents.length = size := by
  rw [Epoller.resize, List.length_append, List.length_take, List.length_map, List.length_range']
  omega

theorem getElem?_resize (size : Nat) (p : Epoller W C F) (fd : Nat) :
    (p.resize size).ioEvents[fd]? =
      if fd < size then some (p.ioEvents[fd]?.getD { fd := fd }) else none := by
  split
  · rename_i below
    rw [Epoller.resize]
    by_cases old : fd < p.ioEvents.length
    · rw [List.getElem?_append_left (by rw [List.length_take]; omega),
        List.getElem?_take_of_lt below, List.getElem?_eq_getElem old]
      rfl
    · have index : p.ioEvents.length + (fd - p.ioEvents.length) = fd := by omega
      rw [List.getElem?_append_right (by rw [List.length_take]; omega), List.length_take,
        Nat.min_eq_right (by omega), List.getElem?_map, List.getElem?_range' (by omega),
        List.getElem?_eq_none (Nat.not_lt.mp old), Nat.one_mul, index]
      rfl
  · rename_i beyond
    exact List.getElem?_eq_none (by rw [length_resize]; omega)

theorem of_nobody (fd : Nat) : ({ fd := fd } : IOEvent W C F) = .of worker fd fun _ => none := by
  rw [IOEvent.of, maskOf_eq_zero.mpr fun _ => rfl]
  rfl

/-- A table of another size keeps who waits below it; the new events are those nobody waits
for. -/
theorem Wf.resize (wf : p.Wf worker) (size : Nat) :
    (p.resize size).Wf worker ∧ ∀ fd, (p.resize size).waiter fd =
      if fd < size then p.waiter fd else fun _ => none := by
  have event : ∀ fd < size, (p.resize size).ioEvents[fd]? = some (.of worker fd (p.waiter fd)) := by
    intro fd below
    rw [getElem?_resize, if_pos below]
    cases there : p.ioEvents[fd]? with
    | none =>
        rw [waiter_of_outside there]
        exact congrArg some (of_nobody fd)
    | some event => exact congrArg some (wf fd event there)
  have waiters : ∀ fd, (p.resize size).waiter fd =
      if fd < size then p.waiter fd else fun _ => none := by
    intro fd
    split
    · rename_i below
      exact waiter_of_event (event fd below)
    · rename_i beyond
      exact waiter_of_outside (by rw [getElem?_resize, if_neg beyond])
  refine ⟨fun fd event' member => ?_, waiters⟩
  have below : fd < size := by
    by_contra beyond
    rw [getElem?_resize, if_neg beyond] at member
    cases member
  rw [waiters, if_pos below]
  exact Option.some.inj (member.symm.trans (event fd below))

/-- Nobody waits in the part of the table that `resize(size)` cuts off. -/
def Uncut (size : Nat) (p : Epoller W C F) : Prop :=
  ∀ fd, size ≤ fd → ∀ type, p.waiter fd type = none

theorem Wf.resize_uncut (wf : p.Wf worker) {size : Nat} (uncut : p.Uncut size) :
    (p.resize size).waiter = p.waiter := by
  funext fd
  rw [(wf.resize size).2]
  split
  · rfl
  · rename_i beyond
    exact (funext (uncut fd (Nat.not_lt.mp beyond))).symm

/-- A table that grows. -/
theorem uncut_of_le {size : Nat} (more : p.ioEvents.length ≤ size) : p.Uncut size := by
  intro fd beyond
  exact congrFun (waiter_of_outside (List.getElem?_eq_none (by omega)))

/-! ## Waking -/

/-- What waking some directions of a descriptor does: `which` are the directions,
`woken` the tasks that were handed to the worker. -/
structure Woke (worker : W) (p : Epoller W C F) (fd : Nat) (which : EventType → Bool)
    (woken : List (W × Task C F)) (p' : Epoller W C F) : Prop where
  wf : p'.Wf worker
  waiter_eq : ∀ fd' type, p'.waiter fd' type =
    if fd' = fd ∧ which type = true then none else p.waiter fd' type
  woken_eq : woken = [EventType.EPOLLIN, .EPOLLOUT].flatMap fun type =>
    if which type then (p.waiter fd type).toList.map fun task => (worker, task) else []

section

variable {which : EventType → Bool} {woken : List (W × Task C F)}

/-- The task that is woken for a direction. -/
def due (p : Epoller W C F) (fd : Nat) (which : EventType → Bool) (type : EventType) :
    Option (Task C F) := if which type then p.waiter fd type else none

theorem Woke.tasks_eq (woke : Woke worker p fd which woken p') :
    woken.map Prod.snd =
      (due p fd which .EPOLLIN).toList ++ (due p fd which .EPOLLOUT).toList := by
  have one : ∀ type, (if which type = true then
      (p.waiter fd type).toList.map fun task => (worker, task) else []).map Prod.snd =
        (due p fd which type).toList := by
    intro type
    rw [due]
    split
    · rw [List.map_map]
      exact List.map_id _
    · rfl
  rw [woke.woken_eq, List.flatMap_cons, List.flatMap_cons, List.flatMap_nil, List.append_nil,
    List.map_append, one, one]

theorem Woke.own (woke : Woke worker p fd which woken p') : ∀ t ∈ woken, t.1 = worker := by
  intro t member
  rw [woke.woken_eq, List.mem_flatMap] at member
  obtain ⟨type, -, member⟩ := member
  split at member
  · obtain ⟨task, -, rfl⟩ := List.mem_map.mp member
    rfl
  · cases member

theorem Woke.mem_tasks (woke : Woke worker p fd which woken p') (task : Task C F) :
    task ∈ woken.map Prod.snd ↔ ∃ type, which type = true ∧ p.waiter fd type = some task := by
  have one : ∀ type, task ∈ (due p fd which type).toList ↔
      which type = true ∧ p.waiter fd type = some task := by
    intro type
    rw [Option.mem_toList, due]
    split
    · rename_i is
      exact ⟨fun waits => ⟨is, waits⟩, And.right⟩
    · rename_i no
      exact ⟨fun impossible => (Option.some_ne_none task impossible.symm).elim,
        fun both => absurd both.1 no⟩
  rw [woke.tasks_eq, List.mem_append, one, one]
  constructor
  · rintro (reads | writes)
    · exact ⟨_, reads⟩
    · exact ⟨_, writes⟩
  · rintro ⟨type, waits⟩
    cases type with
    | EPOLLIN => exact Or.inl waits
    | EPOLLOUT => exact Or.inr waits

end

@[simp] theorem interest_decPending : (decPending p).interest = p.interest := rfl

@[simp] theorem ioEvents_decPending : (decPending p).ioEvents = p.ioEvents := rfl

theorem length_triggle {woken : List (W × Task C F)}
    (ran : triggle fd type p = some (woken, p')) : p'.ioEvents.length = p.ioEvents.length := by
  obtain ⟨event, -, ran⟩ := Option.bind_eq_some_iff.mp ran
  obtain ⟨⟨first, event'⟩, -, ran⟩ := Option.bind_eq_some_iff.mp ran
  cases ran
  exact List.length_set

theorem length_triggleIf {types : EpollMask} {woken : List (W × Task C F)}
    (ran : triggleIf types fd type p = some (woken, p')) :
    p'.ioEvents.length = p.ioEvents.length := by
  rw [triggleIf] at ran
  split at ran
  · exact length_triggle ran
  · cases ran
    rfl

theorem length_triggleBoth {types : EpollMask} {woken : List (W × Task C F)}
    (ran : triggleBoth types fd p = some (woken, p')) :
    p'.ioEvents.length = p.ioEvents.length := by
  obtain ⟨⟨first, p₁⟩, one, ran⟩ := Option.bind_eq_some_iff.mp ran
  obtain ⟨⟨second, p₂⟩, two, ran⟩ := Option.bind_eq_some_iff.mp ran
  cases ran
  exact (length_triggleIf two).trans (length_triggleIf one)

theorem triggle_eq (wf : p.Wf worker) {task : Task C F} (waits : p.waiter fd type = some task) :
    ∃ p', triggle fd type p = some ([(worker, task)], p') ∧ p'.Wf worker ∧
      p'.waiter = Function.update p.waiter fd (Function.update (p.waiter fd) type none) ∧
      p'.interest = p.interest := by
  have event := wf.event waits
  have inside : fd < p.ioEvents.length := (List.getElem?_eq_some_iff.mp event).1
  have table : (decPending { p with
      ioEvents := p.ioEvents.set fd
        (.of worker fd (Function.update (p.waiter fd) type none)) }).ioEvents =
      p.ioEvents.set fd (.of worker fd (Function.update (p.waiter fd) type none)) :=
    ioEvents_decPending
  have replaced := wf.set inside table
  refine ⟨_, ?_, replaced.1, replaced.2, interest_decPending⟩
  rw [triggle, event]
  simp only [Option.bind_eq_bind, Option.bind_some, IOEvent.triggleEvent_of waits]
  rfl

/-- Where nobody waits the bit of the direction is clear. -/
theorem types_eq_zero (wf : p.Wf worker) (waits : p.waiter fd type = none)
    {event : IOEvent W C F} (member : p.ioEvents[fd]? = some event) :
    event.types &&& type.mask = 0 := by
  rw [wf fd event member]
  exact maskOf_and_eq_zero.mpr waits

/-- `triggleEvent` fails where nobody waits. -/
theorem triggle_none (waits : p.waiter fd type = none) (wf : p.Wf worker) :
    triggle fd type p = none := by
  rw [triggle]
  cases event : p.ioEvents[fd]? with
  | none => rfl
  | some event' =>
      have clear := types_eq_zero wf waits event
      simp only [Option.bind_eq_bind, Option.bind_some, IOEvent.triggleEvent, if_pos clear]
      rfl

/-- One direction. -/
theorem triggleIf_woke (wf : p.Wf worker) {types : EpollMask} {woken : List (W × Task C F)}
    (ran : triggleIf types fd type p = some (woken, p')) :
    p'.Wf worker ∧ p'.interest = p.interest ∧
      woken = (if types &&& type.mask ≠ 0 then
        (p.waiter fd type).toList.map fun task => (worker, task) else []) ∧
      ∀ fd' type', p'.waiter fd' type' =
        if fd' = fd ∧ type' = type ∧ types &&& type.mask ≠ 0 then none
        else p.waiter fd' type' := by
  rw [triggleIf] at ran
  by_cases due : types &&& type.mask ≠ 0
  · rw [if_pos due] at ran
    cases waits : p.waiter fd type with
    | none =>
        rw [triggle_none waits wf] at ran
        cases ran
    | some task =>
        obtain ⟨_, triggled, wf', waiters, interest⟩ := triggle_eq wf waits
        rw [triggled] at ran
        cases ran
        refine ⟨wf', interest, by rw [if_pos due]; rfl, fun fd' type' => ?_⟩
        rw [waiters]
        by_cases same : fd' = fd
        · subst same
          rw [Function.update_self]
          by_cases same' : type' = type
          · rw [if_pos ⟨rfl, same', due⟩, same', Function.update_self]
          · rw [if_neg fun both => same' both.2.1, Function.update_of_ne same']
        · rw [if_neg fun both => same both.1, Function.update_of_ne same]
  · rw [if_neg due] at ran
    cases ran
    exact ⟨wf, rfl, by rw [if_neg due], fun fd' type' => by rw [if_neg fun all => due all.2.2]⟩

/-- Waking depends on the table only, and on the directions somebody waits for. -/
theorem Woke.congr {p₀ : Epoller W C F} {which which' : EventType → Bool}
    {woken : List (W × Task C F)} (woke : Woke worker p₀ fd which woken p')
    (same : p₀.waiter = p.waiter)
    (agree : ∀ type, p.waiter fd type ≠ none → which type = which' type) :
    Woke worker p fd which' woken p' := by
  refine ⟨woke.wf, fun fd' type => ?_, ?_⟩
  · rw [woke.waiter_eq, same]
    by_cases here : fd' = fd
    · subst here
      by_cases nobody : p.waiter fd' type = none
      · rw [nobody, ite_self, ite_self]
      · rw [agree type nobody]
    · rw [if_neg fun both => here both.1, if_neg fun both => here both.1]
  · rw [woke.woken_eq, same]
    refine List.flatMap_congr fun type _ => ?_
    by_cases nobody : p.waiter fd type = none
    · rw [nobody, Option.toList_none, List.map_nil, ite_self, ite_self]
    · rw [agree type nobody]

/-- Both directions. -/
theorem triggleBoth_woke (wf : p.Wf worker) {types : EpollMask} {woken : List (W × Task C F)}
    (ran : triggleBoth types fd p = some (woken, p')) :
    Woke worker p fd (fun type => types &&& type.mask ≠ 0) woken p' ∧
      p'.interest = p.interest := by
  rw [triggleBoth] at ran
  obtain ⟨⟨first, p₁⟩, one, ran⟩ := Option.bind_eq_some_iff.mp ran
  obtain ⟨⟨second, p₂⟩, two, ran⟩ := Option.bind_eq_some_iff.mp ran
  cases ran
  obtain ⟨wf₁, interest₁, woken₁, waiter₁⟩ := triggleIf_woke wf one
  obtain ⟨wf₂, interest₂, woken₂, waiter₂⟩ := triggleIf_woke wf₁ two
  refine ⟨⟨wf₂, fun fd' type => ?_, ?_⟩, interest₂.trans interest₁⟩
  · rw [waiter₂, waiter₁]
    cases type with
    | EPOLLIN => simp
    | EPOLLOUT => simp
  · have later : p₁.waiter fd .EPOLLOUT = p.waiter fd .EPOLLOUT := by
      rw [waiter₁, if_neg (by simp)]
    rw [later] at woken₂
    rw [woken₁, woken₂]
    simp only [List.flatMap_cons, List.flatMap_nil, List.append_nil, decide_eq_true_eq]

theorem triggleIf_some (wf : p.Wf worker) {types : EpollMask}
    (waits : types &&& type.mask ≠ 0 → p.waiter fd type ≠ none) :
    ∃ woken p', triggleIf types fd type p = some (woken, p') := by
  rw [triggleIf]
  split
  · rename_i due
    obtain ⟨task, waits⟩ := Option.ne_none_iff_exists'.mp (waits due)
    obtain ⟨p', ran, -⟩ := triggle_eq wf waits
    exact ⟨_, p', ran⟩
  · exact ⟨_, p, rfl⟩

theorem triggleBoth_some (wf : p.Wf worker) {types : EpollMask}
    (waits : ∀ type : EventType, types &&& type.mask ≠ 0 → p.waiter fd type ≠ none) :
    ∃ woken p', triggleBoth types fd p = some (woken, p') := by
  obtain ⟨first, p₁, one⟩ := triggleIf_some wf (waits .EPOLLIN)
  obtain ⟨wf₁, -, -, waiter₁⟩ := triggleIf_woke wf one
  have later : types &&& EventType.EPOLLOUT.mask ≠ 0 → p₁.waiter fd .EPOLLOUT ≠ none := by
    rw [waiter₁, if_neg (by simp)]
    exact waits .EPOLLOUT
  obtain ⟨second, p₂, two⟩ := triggleIf_some wf₁ later
  refine ⟨first ++ second, p₂, ?_⟩
  simp only [triggleBoth, one, two, Option.bind_eq_bind, Option.bind_some]
  rfl

/-! ## The operations -/

/-- An `int` can hold the size of the table, and every descriptor somebody waits for is
registered in the kernel. -/
structure Armed (p : Epoller W C F) : Prop where
  small : p.ioEvents.length < 2 ^ 31
  registered : ∀ fd type, p.waiter fd type ≠ none → p.interest fd ≠ none

/-- A kernel that does not refuse to change or drop what is registered. -/
def Grants (granted : CtlOp → Nat → Bool) (interest : Nat → Option EpollMask) : Prop :=
  ∀ fd, interest fd ≠ none →
    granted .EPOLL_CTL_MOD fd = true ∧ granted .EPOLL_CTL_DEL fd = true

/-- What an operation that wakes leaves of the kernel's registrations. -/
structure Rearmed (p : Epoller W C F) (p' : Epoller W C F) : Prop where
  armed : p'.Armed
  interest_le : ∀ fd, p'.interest fd ≠ none → p.interest fd ≠ none

variable {granted : CtlOp → Nat → Bool} {woken : List (W × Task C F)}

/-- Registrations change at one descriptor only, and stay there while somebody
waits for it. -/
theorem rearmed_of_update (armed : p.Armed) {which : EventType → Bool}
    (woke : Woke worker p fd which woken p') (length : p'.ioEvents.length = p.ioEvents.length)
    {mask : Option EpollMask} (was : p.interest fd ≠ none)
    (interest : p'.interest = Function.update p.interest fd mask)
    (stays : mask = none → ∀ type, which type = true ∨ p.waiter fd type = none) :
    Rearmed p p' := by
  constructor
  · refine ⟨by rw [length]; exact armed.small, fun fd' type waits => ?_⟩
    rw [woke.waiter_eq] at waits
    rw [interest]
    by_cases same : fd' = fd
    · subst same
      rw [Function.update_self]
      intro dropped
      rcases stays dropped type with woken | nobody
      · exact waits (if_pos ⟨rfl, woken⟩)
      · rw [nobody, ite_self] at waits
        exact waits rfl
    · rw [Function.update_of_ne same]
      rw [if_neg fun both => same both.1] at waits
      exact armed.registered fd' type waits
  · intro fd' registered
    rw [interest] at registered
    by_cases same : fd' = fd
    · rw [same]
      exact was
    · rwa [Function.update_of_ne same] at registered

/-- The kernel's answer to a change of what is registered. -/
theorem epoll_ctl_granted {interest : Nat → Option EpollMask} {left mask : EpollMask}
    (grants : granted .EPOLL_CTL_MOD fd = true ∧ granted .EPOLL_CTL_DEL fd = true) :
    epoll_ctl granted (if left ≠ 0 then .EPOLL_CTL_MOD else .EPOLL_CTL_DEL) fd mask interest =
      some (Function.update interest fd (if left ≠ 0 then some mask else none)) := by
  by_cases more : left ≠ 0
  · rw [if_pos more, if_pos more, epoll_ctl.eq_def, if_pos grants.1]
  · rw [if_neg more, if_neg more, epoll_ctl.eq_def, if_pos grants.2]

theorem eq_zero_of_dropped {left mask : EpollMask}
    (dropped : (if left ≠ 0 then some mask else none) = none) : left = 0 := by
  by_contra more
  rw [if_pos more] at dropped
  cases dropped

/-- Nothing to wake. -/
theorem woke_nothing (wf : p.Wf worker) {which : EventType → Bool}
    (nobody : ∀ type, which type = true → p.waiter fd type = none) :
    Woke worker p fd which [] p := by
  refine ⟨wf, fun fd' type => ?_, ?_⟩
  · split
    · rename_i both
      rw [both.1, nobody type both.2]
    · rfl
  · have empty : ∀ type, (if which type = true then
        (p.waiter fd type).toList.map fun task => (worker, task) else []) = [] := by
      intro type
      split
      · rename_i due
        rw [nobody type due]
        rfl
      · rfl
    simp only [empty, List.flatMap_cons, List.flatMap_nil, List.append_nil]

theorem rearmed_refl (armed : p.Armed) : Rearmed p p := ⟨armed, fun _ => id⟩

/-- A new table of interest does not change who waits. -/
theorem Wf.withInterest (wf : p.Wf worker) (interest : Nat → Option EpollMask) :
    ({ p with interest := interest } : Epoller W C F).Wf worker ∧
      ({ p with interest := interest } : Epoller W C F).waiter = p.waiter :=
  wf.congr rfl

/-- `handleEvent` does nothing where nobody waits. -/
theorem handleEvent_nobody (wf : p.Wf worker) (waits : p.waiter fd type = none)
    (granted : CtlOp → Nat → Bool) : handleEvent granted fd type p = some (false, [], p) := by
  rw [handleEvent]
  split
  · rfl
  · cases event : p.ioEvents[fd]? with
    | none => rfl
    | some event' =>
        simp only [if_pos (types_eq_zero wf waits event)]
        rfl

/-- `handleEvent` wakes who waits for the direction. -/
theorem handleEvent_woke (wf : p.Wf worker) (armed : p.Armed) (grants : Grants granted p.interest)
    (fd : Nat) (type : EventType) :
    ∃ result woken p', handleEvent granted fd type p = some (result, woken, p') ∧
      Woke worker p fd (fun type' => type' = type) woken p' ∧ Rearmed p p' := by
  cases waits : p.waiter fd type with
  | none =>
      refine ⟨false, [], p, handleEvent_nobody wf waits granted,
        woke_nothing wf fun type' is => ?_, rearmed_refl armed⟩
      rw [of_decide_eq_true is, waits]
  | some task =>
      have registered : p.interest fd ≠ none := armed.registered fd type (by rw [waits]; simp)
      have set : ¬((IOEvent.of worker fd (p.waiter fd)).types &&& type.mask = 0) := fun clear => by
        rw [maskOf_and_eq_zero.mp clear] at waits
        cases waits
      obtain ⟨wf', waiters⟩ := wf.withInterest (Function.update p.interest fd
        (if (IOEvent.of worker fd (p.waiter fd)).types &&& ~~~type.mask ≠ 0 then
          some (EPOLLET ||| (IOEvent.of worker fd (p.waiter fd)).types &&& ~~~type.mask) else none))
      obtain ⟨p', ran, wf'', waiters', interest⟩ := triggle_eq wf' (by rw [waiters]; exact waits)
      rw [waiters] at waiters'
      have woke : Woke worker p fd (fun type' => type' = type) [(worker, task)] p' := by
        refine ⟨wf'', fun fd' type' => ?_, ?_⟩
        · rw [waiters']
          by_cases same : fd' = fd
          · subst same
            rw [Function.update_self, Function.update_apply]
            simp
          · rw [Function.update_of_ne same, if_neg fun both => same both.1]
        · cases type with
          | EPOLLIN => simp [waits]
          | EPOLLOUT => simp [waits]
      have length : p'.ioEvents.length = p.ioEvents.length := (length_triggle ran :)
      refine ⟨true, [(worker, task)], p', ?_, woke, rearmed_of_update armed woke length registered
        interest fun dropped type' => ?_⟩
      · have long : ¬p.Short fd := not_short armed.small (wf.event waits)
        simp only [handleEvent, if_neg long, wf.event waits, if_neg set,
          epoll_ctl_granted (grants fd registered), ran]
        rfl
      · have clear : maskOf (p.waiter fd) &&& ~~~type.mask = 0 := eq_zero_of_dropped dropped
        rw [maskOf_clear, maskOf_eq_zero] at clear
        by_cases same : type' = type
        · exact Or.inl (decide_eq_true same)
        · have nobody := clear type'
          rw [Function.update_of_ne same] at nobody
          exact Or.inr nobody

/-- `handleAllEvent` wakes who waits for either direction. -/
theorem handleAllEvent_woke (wf : p.Wf worker) (armed : p.Armed)
    (grants : Grants granted p.interest) (fd : Nat) :
    ∃ result woken p', handleAllEvent granted fd p = some (result, woken, p') ∧
      Woke worker p fd (fun _ => true) woken p' ∧ Rearmed p p' := by
  by_cases nobody : ∀ type, p.waiter fd type = none
  · refine ⟨false, [], p, ?_, woke_nothing wf fun type _ => nobody type, rearmed_refl armed⟩
    rw [handleAllEvent]
    split
    · rfl
    · cases event : p.ioEvents[fd]? with
      | none => rfl
      | some event' =>
          have clear : event'.types = 0 := by
            rw [wf fd event' event]
            exact maskOf_eq_zero.mpr nobody
          simp only [if_pos clear]
          rfl
  · obtain ⟨type, waits⟩ := not_forall.mp nobody
    obtain ⟨task, waits'⟩ := Option.ne_none_iff_exists'.mp waits
    have registered : p.interest fd ≠ none := armed.registered fd type waits
    have set : ¬((IOEvent.of worker fd (p.waiter fd)).types = 0) :=
      fun clear => waits (maskOf_eq_zero.mp clear type)
    obtain ⟨wf', waiters⟩ := wf.withInterest (Function.update p.interest fd none)
    have all_wait : ∀ type : EventType, maskOf (p.waiter fd) &&& type.mask ≠ 0 →
        ({ p with interest := Function.update p.interest fd none } : Epoller W C F).waiter fd type ≠
          none := by
      intro type due nobody
      rw [waiters] at nobody
      exact due (maskOf_and_eq_zero.mpr nobody)
    obtain ⟨woken, p', ran⟩ := triggleBoth_some wf' all_wait
    obtain ⟨woke, interest⟩ := triggleBoth_woke wf' ran
    have all := woke.congr waiters fun type waits =>
      show _ = true from decide_eq_true fun clear => waits (maskOf_and_eq_zero.mp clear)
    have length : p'.ioEvents.length = p.ioEvents.length := (length_triggleBoth ran :)
    have long : ¬p.Short fd := not_short armed.small (wf.event waits')
    refine ⟨true, woken, p', ?_, all, rearmed_of_update armed all length registered interest
      fun _ _ => Or.inl rfl⟩
    have dropped : epoll_ctl granted .EPOLL_CTL_DEL fd 0 p.interest =
        some (Function.update p.interest fd none) := if_pos (grants fd registered).2
    simp only [handleAllEvent, if_neg long, wf.event waits', if_neg set, dropped]
    exact Option.bind_eq_some_iff.mpr ⟨_, ran, rfl⟩

/-- What `wait` does with a report wakes some of those who wait. -/
theorem handleReport_woke (wf : p.Wf worker) (armed : p.Armed)
    (grants : Grants granted p.interest) {reported : EpollMask}
    (ran : handleReport granted fd reported p = some (woken, p')) :
    ∃ which, Woke worker p fd which woken p' ∧ Rearmed p p' := by
  rw [handleReport] at ran
  obtain ⟨event, member, ran⟩ := Option.bind_eq_some_iff.mp ran
  generalize realEvents event.types reported = real at ran
  rw [wf fd event member] at ran
  by_cases idle : (IOEvent.of worker fd (p.waiter fd)).types &&& real = 0
  · rw [if_pos idle] at ran
    cases ran
    exact ⟨fun _ => false, woke_nothing wf fun _ due => (Bool.false_ne_true due).elim,
      rearmed_refl armed⟩
  · rw [if_neg idle] at ran
    have registered : p.interest fd ≠ none := by
      intro unregistered
      refine idle ?_
      have nobody : maskOf (p.waiter fd) = 0 := maskOf_eq_zero.mpr fun type => by
        by_contra waits
        exact armed.registered fd type waits unregistered
      change maskOf (p.waiter fd) &&& real = 0
      rw [nobody]
      exact BitVec.zero_and
    simp only [epoll_ctl_granted (grants fd registered), Option.getD_some] at ran
    obtain ⟨wf', waiters⟩ := wf.withInterest (Function.update p.interest fd
      (if (IOEvent.of worker fd (p.waiter fd)).types &&& ~~~real ≠ 0 then
        some (EPOLLET &&& ((IOEvent.of worker fd (p.waiter fd)).types &&& ~~~real)) else none))
    obtain ⟨woke, interest⟩ := triggleBoth_woke wf' ran
    have here := woke.congr waiters fun _ _ => rfl
    have length : p'.ioEvents.length = p.ioEvents.length := (length_triggleBoth ran :)
    refine ⟨_, here, rearmed_of_update armed here length registered interest
      fun dropped type => ?_⟩
    by_cases waits : p.waiter fd type = none
    · exact Or.inr waits
    · exact Or.inl (decide_eq_true (real_of_left (eq_zero_of_dropped dropped) waits))

/-- What `addEvent` leaves. -/
structure Added (p : Epoller W C F) (task : Task C F) (fd : Nat) (type : EventType)
    (p' : Epoller W C F) : Prop where
  free : p.waiter fd type = none
  waiter_eq : ∀ fd' type', p'.waiter fd' type' =
    if fd' = fd ∧ type' = type then some task else p.waiter fd' type'
  interest_eq : ∃ mask, p'.interest = Function.update p.interest fd (some mask)

theorem getEventCtx_of {q : EventType → Option (Task C F)} :
    (IOEvent.of worker fd q).getEventCtx type = .of worker (q type) := by
  cases type <;> rfl

theorem register_of {q : EventType → Option (Task C F)} {task : Task C F}
    (free : q type = none) :
    (IOEvent.of worker fd q).register worker task type =
      .of worker fd (Function.update q type (some task)) := by
  have set : (IOEvent.of worker fd q).types ||| type.mask =
      maskOf (Function.update q type (some task)) := maskOf_set
  rw [IOEvent.register.eq_def, set]
  cases type <;> cases task <;>
    simp [IOEvent.of, IOEvent.getEventCtx, IOEvent.setEventCtx, EventCtx.of, free]

/-- The kernel's answer to a registration. -/
theorem epoll_ctl_add {left mask : EpollMask} {interest interest' : Nat → Option EpollMask}
    (ran : epoll_ctl granted (if left ≠ 0 then .EPOLL_CTL_MOD else .EPOLL_CTL_ADD) fd mask
      interest = some interest') :
    (granted .EPOLL_CTL_ADD fd = true ∨ granted .EPOLL_CTL_MOD fd = true) ∧
      interest' = Function.update interest fd (some mask) := by
  by_cases more : left ≠ 0
  · rw [if_pos more, epoll_ctl.eq_def] at ran
    split at ran
    · rename_i allowed
      cases ran
      exact ⟨Or.inr allowed, rfl⟩
    · cases ran
  · rw [if_neg more, epoll_ctl.eq_def] at ran
    split at ran
    · rename_i allowed
      cases ran
      exact ⟨Or.inl allowed, rfl⟩
    · cases ran

theorem epoll_ctl_refused {op : CtlOp} {mask : EpollMask} {interest : Nat → Option EpollMask}
    (ran : epoll_ctl granted op fd mask interest = none) : granted op fd = false := by
  rw [epoll_ctl.eq_def] at ran
  split at ran
  · cases op <;> cases ran
  · rename_i refused
    exact eq_false_of_ne_true refused

/-- The operation with which `addEvent` registers a descriptor. -/
def addOp (fd : Nat) (p : Epoller W C F) : CtlOp :=
  if maskOf (p.waiter fd) ≠ 0 then .EPOLL_CTL_MOD else .EPOLL_CTL_ADD

/-- The table is large enough for a descriptor below two thirds of what an `int` can hold. -/
theorem small_addEvent (small : p.ioEvents.length < 2 ^ 31) (low : fd * 3 / 2 < 2 ^ 31)
    {task : Task C F} {added : Bool}
    (ran : addEvent granted worker task fd type p = some (added, p')) :
    p'.ioEvents.length < 2 ^ 31 := by
  rw [addEvent] at ran
  have grown : (if p.Short fd then p.resize (fd * 3 / 2) else p).ioEvents.length < 2 ^ 31 := by
    split
    · rw [length_resize]
      exact low
    · exact small
  dsimp only at ran
  generalize (if p.Short fd then p.resize (fd * 3 / 2) else p) = p₀ at ran grown
  obtain ⟨event, -, ran⟩ := Option.bind_eq_some_iff.mp ran
  by_cases taken : event.types &&& type.mask ≠ 0
  · rw [if_pos taken] at ran
    cases ran
    exact grown
  · rw [if_neg taken] at ran
    cases ctl : epoll_ctl granted
        (if event.types ≠ 0 then CtlOp.EPOLL_CTL_MOD else .EPOLL_CTL_ADD) fd
        (EPOLLET ||| event.types ||| type.mask) p₀.interest with
    | none =>
        simp only [ctl] at ran
        cases ran
        exact grown
    | some interest =>
        simp only [ctl] at ran
        by_cases full : ((event.getEventCtx type).co.isSome ||
            (event.getEventCtx type).worker.isSome) = true
        · rw [if_pos full] at ran
          cases ran
        · rw [if_neg full] at ran
          cases ran
          rw [List.length_set]
          exact grown

theorem addEvent_cases (wf : p.Wf worker) (small : p.ioEvents.length < 2 ^ 31) {task : Task C F}
    {added : Bool}
    (ran : addEvent granted worker task fd type p = some (added, p')) :
    p'.Wf worker ∧
      (added = false ∧ p'.waiter = p.waiter ∧ p'.interest = p.interest ∧
          (p.waiter fd type ≠ none ∨ granted (p.addOp fd) fd = false) ∨
        added = true ∧ Added p task fd type p' ∧
          (granted .EPOLL_CTL_ADD fd = true ∨ granted .EPOLL_CTL_MOD fd = true)) := by
  rw [addEvent] at ran
  obtain ⟨p₀, grown, wf₀, waiters, interest⟩ : ∃ p₀ : Epoller W C F,
      (if p.Short fd then p.resize (fd * 3 / 2) else p) = p₀ ∧ p₀.Wf worker ∧
        p₀.waiter = p.waiter ∧ p₀.interest = p.interest := by
    refine ⟨_, rfl, ?_⟩
    split
    · rename_i short
      have outside := (short_iff small).mp short
      exact ⟨(wf.resize _).1, wf.resize_uncut (uncut_of_le (by omega)), rfl⟩
    · exact ⟨wf, rfl, rfl⟩
  simp only [grown] at ran
  obtain ⟨event, member, ran⟩ := Option.bind_eq_some_iff.mp ran
  have inside : fd < p₀.ioEvents.length := (List.getElem?_eq_some_iff.mp member).1
  rw [wf₀ fd event member] at ran
  by_cases taken : (IOEvent.of worker fd (p₀.waiter fd)).types &&& type.mask ≠ 0
  · rw [if_pos taken] at ran
    cases ran
    refine ⟨wf₀, Or.inl ⟨rfl, waiters, interest, Or.inl fun free => ?_⟩⟩
    rw [← waiters] at free
    exact taken (maskOf_and_eq_zero.mpr free)
  · rw [if_neg taken] at ran
    have free : p₀.waiter fd type = none := maskOf_and_eq_zero.mp (not_not.mp taken)
    cases ctl : epoll_ctl granted
        (if (IOEvent.of worker fd (p₀.waiter fd)).types ≠ 0 then
          CtlOp.EPOLL_CTL_MOD else .EPOLL_CTL_ADD) fd
        (EPOLLET ||| (IOEvent.of worker fd (p₀.waiter fd)).types ||| type.mask) p₀.interest with
    | none =>
        simp only [ctl] at ran
        cases ran
        refine ⟨wf₀, Or.inl ⟨rfl, waiters, interest, Or.inr ?_⟩⟩
        rw [addOp, ← waiters]
        exact epoll_ctl_refused ctl
    | some interest' =>
        have empty : ¬((((IOEvent.of worker fd (p₀.waiter fd)).getEventCtx type).co.isSome ||
            ((IOEvent.of worker fd (p₀.waiter fd)).getEventCtx type).worker.isSome) = true) := by
          rw [getEventCtx_of, free]
          exact Bool.false_ne_true
        simp only [ctl] at ran
        rw [if_neg empty, register_of free] at ran
        obtain ⟨allowed, updated⟩ := epoll_ctl_add ctl
        cases ran
        have table : (⟨interest', p₀.pendingEvents + 1, p₀.ioEvents.set fd (.of worker fd
            (Function.update (p₀.waiter fd) type (some task)))⟩ : Epoller W C F).ioEvents =
            p₀.ioEvents.set fd (.of worker fd
              (Function.update (p₀.waiter fd) type (some task))) := rfl
        obtain ⟨wf', waiters'⟩ := wf₀.set inside table
        refine ⟨wf', Or.inr ⟨rfl, ⟨?_, fun fd' type' => ?_, ?_⟩, allowed⟩⟩
        · rw [← waiters]
          exact free
        · rw [waiters', waiters]
          by_cases same : fd' = fd
          · subst same
            rw [Function.update_self, Function.update_apply]
            simp
          · rw [Function.update_of_ne same, if_neg fun both => same both.1]
        · rw [← interest]
          exact ⟨_, updated⟩

end Epoller

end Reyao
