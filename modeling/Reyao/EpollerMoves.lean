import Reyao.EpollerSpec

/-!
# The operations of a poller, event by event

Every operation of a poller either leaves the table as it is or replaces the event
of one descriptor; `Moved` says with what, and what becomes of `pendingEvents_` and
of the interest. The kernel may refuse any `epoll_ctl` but those of `wait`.
-/

namespace Reyao

variable {W C F : Type}

/-! ## Bits -/

section

variable {type : EventType}

/-- The position of the bit of a direction. -/
def EventType.bit : EventType → Nat
  | .EPOLLIN => 0
  | .EPOLLOUT => 2

theorem EventType.mask_eq : type.mask = BitVec.twoPow 32 type.bit := by
  cases type with
  | EPOLLIN => rfl
  | EPOLLOUT => rfl

theorem EventType.mask_ne_zero : BitVec.twoPow 32 type.bit ≠ 0 := by
  cases type with
  | EPOLLIN => decide
  | EPOLLOUT => decide

theorem and_mask_ne_zero {types : EpollMask} :
    types &&& type.mask ≠ 0 ↔ types.getLsbD type.bit = true := by
  rw [EventType.mask_eq, BitVec.and_twoPow]
  split
  · rename_i set
    exact iff_of_true EventType.mask_ne_zero set
  · rename_i clear
    exact iff_of_false (not_not.mpr rfl) clear

theorem mask_and_not {real : EpollMask} :
    type.mask &&& ~~~real = if real &&& type.mask ≠ 0 then 0 else type.mask := by
  rw [EventType.mask_eq, BitVec.and_comm, BitVec.and_twoPow, ← EventType.mask_eq]
  have inside : type.bit < 32 := by
    cases type with
    | EPOLLIN => decide
    | EPOLLOUT => decide
  rw [BitVec.getLsbD_not, decide_eq_true inside, Bool.true_and]
  by_cases bit : real &&& type.mask ≠ 0
  · rw [if_pos bit, and_mask_ne_zero.mp bit]
    rfl
  · rw [if_neg bit, Bool.eq_false_iff.mpr fun set => bit (and_mask_ne_zero.mpr set)]
    rfl

end

/-! ## One event replaced -/

/-- The tasks of the two directions. -/
def tasksOf (q : EventType → Option (Task C F)) : List (Task C F) :=
  (q .EPOLLIN).toList ++ (q .EPOLLOUT).toList

/-- The interest of a descriptor with the waiters `q`. -/
def armedMask (q : EventType → Option (Task C F)) : Option EpollMask :=
  if maskOf q = 0 then none else some (EPOLLET ||| maskOf q)

namespace Epoller

/-- The poller has the waiters `q` and the interest `mask` at a descriptor, and
nothing has changed elsewhere. -/
structure Moved (worker : W) (p : Epoller W C F) (fd : Nat) (q : EventType → Option (Task C F))
    (mask : Option EpollMask) (p' : Epoller W C F) : Prop where
  inside : fd < p.ioEvents.length
  table : p'.ioEvents = p.ioEvents.set fd (.of worker fd q)
  pending : p'.pendingEvents + UInt64.ofNat (tasksOf (p.waiter fd)).length =
    p.pendingEvents + UInt64.ofNat (tasksOf q).length
  interest_eq : p'.interest = Function.update p.interest fd mask

variable {worker : W} {p p' p'' : Epoller W C F} {fd : Nat} {type : EventType}
  {q q' : EventType → Option (Task C F)} {mask mask' : Option EpollMask}
  {granted : CtlOp → Nat → Bool}

theorem Moved.trans (wf : p.Wf worker) (first : Moved worker p fd q mask p')
    (second : Moved worker p' fd q' mask' p'') : Moved worker p fd q' mask' p'' := by
  obtain ⟨-, waiters⟩ := wf.set first.inside first.table
  have here : p'.waiter fd = q := by rw [waiters, Function.update_self]
  have pending₁ := first.pending
  have pending₂ := second.pending
  rw [here] at pending₂
  refine ⟨first.inside, ?_, ?_, ?_⟩
  · rw [second.table, first.table, List.set_set]
  · generalize UInt64.ofNat (tasksOf (p.waiter fd)).length = a at *
    generalize UInt64.ofNat (tasksOf q).length = b at *
    generalize UInt64.ofNat (tasksOf q').length = c at *
    grind
  · rw [second.interest_eq, first.interest_eq, Function.update_idem]

/-- Replacing an event by itself. -/
theorem Moved.refl (wf : p.Wf worker) (inside : fd < p.ioEvents.length) :
    Moved worker p fd (p.waiter fd) (p.interest fd) p := by
  refine ⟨inside, ?_, rfl, (Function.update_eq_self _ _).symm⟩
  have event := wf fd _ (List.getElem?_eq_getElem inside)
  rw [← event, List.set_getElem_self]

theorem Moved.wf (wf : p.Wf worker) (moved : Moved worker p fd q mask p') :
    p'.Wf worker ∧ p'.waiter = Function.update p.waiter fd q :=
  wf.set moved.inside moved.table

/-- The poller with another interest of a descriptor. -/
def withMask (fd : Nat) (mask : Option EpollMask) (p : Epoller W C F) : Epoller W C F :=
  { p with interest := Function.update p.interest fd mask }

/-- Giving the descriptor its interest first. -/
theorem Moved.of_withMask
    (moved : Moved worker (p.withMask fd mask) fd q ((p.withMask fd mask).interest fd) p') :
    Moved worker p fd q mask p' := by
  refine ⟨moved.inside, moved.table, moved.pending, ?_⟩
  rw [moved.interest_eq, Function.update_eq_self]
  rfl

/-- Taking a task out of a direction. -/
theorem length_tasksOf_clear {task : Task C F} (waits : q type = some task) :
    (tasksOf q).length = (tasksOf (Function.update q type none)).length + 1 := by
  cases type with
  | EPOLLIN => simp [tasksOf, waits]
  | EPOLLOUT => simp [tasksOf, waits]

theorem length_tasksOf_set {task : Task C F} (free : q type = none) :
    (tasksOf (Function.update q type (some task))).length = (tasksOf q).length + 1 := by
  cases type with
  | EPOLLIN => simp [tasksOf, free]
  | EPOLLOUT => simp [tasksOf, free]

/-- The waiters of the directions in `types`, and those of the others. -/
def taken (types : EpollMask) (q : EventType → Option (Task C F)) (type : EventType) :
    Option (Task C F) := if types &&& type.mask ≠ 0 then q type else none

def untaken (types : EpollMask) (q : EventType → Option (Task C F)) (type : EventType) :
    Option (Task C F) := if types &&& type.mask ≠ 0 then none else q type

theorem taken_maskOf : taken (maskOf q) q = q := by
  funext type
  rw [taken]
  split
  · rfl
  · rename_i clear
    exact (maskOf_and_eq_zero.mp (not_not.mp clear)).symm

theorem untaken_maskOf : untaken (maskOf q) q = fun _ => none := by
  funext type
  rw [untaken]
  split
  · rfl
  · rename_i clear
    exact maskOf_and_eq_zero.mp (not_not.mp clear)

theorem realEvents_bit {types reported : EpollMask}
    (bit : realEvents types reported &&& type.mask ≠ 0) :
    reported &&& type.mask ≠ 0 ∨ types &&& type.mask ≠ 0 := by
  rw [and_mask_ne_zero] at bit ⊢
  rw [and_mask_ne_zero]
  rw [realEvents, BitVec.getLsbD_and, Bool.and_eq_true] at bit
  have reported := bit.1
  split at reported
  · rw [BitVec.getLsbD_or, BitVec.getLsbD_and, Bool.or_eq_true, Bool.and_eq_true] at reported
    exact reported.imp_right And.right
  · exact Or.inl reported

theorem maskOf_untaken {real : EpollMask} : maskOf q &&& ~~~real = maskOf (untaken real q) := by
  have one : ∀ type : EventType, (if (q type).isSome then type.mask else 0) &&& ~~~real =
      if (untaken real q type).isSome then type.mask else 0 := by
    intro type
    rw [untaken]
    cases q type with
    | none => simp
    | some task =>
        rw [Option.isSome_some, if_pos rfl, mask_and_not]
        split
        · rfl
        · rfl
  rw [maskOf, maskOf, BitVec.and_or_distrib_right, one, one]

theorem epollet_and_maskOf : EPOLLET &&& maskOf q = 0 := by
  rw [maskOf]
  cases q .EPOLLIN <;> cases q .EPOLLOUT <;> simp [EPOLLET, EventType.mask]

theorem triggle_moved (wf : p.Wf worker) {task : Task C F} (waits : p.waiter fd type = some task) :
    ∃ p', triggle fd type p = some ([(worker, task)], p') ∧
      Moved worker p fd (Function.update (p.waiter fd) type none) (p.interest fd) p' := by
  have event := wf.event waits
  have inside : fd < p.ioEvents.length := (List.getElem?_eq_some_iff.mp event).1
  refine ⟨decPending ⟨p.interest, p.pendingEvents, p.ioEvents.set fd
      (.of worker fd (Function.update (p.waiter fd) type none))⟩, ?_,
    ⟨inside, ioEvents_decPending, ?_, (Function.update_eq_self _ _).symm⟩⟩
  · rw [triggle, event]
    simp only [Option.bind_eq_bind, Option.bind_some, IOEvent.triggleEvent_of waits]
    rfl
  · rw [length_tasksOf_clear waits, UInt64.ofNat_add]
    change p.pendingEvents - 1 + (_ + 1) = _
    grind

/-- One direction of `types`. -/
theorem triggleIf_moved (wf : p.Wf worker) (inside : fd < p.ioEvents.length) {types : EpollMask}
    (waits : types &&& type.mask ≠ 0 → p.waiter fd type ≠ none) :
    ∃ p', triggleIf types fd type p =
        some ((taken types (p.waiter fd) type).toList.map fun task => (worker, task), p') ∧
      Moved worker p fd (Function.update (p.waiter fd) type (untaken types (p.waiter fd) type))
        (p.interest fd) p' := by
  rw [triggleIf, taken, untaken]
  by_cases due : types &&& type.mask ≠ 0
  · obtain ⟨task, waits⟩ := Option.ne_none_iff_exists'.mp (waits due)
    rw [if_pos due, if_pos due, if_pos due, waits]
    exact triggle_moved wf waits
  · rw [if_neg due, if_neg due, if_neg due, Function.update_eq_self]
    exact ⟨p, rfl, Moved.refl wf inside⟩

/-- Both directions of `types`. -/
theorem triggleBoth_moved (wf : p.Wf worker) (inside : fd < p.ioEvents.length) {types : EpollMask}
    (waits : ∀ type : EventType, types &&& type.mask ≠ 0 → p.waiter fd type ≠ none) :
    ∃ p', triggleBoth types fd p =
        some ((tasksOf (taken types (p.waiter fd))).map fun task => (worker, task), p') ∧
      Moved worker p fd (untaken types (p.waiter fd)) (p.interest fd) p' := by
  obtain ⟨p₁, ran₁, moved₁⟩ := triggleIf_moved wf inside (waits .EPOLLIN)
  obtain ⟨wf₁, waiters⟩ := moved₁.wf wf
  have inside₁ : fd < p₁.ioEvents.length := by
    rw [moved₁.table, List.length_set]
    exact inside
  have here : p₁.waiter fd = Function.update (p.waiter fd) .EPOLLIN
      (untaken types (p.waiter fd) .EPOLLIN) := by
    rw [waiters, Function.update_self]
  have out : p₁.waiter fd .EPOLLOUT = p.waiter fd .EPOLLOUT := by
    rw [here]
    exact Function.update_of_ne EventType.noConfusion _ _
  obtain ⟨p₂, ran₂, moved₂⟩ := triggleIf_moved wf₁ inside₁ (by
    rw [out]
    exact waits .EPOLLOUT)
  have left : Function.update (p₁.waiter fd) .EPOLLOUT
      (untaken types (p₁.waiter fd) .EPOLLOUT) = untaken types (p.waiter fd) := by
    funext type
    rw [here]
    cases type with
    | EPOLLIN => rfl
    | EPOLLOUT => rfl
  have same : taken types (p₁.waiter fd) .EPOLLOUT = taken types (p.waiter fd) .EPOLLOUT := by
    rw [taken, taken, out]
  have interest : p₁.interest fd = p.interest fd := by
    rw [moved₁.interest_eq, Function.update_self]
  rw [left, interest] at moved₂
  refine ⟨p₂, ?_, moved₁.trans wf moved₂⟩
  simp only [triggleBoth, ran₁, ran₂, Option.bind_eq_bind, Option.bind_some, same, tasksOf,
    List.map_append]
  rfl

theorem triggle_withMask (wf : p.Wf worker) {task : Task C F}
    (waits : p.waiter fd type = some task) (mask : Option EpollMask) :
    ∃ p', triggle fd type (p.withMask fd mask) = some ([(worker, task)], p') ∧
      Moved worker p fd (Function.update (p.waiter fd) type none) mask p' := by
  obtain ⟨wf', waiters⟩ := wf.withInterest (Function.update p.interest fd mask)
  rw [← waiters] at waits ⊢
  obtain ⟨p', ran, moved⟩ := triggle_moved wf' waits
  exact ⟨p', ran, moved.of_withMask⟩

theorem triggleBoth_withMask (wf : p.Wf worker) (inside : fd < p.ioEvents.length)
    {types : EpollMask}
    (waits : ∀ type : EventType, types &&& type.mask ≠ 0 → p.waiter fd type ≠ none)
    (mask : Option EpollMask) :
    ∃ p', triggleBoth types fd (p.withMask fd mask) =
        some ((tasksOf (taken types (p.waiter fd))).map fun task => (worker, task), p') ∧
      Moved worker p fd (untaken types (p.waiter fd)) mask p' := by
  obtain ⟨wf', waiters⟩ := wf.withInterest (Function.update p.interest fd mask)
  rw [← waiters] at waits ⊢
  obtain ⟨p', ran, moved⟩ := triggleBoth_moved wf' inside waits
  exact ⟨p', ran, moved.of_withMask⟩

/-! ## The operations -/

/-- What the kernel keeps after an answer to `EPOLL_CTL_MOD` or `EPOLL_CTL_DEL`. -/
theorem epoll_ctl_change {left mask : EpollMask} {interest interest' : Nat → Option EpollMask}
    (ran : epoll_ctl granted (if left ≠ 0 then .EPOLL_CTL_MOD else .EPOLL_CTL_DEL) fd mask
      interest = some interest') :
    interest' = Function.update interest fd (if left = 0 then none else some mask) := by
  by_cases clear : left = 0
  · rw [if_neg (not_not.mpr clear), epoll_ctl.eq_def] at ran
    rw [if_pos clear]
    split at ran
    · exact (Option.some.inj ran).symm
    · cases ran
  · rw [if_pos clear, epoll_ctl.eq_def] at ran
    rw [if_neg clear]
    split at ran
    · exact (Option.some.inj ran).symm
    · cases ran

theorem types_ne_zero {task : Task C F} (waits : q type = some task) :
    ¬((IOEvent.of worker fd q).types &&& type.mask = 0) := by
  intro clear
  rw [maskOf_and_eq_zero.mp clear] at waits
  cases waits

theorem resetEventCtx_of :
    ({ IOEvent.of worker fd q with types := maskOf (Function.update q type none) } :
      IOEvent W C F).resetEventCtx type = .of worker fd (Function.update q type none) := by
  cases type with
  | EPOLLIN => simp [IOEvent.of, IOEvent.resetEventCtx, IOEvent.setEventCtx, EventCtx.of]
  | EPOLLOUT => simp [IOEvent.of, IOEvent.resetEventCtx, IOEvent.setEventCtx, EventCtx.of]

theorem delEvent_moves (wf : p.Wf worker) (granted : CtlOp → Nat → Bool) (fd : Nat)
    (type : EventType) :
    delEvent granted fd type p = (false, p) ∨
      ∃ task p', delEvent granted fd type p = (true, p') ∧ p.waiter fd type = some task ∧
        Moved worker p fd (Function.update (p.waiter fd) type none)
          (armedMask (Function.update (p.waiter fd) type none)) p' := by
  by_cases short : p.Short fd
  · exact Or.inl (if_pos short)
  unfold delEvent
  rw [if_neg short]
  cases waits : p.waiter fd type with
  | none =>
      left
      cases member : p.ioEvents[fd]? with
      | none => rfl
      | some event => simp only [types_eq_zero wf waits member, if_true]
  | some task =>
      have event := wf.event waits
      have inside : fd < p.ioEvents.length := (List.getElem?_eq_some_iff.mp event).1
      have set : ¬((IOEvent.of worker fd (p.waiter fd)).types &&& type.mask = 0) :=
        types_ne_zero waits
      have cleared : (IOEvent.of worker fd (p.waiter fd)).types &&& ~~~type.mask =
        maskOf (Function.update (p.waiter fd) type none) := maskOf_clear
      simp only [event, if_neg set, cleared, resetEventCtx_of]
      cases ctl : epoll_ctl granted
          (if maskOf (Function.update (p.waiter fd) type none) ≠ 0 then .EPOLL_CTL_MOD
            else .EPOLL_CTL_DEL) fd
          (EPOLLET ||| maskOf (Function.update (p.waiter fd) type none)) p.interest with
      | none => exact Or.inl rfl
      | some interest =>
          refine Or.inr ⟨task, _, rfl, rfl, inside, rfl, ?_, epoll_ctl_change ctl⟩
          rw [length_tasksOf_clear waits, UInt64.ofNat_add]
          change p.pendingEvents - 1 + (_ + 1) = _
          grind

theorem handleEvent_moves (wf : p.Wf worker) (granted : CtlOp → Nat → Bool) (fd : Nat)
    (type : EventType) :
    handleEvent granted fd type p = some (false, [], p) ∨
      ∃ task p', handleEvent granted fd type p = some (true, [(worker, task)], p') ∧
        p.waiter fd type = some task ∧
        Moved worker p fd (Function.update (p.waiter fd) type none)
          (armedMask (Function.update (p.waiter fd) type none)) p' := by
  by_cases short : p.Short fd
  · exact Or.inl (if_pos short)
  cases waits : p.waiter fd type with
  | none => exact Or.inl (handleEvent_nobody wf waits granted)
  | some task =>
      unfold handleEvent
      rw [if_neg short]
      have event := wf.event waits
      have set : ¬((IOEvent.of worker fd (p.waiter fd)).types &&& type.mask = 0) :=
        types_ne_zero waits
      have cleared : (IOEvent.of worker fd (p.waiter fd)).types &&& ~~~type.mask =
        maskOf (Function.update (p.waiter fd) type none) := maskOf_clear
      simp only [event, if_neg set, cleared]
      cases ctl : epoll_ctl granted
          (if maskOf (Function.update (p.waiter fd) type none) ≠ 0 then .EPOLL_CTL_MOD
            else .EPOLL_CTL_DEL) fd
          (EPOLLET ||| maskOf (Function.update (p.waiter fd) type none)) p.interest with
      | none => exact Or.inl rfl
      | some interest =>
          cases epoll_ctl_change ctl
          obtain ⟨p', ran, moved⟩ := triggle_withMask wf waits
            (armedMask (Function.update (p.waiter fd) type none))
          exact Or.inr ⟨task, p', Option.bind_eq_some_iff.mpr ⟨_, ran, rfl⟩, rfl, moved⟩

theorem handleAllEvent_moves (wf : p.Wf worker) (granted : CtlOp → Nat → Bool) (fd : Nat) :
    handleAllEvent granted fd p = some (false, [], p) ∨
      ∃ p', handleAllEvent granted fd p =
          some (true, (tasksOf (p.waiter fd)).map fun task => (worker, task), p') ∧
        Moved worker p fd (fun _ => none) none p' := by
  by_cases short : p.Short fd
  · exact Or.inl (if_pos short)
  unfold handleAllEvent
  rw [if_neg short]
  cases member : p.ioEvents[fd]? with
  | none => exact Or.inl rfl
  | some event =>
      have inside : fd < p.ioEvents.length := (List.getElem?_eq_some_iff.mp member).1
      rw [wf fd event member]
      by_cases clear : (IOEvent.of worker fd (p.waiter fd)).types = 0
      · left
        simp only [if_pos clear]
        rfl
      · simp only [if_neg clear]
        cases ctl : epoll_ctl granted .EPOLL_CTL_DEL fd 0 p.interest with
        | none => exact Or.inl rfl
        | some interest =>
            have changed : interest = Function.update p.interest fd none := by
              rw [epoll_ctl.eq_def] at ctl
              split at ctl
              · exact (Option.some.inj ctl).symm
              · cases ctl
            rw [changed]
            obtain ⟨p', ran, moved⟩ := triggleBoth_withMask wf inside
              (fun type bit nobody => bit (maskOf_and_eq_zero.mpr nobody)) none
            rw [taken_maskOf] at ran
            rw [untaken_maskOf] at moved
            exact Or.inr ⟨p', Option.bind_eq_some_iff.mpr ⟨_, ran, rfl⟩, moved⟩

/-- A report that `wait` handles, when somebody waits for every direction in it. -/
theorem handleReport_moves (wf : p.Wf worker) (inside : fd < p.ioEvents.length)
    {reported : EpollMask}
    (waits : ∀ type : EventType, reported &&& type.mask ≠ 0 → p.waiter fd type ≠ none) :
    let real := realEvents (maskOf (p.waiter fd)) reported
    maskOf (p.waiter fd) &&& real = 0 ∧
        handleReport (fun _ _ => true) fd reported p = some ([], p) ∨
      maskOf (p.waiter fd) &&& real ≠ 0 ∧
        ∃ p', handleReport (fun _ _ => true) fd reported p =
            some ((tasksOf (taken real (p.waiter fd))).map fun task => (worker, task), p') ∧
          Moved worker p fd (untaken real (p.waiter fd))
            (if maskOf (untaken real (p.waiter fd)) = 0 then none else some 0) p' := by
  intro real
  have event := List.getElem?_eq_getElem inside
  rw [wf fd _ event] at event
  have types : (IOEvent.of worker fd (p.waiter fd)).types = maskOf (p.waiter fd) := rfl
  simp only [handleReport, event, Option.bind_eq_bind, Option.bind_some, types]
  by_cases idle : maskOf (p.waiter fd) &&& real = 0
  · exact Or.inl ⟨idle, if_pos idle⟩
  · refine Or.inr ⟨idle, ?_⟩
    rw [if_neg idle, maskOf_untaken, epollet_and_maskOf]
    have granted : epoll_ctl (fun _ _ => true)
        (if maskOf (untaken real (p.waiter fd)) ≠ 0 then .EPOLL_CTL_MOD else .EPOLL_CTL_DEL) fd 0
        p.interest = some (Function.update p.interest fd
          (if maskOf (untaken real (p.waiter fd)) ≠ 0 then some 0 else none)) :=
      epoll_ctl_granted ⟨rfl, rfl⟩
    rw [granted, Option.getD_some, ite_not]
    refine triggleBoth_withMask wf inside (fun type bit => ?_) _
    rcases realEvents_bit bit with reported | waiting
    · exact waits type reported
    · exact fun nobody => waiting (maskOf_and_eq_zero.mpr nobody)

/-- The poller with the table `addEvent` works on. -/
def grown (fd : Nat) (p : Epoller W C F) : Epoller W C F :=
  if p.Short fd then p.resize (fd * 3 / 2) else p

/-- `addEvent(fd)` cuts nobody off. -/
def Fits (fd : Nat) (p : Epoller W C F) : Prop := p.Short fd → p.Uncut (fd * 3 / 2)

theorem fits_of_small (small : p.ioEvents.length < 2 ^ 31) (fd : Nat) : p.Fits fd := by
  intro short
  have outside := (short_iff small).mp short
  exact uncut_of_le (by omega)

/-- An `int` is not larger than the size it is made from. -/
theorem lt_length_of_not_short (long : ¬p.Short fd) : fd < p.ioEvents.length := by
  rw [Short, toInt, Int.bmod_def] at long
  omega

theorem grown_inside (large : 2 ≤ fd) : fd < (p.grown fd).ioEvents.length := by
  rw [grown]
  split
  · rw [length_resize]
    omega
  · rename_i long
    exact lt_length_of_not_short long

theorem grown_wf (wf : p.Wf worker) (fd : Nat) : (p.grown fd).Wf worker := by
  rw [grown]
  split
  · exact (wf.resize _).1
  · exact wf

theorem waiter_grown (wf : p.Wf worker) (fits : p.Fits fd) : (p.grown fd).waiter = p.waiter := by
  rw [grown]
  split
  · rename_i short
    exact wf.resize_uncut (fits short)
  · rfl

/-- The descriptor itself is not cut off. -/
theorem waiter_grown_self (wf : p.Wf worker) (large : 2 ≤ fd) :
    (p.grown fd).waiter fd = p.waiter fd := by
  rw [grown]
  split
  · rw [(wf.resize _).2, if_pos (by omega)]
  · rfl

theorem addEvent_moves (wf : p.Wf worker) (granted : CtlOp → Nat → Bool) (task : Task C F)
    (large : 2 ≤ fd) (type : EventType) :
    addEvent granted worker task fd type p = some (false, p.grown fd) ∨
      ∃ p', addEvent granted worker task fd type p = some (true, p') ∧
        p.waiter fd type = none ∧
        (granted .EPOLL_CTL_ADD fd = true ∨ granted .EPOLL_CTL_MOD fd = true) ∧
        Moved worker (p.grown fd) fd (Function.update (p.waiter fd) type (some task))
          (armedMask (Function.update (p.waiter fd) type (some task))) p' := by
  have wf₀ := grown_wf wf fd
  have waiters := waiter_grown_self wf large
  have inside : fd < (p.grown fd).ioEvents.length := grown_inside large
  have event := List.getElem?_eq_getElem inside
  rw [wf₀ fd _ event, waiters] at event
  have types : (IOEvent.of worker fd (p.waiter fd)).types = maskOf (p.waiter fd) := rfl
  have grow : (if p.Short fd then p.resize (fd * 3 / 2) else p) = p.grown fd := rfl
  simp only [addEvent, grow]
  generalize p.grown fd = p₀ at wf₀ waiters inside event ⊢
  simp only [event, Option.bind_eq_bind, Option.bind_some, types]
  by_cases waiting : maskOf (p.waiter fd) &&& type.mask ≠ 0
  · exact Or.inl (if_pos waiting)
  · rw [if_neg waiting]
    have free : p.waiter fd type = none := maskOf_and_eq_zero.mp (not_not.mp waiting)
    have mask : EPOLLET ||| maskOf (p.waiter fd) ||| type.mask =
        EPOLLET ||| maskOf (Function.update (p.waiter fd) type (some task)) := by
      rw [BitVec.or_assoc, maskOf_set]
    rw [mask]
    cases ctl : epoll_ctl granted
        (if maskOf (p.waiter fd) ≠ 0 then CtlOp.EPOLL_CTL_MOD else .EPOLL_CTL_ADD) fd
        (EPOLLET ||| maskOf (Function.update (p.waiter fd) type (some task)))
        p₀.interest with
    | none => exact Or.inl rfl
    | some interest =>
        have set : maskOf (Function.update (p.waiter fd) type (some task)) ≠ 0 := fun zero => by
          have nobody := maskOf_eq_zero.mp zero type
          rw [Function.update_self] at nobody
          cases nobody
        simp only [getEventCtx_of, free, register_of free]
        refine Or.inr ⟨_, rfl, trivial, (epoll_ctl_add ctl).1, inside, rfl, ?_, ?_⟩
        · rw [waiters, length_tasksOf_set free, UInt64.ofNat_add]
          change p₀.pendingEvents + 1 + _ = p₀.pendingEvents + (_ + 1)
          grind
        · rw [armedMask, if_neg set]
          exact (epoll_ctl_add ctl).2

end Epoller

end Reyao
