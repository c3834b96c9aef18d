import Reyao.HookPlaces

/-!
# What the changes of a scheduler keep

`Inv` says that everybody is in his place, that the pollers, the kernel and the
contexts agree, and that timers belong to the calls they were made for. Each section
is about one kind of change of the state that keeps it.
-/

namespace Reyao

variable {W : Type}

/-- The call of a coroutine that may come to wait for its descriptor. -/
def Pc.mayWait? : Pc W → Option (Call W)
  | .origin call => some call
  | .blocked call => some call
  | .armed call _ => some call
  | .suspended call _ => some call
  | _ => none

theorem Pc.call?_of_mayWait? {pc : Pc W} {call : Call W} (may : pc.mayWait? = some call) :
    pc.call? = some call := by
  cases pc <;> first | exact may | cases may

/-- Outside of a call nothing is waited for. -/
theorem Pc.mayWait?_of_out {pc : Pc W} {P : Call W → Prop} (out : pc.call? = none) (call : Call W)
    (may : pc.mayWait? = some call) : P call := by
  rw [Pc.call?_of_mayWait? may] at out
  cases out

theorem Pc.fits_of_out {pc : Pc W} {w : W} (work : pc.AtWork) (out : pc.call? = none) :
    pc.Fits (.running w) := by
  refine ⟨work, fun call is => ?_⟩
  rw [out] at is
  cases is

theorem Pc.mayWait?_cancel (errno : Errno) (pc : Pc W) : (pc.cancel errno).mayWait? =
    pc.mayWait?.map fun call => { call with cancelled := some errno } := by
  cases pc <;> rfl

/-! ## Functions of timers -/

/-- What becomes of a timer that is not set: it may lose its function, and its expiry
time changes only if it repeats. -/
structure Timer.Ages {F : Type} (old new : Timer F) : Prop where
  recursive : new.recursive = old.recursive
  func : new.func = none ∨ new.func = old.func
  expire : new.expire = old.expire ∨ old.recursive = true

/-- A timer that has expired, or that repeats. -/
def Timer.Due {F : Type} (now : Int) (timer : Timer F) : Prop :=
  timer.recursive = true ∨ timer.expire ≤ now

namespace Timer.Ages

variable {F : Type} {old mid new : Timer F}

theorem refl (timer : Timer F) : Timer.Ages timer timer := ⟨rfl, Or.inr rfl, Or.inl rfl⟩

theorem trans (first : Timer.Ages old mid) (second : Timer.Ages mid new) : Timer.Ages old new := by
  refine ⟨second.recursive.trans first.recursive, ?_, ?_⟩
  · rcases second.func with stopped | same
    · exact Or.inl stopped
    · rw [same]
      exact first.func
  · rcases second.expire with same | repeats
    · rw [same]
      exact first.expire
    · exact Or.inr (first.recursive.symm.trans repeats)

theorem func_eq (ages : Timer.Ages old new) {func : F} (is : new.func = some func) :
    old.func = some func := by
  rcases ages.func with stopped | same
  · rw [stopped] at is
    cases is
  · rwa [← same]

theorem due_iff (ages : Timer.Ages old new) (now : Int) : new.Due now ↔ old.Due now := by
  rw [Timer.Due, Timer.Due, ages.recursive]
  rcases ages.expire with same | repeats
  · rw [same]
  · exact iff_of_true (Or.inl repeats) (Or.inl repeats)

end Timer.Ages

namespace TimeManager

variable {F : Type} {m : TimeManager F} {func : F}

theorem ages_modify {f : Timer F → Timer F} {t : TimerPtr}
    (ages : Timer.Ages (m.heap t) (f (m.heap t))) (u : TimerPtr) :
    Timer.Ages (m.heap u) ((m.modify t f).heap u) := by
  change Timer.Ages (m.heap u) (Function.update m.heap t (f (m.heap t)) u)
  rw [Function.update_apply]
  split
  · rename_i same
    rwa [same]
  · exact .refl _

/-- A timer loses its function. -/
theorem ages_stop (t u : TimerPtr) :
    Timer.Ages (m.heap u) ((m.modify t fun timer => { timer with func := none }).heap u) :=
  ages_modify (f := fun timer => { timer with func := none }) ⟨rfl, Or.inl rfl, Or.inl rfl⟩ u

theorem ages_cancel (t u : TimerPtr) : Timer.Ages (m.heap u) ((m.cancel t).2.heap u) := by
  rw [cancel]
  split
  · dsimp only
    split <;> exact ages_stop t u
  · exact .refl _

/-- A timer is set, and no other changes. -/
theorem heap_addTimer_eq (addr : Nat) (now interval : Int) (new : F) (recursive : Bool) :
    (m.addTimer addr now interval new recursive).2.heap = Function.update m.heap m.allocated
      { addr := addr, recursive := recursive, interval := interval,
        expire := toInt64 (now + interval), func := some new } := by
  rw [addTimer, addTimerOf]
  dsimp only
  split <;> rfl

/-- The timer that is set, and the others. -/
theorem heap_addTimer (addr : Nat) (now interval : Int) (new : F) (recursive : Bool)
    (u : TimerPtr) :
    (m.addTimer addr now interval new recursive).2.heap u = m.heap u ∨
      (m.addTimer addr now interval new recursive).2.heap u =
        { addr := addr, recursive := recursive, interval := interval,
          expire := toInt64 (now + interval), func := some new } := by
  rw [heap_addTimer_eq, Function.update_apply]
  split
  · exact Or.inr rfl
  · exact Or.inl rfl

theorem ages_expireOne (now : Int) (t u : TimerPtr) :
    Timer.Ages (m.heap u) ((m.expireOne now t).2.heap u) := by
  rw [expireOne]
  split
  · rename_i repeats
    exact ages_modify (f := fun timer => { timer with expire := toInt64 (now + timer.interval) })
      ⟨rfl, Or.inr rfl, Or.inr repeats⟩ u
  · exact ages_stop t u

theorem ages_expireAll (now : Int) (ts : List TimerPtr) (u : TimerPtr) :
    Timer.Ages (m.heap u) ((expireAll now ts m).2.heap u) := by
  induction ts generalizing m with
  | nil => exact .refl _
  | cons t ts ih => exact (ages_expireOne now t u).trans ih

/-- A function that the loop hands out is that of a timer that was due. -/
theorem func_of_expireAll {now : Int} {ts : List TimerPtr} (due : ∀ t ∈ ts, (m.heap t).Due now)
    {u : TimerPtr} (handed : (u, some func) ∈ (expireAll now ts m).1) :
    ∃ v, (m.heap v).func = some func ∧ (m.heap v).Due now := by
  induction ts generalizing m with
  | nil => cases handed
  | cons t ts ih =>
      rcases List.mem_cons.mp handed with first | later
      · have out : (m.expireOne now t).1 = (t, (m.heap t).func) := by
          rw [expireOne]
          split <;> rfl
        exact ⟨t, (congrArg Prod.snd (first.trans out)).symm, due t List.mem_cons_self⟩
      · have ages := ages_expireOne (m := m) now t
        obtain ⟨v, is, was_due⟩ := ih (fun t' member =>
          ((ages t').due_iff now).mpr (due t' (List.mem_cons_of_mem _ member))) later
        exact ⟨v, (ages v).func_eq is, ((ages v).due_iff now).mp was_due⟩

/-- The timers that are taken out of the set have expired. -/
theorem due_of_mem_expired {now : Int} {probe : Nat} {t : TimerPtr}
    (member : t ∈ m.timers.take (m.expiredEnd now probe)) : (m.heap t).Due now := by
  have whole : ∀ {p : TimerPtr → Bool} {ts : List TimerPtr},
      t ∈ ts.take (ts.takeWhile p).length → p t = true := by
    intro p ts member
    rw [← List.prefix_iff_eq_take.mp (List.takeWhile_prefix p)] at member
    exact List.mem_takeWhile_imp member
  refine Or.inr ?_
  rw [expiredEnd, List.take_add] at member
  rcases List.mem_append.mp member with early | right_now
  · have before := whole early
    by_contra late
    have not_less : ¬((m.heap t).expire < now) := by omega
    have greater : (m.heap t).expire > now := by omega
    simp only [Timer.Comparator, if_neg not_less, if_pos greater] at before
    cases before
  · exact le_of_eq (beq_iff_eq.mp (whole right_now))

theorem ages_expiredFunctions (now : Int) (probe : Nat) (u : TimerPtr) :
    Timer.Ages (m.heap u) ((m.expiredFunctions now probe).2.heap u) := by
  rw [expiredFunctions]
  split
  · exact .refl _
  · exact ages_expireAll (m := { m with timers := m.timers.drop (m.expiredEnd now probe) }) now _ u

theorem func_of_expiredFunctions {now : Int} {probe : Nat} {u : TimerPtr}
    (handed : (u, some func) ∈ (m.expiredFunctions now probe).1) :
    ∃ v, (m.heap v).func = some func ∧ (m.heap v).Due now := by
  rw [expiredFunctions] at handed
  split at handed
  · cases handed
  · have due : ∀ t ∈ m.timers.take (m.expiredEnd now probe), (m.heap t).Due now :=
      fun t member => due_of_mem_expired member
    exact func_of_expireAll (m := { m with timers := m.timers.drop (m.expiredEnd now probe) })
      due handed

end TimeManager

namespace System

/-- The tables of the pollers, the kernel and the contexts agree. -/
structure Pollers (s : System W) : Prop where
  wf : ∀ w, (s.workers w).poller.Wf w
  armed : ∀ w, (s.workers w).poller.Armed
  opened : ∀ {w fd}, (s.workers w).poller.interest fd ≠ none → s.files fd ≠ none
  managed : ∀ {w fd type}, (s.workers w).poller.waiter fd type ≠ none →
    s.fdmanager.getFdContext fd ≠ none

/-- A descriptor that has had a context, and has it as long as it is open. -/
def Known (s : System W) (fd : Nat) : Prop :=
  fd ≤ maxFd ∧ (s.fdmanager.getFdContext fd ≠ none ∨ s.files fd = none)

structure Calls (s : System W) : Prop where
  /-- A call waits for managed descriptors only. -/
  started : ∀ {c call}, (s.coroutines c).pc.mayWait? = some call → s.Known call.fd
  /-- After `HandleAllEvent` nobody waits on the worker that closes. -/
  closing : ∀ {w c fd managed}, (s.workers w).phase = .running c →
    (s.coroutines c).pc = .closing fd managed → ∀ type, (s.workers w).poller.waiter fd type = none
  serial : ∀ {c call}, s.InCall c call → call.serial < (s.coroutines c).calls

/-- The function of a timer fits the call it was made for, if that goes on. -/
def CallbackOk (s : System W) (callback : Callback) : Prop :=
  callback.serial < (s.coroutines callback.co).calls ∧
    ∀ call, s.InCall callback.co call → call.serial = callback.serial →
      call.fd = callback.fd ∧ call.kind.type = callback.type

structure Callbacks (s : System W) : Prop where
  timers : ∀ {t callback}, (s.timers.heap t).func = some callback → s.CallbackOk callback
  tasks : ∀ {w callback}, .func callback ∈ (s.workers w).tasks → s.CallbackOk callback

structure Inv (s : System W) : Prop where
  placed : s.Placed
  pollers : s.Pollers
  calls : s.Calls
  callbacks : s.Callbacks

variable {s s' : System W} {w : W} {c : Nat}

/-! ## Calls that go on -/

/-- A call of `s'` is new, or it has gone on since `s`. -/
def Goes (s s' : System W) : Prop :=
  ∀ c, (s.coroutines c).calls ≤ (s'.coroutines c).calls ∧ ∀ call, s'.InCall c call →
    (s.coroutines c).calls ≤ call.serial ∧ call.serial < (s'.coroutines c).calls ∨
      ∃ call₀, s.InCall c call₀ ∧ call₀.serial = call.serial ∧ call₀.fd = call.fd ∧
        call₀.kind = call.kind

theorem goes_refl (same : s'.coroutines = s.coroutines) : Goes s s' := by
  intro c
  rw [same]
  refine ⟨le_refl _, fun call inCall => Or.inr ⟨call, ?_, rfl, rfl, rfl⟩⟩
  rwa [InCall, ← same]

theorem goes_one (others : ∀ c', c' ≠ c → s'.coroutines c' = s.coroutines c')
    (calls : (s.coroutines c).calls ≤ (s'.coroutines c).calls)
    (here : ∀ call, s'.InCall c call →
      (s.coroutines c).calls ≤ call.serial ∧ call.serial < (s'.coroutines c).calls ∨
        ∃ call₀, s.InCall c call₀ ∧ call₀.serial = call.serial ∧ call₀.fd = call.fd ∧
          call₀.kind = call.kind) : Goes s s' := by
  intro c'
  by_cases same : c' = c
  · subst same
    exact ⟨calls, here⟩
  · rw [others c' same]
    refine ⟨le_refl _, fun call inCall => Or.inr ⟨call, ?_, rfl, rfl, rfl⟩⟩
    rwa [InCall, ← others c' same]

/-- A coroutine that begins no call. -/
theorem goes_setCoroutine {co : Coroutine W} (calls : co.calls = (s.coroutines c).calls)
    (here : ∀ call, co.pc.call? = some call → ∃ call₀, s.InCall c call₀ ∧
      call₀.serial = call.serial ∧ call₀.fd = call.fd ∧ call₀.kind = call.kind) :
    Goes s (s.setCoroutine c co) := by
  refine goes_one (c := c) (fun c' other => coroutines_setCoroutine_of_ne other co) ?_
    fun call inCall => Or.inr ?_
  · rw [coroutines_setCoroutine_self, calls]
  · rw [InCall, coroutines_setCoroutine_self] at inCall
    exact here call inCall

theorem Goes.congr {s₁ : System W} (goes : Goes s s₁) (same : s'.coroutines = s₁.coroutines) :
    Goes s s' := by
  intro c
  obtain ⟨calls, here⟩ := goes c
  rw [same]
  refine ⟨calls, fun call inCall => here call ?_⟩
  rwa [InCall, ← same]

/-- A coroutine that is outside of a call. -/
theorem goes_out {co : Coroutine W} (calls : co.calls = (s.coroutines c).calls)
    (out : co.pc.call? = none) : Goes s (s.setCoroutine c co) := by
  refine goes_setCoroutine calls fun call is => ?_
  rw [out] at is
  cases is

theorem Goes.callbackOk (goes : Goes s s') {callback : Callback} (ok : s.CallbackOk callback) :
    s'.CallbackOk callback := by
  obtain ⟨calls, here⟩ := goes callback.co
  refine ⟨lt_of_lt_of_le ok.1 calls, fun call inCall same => ?_⟩
  rcases here call inCall with ⟨new, -⟩ | ⟨call₀, was, serial, fd, kind⟩
  · exact absurd ok.1 (by omega)
  · have fits := ok.2 call₀ was (serial.trans same)
    rwa [fd, kind] at fits

theorem Goes.serial (goes : Goes s s') (calls : s.Calls) {call : Call W}
    (inCall : s'.InCall c call) : call.serial < (s'.coroutines c).calls := by
  obtain ⟨more, here⟩ := goes c
  rcases here call inCall with ⟨-, new⟩ | ⟨call₀, was, serial, -⟩
  · exact new
  · have := calls.serial was
    omega

/-- Callbacks of `s'` that were there in `s` are still right. -/
theorem Callbacks.goes (goes : Goes s s')
    (timers : ∀ {t callback}, (s'.timers.heap t).func = some callback → s.CallbackOk callback)
    (tasks : ∀ {w callback}, .func callback ∈ (s'.workers w).tasks → s.CallbackOk callback) :
    s'.Callbacks :=
  ⟨fun is => goes.callbackOk (timers is), fun is => goes.callbackOk (tasks is)⟩

/-! ## Waking -/

/-- Pollers that have not changed. -/
theorem Pollers.congr (pollers : s.Pollers)
    (same : ∀ w, (s'.workers w).poller = (s.workers w).poller)
    (opened : ∀ fd, s.files fd ≠ none → s'.files fd ≠ none)
    (managed : ∀ fd, s.fdmanager.getFdContext fd ≠ none → s'.fdmanager.getFdContext fd ≠ none) :
    s'.Pollers where
  wf w := by rw [same]; exact pollers.wf w
  armed w := by rw [same]; exact pollers.armed w
  opened {w fd} registered := by
    rw [same] at registered
    exact opened fd (pollers.opened registered)
  managed {w fd type} waits := by
    rw [same] at waits
    exact managed fd (pollers.managed waits)

variable [DecidableEq W]

omit [DecidableEq W] in
/-- The kernel of a scheduler does not refuse to change what is registered. -/
theorem Pollers.grants (pollers : s.Pollers) (w : W) (refused : Bool) :
    Epoller.Grants (s.granted w refused) (s.workers w).poller.interest := by
  intro fd registered
  have file := pollers.opened registered
  have interest := Option.isSome_iff_ne_none.mpr registered
  have files := Option.isSome_iff_ne_none.mpr file
  simp only [granted, interest, files, Bool.and_self, and_self]

/-- Who waits where one poller has got a new waiter. -/
theorem waiter_added {task : Task Nat Callback} {fd : Nat} {type : EventType}
    {poller : Epoller W Nat Callback}
    (added : Epoller.Added (s.workers w).poller task fd type poller)
    (poller_eq : ∀ v, (s'.workers v).poller = if v = w then poller else (s.workers v).poller)
    (v : W) (fd' : Nat) (type' : EventType) :
    (s'.workers v).poller.waiter fd' type' =
      if v = w ∧ fd' = fd ∧ type' = type then some task
      else (s.workers v).poller.waiter fd' type' := by
  rw [poller_eq]
  by_cases same : v = w
  · rw [if_pos same, added.waiter_eq, same]
    simp only [true_and]
  · rw [if_neg same, if_neg fun all => same all.1]

theorem Pollers.added (pollers : s.Pollers) {task : Task Nat Callback} {fd : Nat}
    {type : EventType} {poller : Epoller W Nat Callback} (wf : poller.Wf w)
    (small : poller.ioEvents.length < 2 ^ 31)
    (added : Epoller.Added (s.workers w).poller task fd type poller)
    (poller_eq : ∀ v, (s'.workers v).poller = if v = w then poller else (s.workers v).poller)
    (files : s'.files = s.files) (fdmanager : s'.fdmanager = s.fdmanager)
    (opened : s.files fd ≠ none) (managed : s.fdmanager.getFdContext fd ≠ none) : s'.Pollers := by
  have waiter := waiter_added added poller_eq
  obtain ⟨mask, interest⟩ := added.interest_eq
  refine ⟨fun v => ?_, fun v => ⟨?_, fun fd' type' waits => ?_⟩, fun {v fd'} registered => ?_,
    fun {v fd' type'} waits => ?_⟩
  · rw [poller_eq]
    split
    · rename_i same
      rw [same]
      exact wf
    · exact pollers.wf v
  · rw [poller_eq]
    split
    · exact small
    · exact (pollers.armed v).small
  · rw [waiter] at waits
    rw [poller_eq]
    split
    · rename_i same
      rw [interest, Function.update_apply]
      split
      · exact Option.some_ne_none _
      · rename_i other
        rw [if_neg fun all => other all.2.1, same] at waits
        exact (pollers.armed w).registered fd' type' waits
    · rename_i other
      rw [if_neg fun all => other all.1] at waits
      exact (pollers.armed v).registered fd' type' waits
  · rw [files]
    rw [poller_eq] at registered
    split at registered
    · rw [interest, Function.update_apply] at registered
      split at registered
      · rename_i same
        rw [same]
        exact opened
      · exact pollers.opened registered
    · exact pollers.opened registered
  · rw [fdmanager]
    rw [waiter] at waits
    split at waits
    · rename_i all
      rw [all.2.1]
      exact managed
    · exact pollers.managed waits

theorem Pollers.wake (pollers : s.Pollers) {fd : Nat} {which : EventType → Bool}
    {woken : List (W × Task Nat Callback)} {poller : Epoller W Nat Callback}
    (woke : Epoller.Woke w (s.workers w).poller fd which woken poller)
    (rearmed : Epoller.Rearmed (s.workers w).poller poller) :
    ((s.setPoller w poller).addTasks woken).Pollers := by
  rw [addTasks_eq_setTasks woke.own]
  refine ⟨fun v => ?_, fun v => ?_, fun {v fd'} registered => ?_, fun {v fd' type} waits => ?_⟩
  · rw [poller_setTasks, poller_setPoller]
    split
    · rename_i same
      rw [same]
      exact woke.wf
    · exact pollers.wf v
  · rw [poller_setTasks, poller_setPoller]
    split
    · exact rearmed.armed
    · exact pollers.armed v
  · rw [poller_setTasks, poller_setPoller] at registered
    split at registered
    · exact pollers.opened (rearmed.interest_le fd' registered)
    · exact pollers.opened registered
  · rw [poller_setTasks, poller_setPoller] at waits
    split at waits
    · rw [woke.waiter_eq] at waits
      split at waits
      · exact absurd rfl waits
      · exact pollers.managed waits
    · exact pollers.managed waits

/-- Waking keeps everything. -/
theorem Inv.wake (inv : s.Inv) {fd : Nat} {which : EventType → Bool}
    {woken : List (W × Task Nat Callback)} {poller : Epoller W Nat Callback}
    (woke : Epoller.Woke w (s.workers w).poller fd which woken poller)
    (rearmed : Epoller.Rearmed (s.workers w).poller poller) :
    ((s.setPoller w poller).addTasks woken).Inv := by
  refine ⟨inv.placed.wake woke, inv.pollers.wake woke rearmed, ?_, ?_⟩
  · rw [addTasks_eq_setTasks woke.own]
    refine ⟨inv.calls.started, fun {v c fd' managed} running pc type => ?_, inv.calls.serial⟩
    rw [phase_setTasks, phase_setPoller] at running
    have nobody := inv.calls.closing running pc type
    rw [poller_setTasks, poller_setPoller]
    split
    · rename_i same
      rw [same] at nobody
      rw [woke.waiter_eq, nobody, ite_self]
    · exact nobody
  · refine Callbacks.goes (s := s) (goes_refl ?_) ?_ ?_
    · rw [coroutines_addTasks, coroutines_setPoller]
    · intro t callback is
      obtain ⟨workers, same⟩ := addTasks_eq woken (s.setPoller w poller)
      rw [same] at is
      exact inv.callbacks.timers is
    · exact fun queued => inv.callbacks.tasks (inv.placed.func_of_wake woke queued)

/-! ## Changes nobody's place depends on -/

omit [DecidableEq W] in
/-- Functions come and go in the queues, workers poll, timers are set and cancelled,
descriptors are opened and configured. -/
theorem Inv.quiet (inv : s.Inv) (coroutines : s'.coroutines = s.coroutines)
    (pollers : s'.Pollers)
    (waiter : ∀ w, (s'.workers w).poller.waiter = (s.workers w).poller.waiter)
    (phase : ∀ {w c}, (s'.workers w).phase = .running c → (s.workers w).phase = .running c)
    (tasks : ∀ w, (s'.workers w).tasks.filterMap Task.co? =
      (s.workers w).tasks.filterMap Task.co?)
    (funcs : ∀ {w callback}, .func callback ∈ (s'.workers w).tasks → s.CallbackOk callback)
    (timers : ∀ {t callback}, (s'.timers.heap t).func = some callback → s.CallbackOk callback)
    (started : ∀ fd, s.fdmanager.getFdContext fd ≠ none ∨ s.files fd = none →
      s'.fdmanager.getFdContext fd ≠ none ∨ s'.files fd = none) : s'.Inv := by
  have before : ∀ {c p}, s'.At c p → s.At c p := by
    intro c p here
    cases p with
    | queue v =>
        rw [At, ← mem_filterMap_co?, tasks, mem_filterMap_co?] at here
        exact here
    | running v => exact phase here
    | waiting v fd type =>
        rw [At, waiter] at here
        exact here
  refine ⟨⟨fun here there => inv.placed.unique (before here) (before there), fun w => ?_,
    fun {c p} here => ?_, fun {w fd type task} waits => ?_⟩, pollers,
    ⟨fun {c call} may => ?_, fun {w c fd managed} running pc type => ?_,
      fun {c call} inCall => ?_⟩,
    Callbacks.goes (goes_refl coroutines) timers funcs⟩
  · rw [tasks]
    exact inv.placed.nodup w
  · rw [coroutines]
    exact inv.placed.fits (before here)
  · rw [waiter] at waits
    exact inv.placed.coroutine waits
  · rw [coroutines] at may
    exact ⟨(inv.calls.started may).1, started _ (inv.calls.started may).2⟩
  · rw [coroutines] at pc
    rw [waiter]
    exact inv.calls.closing (phase running) pc type
  · rw [InCall, coroutines] at inCall
    rw [coroutines]
    exact inv.calls.serial inCall

omit [DecidableEq W] in
/-- Timers change. -/
theorem Inv.setTimers (inv : s.Inv) {timers : TimeManager Callback}
    (funcs : ∀ {t callback}, (timers.heap t).func = some callback → s.CallbackOk callback) :
    ({ s with timers := timers } : System W).Inv :=
  inv.quiet rfl (inv.pollers.congr (fun _ => rfl) (fun _ => id) fun _ => id) (fun _ => rfl) id
    (fun _ => rfl) inv.callbacks.tasks funcs fun _ => id

omit [DecidableEq W] in
theorem Inv.cancelTimer (inv : s.Inv) (timer : Option TimerPtr) : (s.cancelTimer timer).Inv := by
  cases timer with
  | none => exact inv
  | some t =>
      exact inv.setTimers fun is => inv.callbacks.timers ((TimeManager.ages_cancel t _).func_eq is)

/-- A worker that runs nothing goes on. -/
theorem Inv.setPhase (inv : s.Inv) {phase : WorkerPhase} (idle : ∀ c, phase ≠ .running c) :
    (s.setPhase w phase).Inv := by
  refine inv.quiet rfl (inv.pollers.congr (fun v => poller_setPhase phase v) (fun _ => id)
    fun _ => id) (fun v => by rw [poller_setPhase]) (fun {v c} running => ?_)
    (fun v => by rw [tasks_setPhase]) (fun queued => ?_) inv.callbacks.timers fun _ => id
  · rw [phase_setPhase] at running
    split at running
    · exact absurd running (idle c)
    · exact running
  · rw [tasks_setPhase] at queued
    exact inv.callbacks.tasks queued

/-- Functions of timers come into a queue, or leave it. -/
theorem Inv.setTasks (inv : s.Inv) {tasks : List (Task Nat Callback)}
    (same : tasks.filterMap Task.co? = (s.workers w).tasks.filterMap Task.co?)
    (funcs : ∀ {callback}, .func callback ∈ tasks → s.CallbackOk callback) :
    (s.setTasks w tasks).Inv := by
  refine inv.quiet rfl (inv.pollers.congr (fun v => poller_setTasks tasks v) (fun _ => id)
    fun _ => id) (fun v => by rw [poller_setTasks]) (fun {v c} running => ?_) (fun v => ?_)
    (fun {v callback} queued => ?_) inv.callbacks.timers fun _ => id
  · rwa [phase_setTasks] at running
  · rw [tasks_setTasks]
    split
    · rename_i here
      rw [here, same]
    · rfl
  · rw [tasks_setTasks] at queued
    split at queued
    · exact funcs queued
    · exact inv.callbacks.tasks queued

/-- A poller with the same waiters and registrations. -/
theorem Inv.setPoller (inv : s.Inv) {poller : Epoller W Nat Callback} (wf : poller.Wf w)
    (small : poller.ioEvents.length < 2 ^ 31)
    (waiter : poller.waiter = (s.workers w).poller.waiter)
    (interest : poller.interest = (s.workers w).poller.interest) :
    (s.setPoller w poller).Inv := by
  have waiters : ∀ v, ((s.setPoller w poller).workers v).poller.waiter =
      (s.workers v).poller.waiter := by
    intro v
    rw [poller_setPoller]
    split
    · rename_i same
      rw [same, waiter]
    · rfl
  have interests : ∀ v, ((s.setPoller w poller).workers v).poller.interest =
      (s.workers v).poller.interest := by
    intro v
    rw [poller_setPoller]
    split
    · rename_i same
      rw [same, interest]
    · rfl
  have pollers : (s.setPoller w poller).Pollers := by
    refine ⟨fun v => ?_, fun v => ⟨?_, fun fd type waits => ?_⟩, fun {v fd} registered => ?_,
      fun {v fd type} waits => ?_⟩
    · rw [poller_setPoller]
      split
      · rename_i same
        rw [same]
        exact wf
      · exact inv.pollers.wf v
    · rw [poller_setPoller]
      split
      · exact small
      · exact (inv.pollers.armed v).small
    · rw [waiters] at waits
      rw [interests]
      exact (inv.pollers.armed v).registered fd type waits
    · rw [interests] at registered
      exact inv.pollers.opened registered
    · rw [waiters] at waits
      exact inv.pollers.managed waits
  refine inv.quiet rfl pollers waiters (fun {v c} running => ?_) (fun v => by rw [tasks_setPoller])
    (fun queued => ?_) inv.callbacks.timers fun _ => id
  · rwa [phase_setPoller] at running
  · rw [tasks_setPoller] at queued
    exact inv.callbacks.tasks queued

omit [DecidableEq W] in
/-- A context is made or changed. -/
theorem Inv.setContexts (inv : s.Inv) {fdmanager : FdManager} {files : Nat → Option File}
    {nextFile : Nat} (opened : ∀ fd, s.files fd ≠ none → files fd ≠ none)
    (contexts : ∀ fd, s.fdmanager.getFdContext fd ≠ none → fdmanager.getFdContext fd ≠ none)
    (new : ∀ fd, s.files fd = none → fdmanager.getFdContext fd ≠ none ∨ files fd = none) :
    ({ s with fdmanager := fdmanager, files := files, nextFile := nextFile } : System W).Inv :=
  inv.quiet rfl (inv.pollers.congr (fun _ => rfl) opened contexts) (fun _ => rfl) id
    (fun _ => rfl) inv.callbacks.tasks inv.callbacks.timers fun fd known =>
      known.elim (fun managed => Or.inl (contexts fd managed)) (new fd)

omit [DecidableEq W] in
theorem Inv.openSocket (inv : s.Inv) {fd : Nat} (ran : s.openSocket fd = some s') : s'.Inv := by
  rw [System.openSocket] at ran
  split at ran
  · obtain ⟨fdmanager, added, done⟩ := Option.bind_eq_some_iff.mp ran
    cases done
    obtain ⟨here, others⟩ := FdManager.getFdContext_addFd added
    have managed : fdmanager.getFdContext fd ≠ none := by
      rw [here]
      exact Option.some_ne_none _
    refine inv.setContexts (fun fd' is => ?_) (fun fd' is => ?_) fun fd' free => ?_
    · rw [Function.update_apply]
      split
      · exact Option.some_ne_none _
      · exact is
    · by_cases same : fd' = fd
      · rw [same]
        exact managed
      · rw [others fd' same]
        exact is
    · by_cases same : fd' = fd
      · rw [same]
        exact Or.inl managed
      · rw [Function.update_of_ne same]
        exact Or.inr free
  · cases ran

omit [DecidableEq W] in
theorem Inv.modifyContext (inv : s.Inv) (fd : Nat) (f : FdContext → FdContext) :
    ({ s with fdmanager := s.fdmanager.modify fd f } : System W).Inv :=
  inv.setContexts (fun _ => id)
    (fun _ is dropped => is ((FdManager.getFdContext_modify_eq_none f).mp dropped))
    fun _ free => Or.inr free

/-! ## One coroutine changes or moves -/

omit [DecidableEq W] in
/-- A coroutine changes, moves to the place `q` or goes away; descriptors, timers and
everybody else stay. -/
theorem Inv.move (inv : s.Inv) {q : Option (Place W)} (moves : Moves s s' c q)
    (others : ∀ c', c' ≠ c → s'.coroutines c' = s.coroutines c')
    (fits : ∀ p, q = some p → (s'.coroutines c).pc.Fits p)
    (nodup : ∀ w, ((s'.workers w).tasks.filterMap Task.co?).Nodup)
    (coroutine : ∀ {w fd type task}, (s'.workers w).poller.waiter fd type = some task →
      ∃ c, task = .co c)
    (pollers : s'.Pollers)
    (fdmanager : s'.fdmanager = s.fdmanager) (files : s'.files = s.files)
    (started : ∀ call, (s'.coroutines c).pc.mayWait? = some call → s.Known call.fd)
    (closing : ∀ {w fd managed}, (s'.workers w).phase = .running c →
      (s'.coroutines c).pc = .closing fd managed →
      ∀ type, (s'.workers w).poller.waiter fd type = none)
    (waiter : ∀ {w c'}, c' ≠ c → (s'.workers w).phase = .running c' →
      (s'.workers w).poller.waiter = (s.workers w).poller.waiter)
    (goes : Goes s s') (timers : s'.timers = s.timers)
    (funcs : ∀ {w callback}, .func callback ∈ (s'.workers w).tasks →
      .func callback ∈ (s.workers w).tasks) : s'.Inv := by
  refine ⟨inv.placed.move moves others fits nodup coroutine, pollers,
    ⟨fun {c' call} may => ?_, fun {w c' fd managed} running pc type => ?_,
      fun inCall => goes.serial inv.calls inCall⟩,
    Callbacks.goes goes (fun is => ?_) fun queued => inv.callbacks.tasks (funcs queued)⟩
  · rw [Known, fdmanager, files]
    by_cases same : c' = c
    · rw [same] at may
      exact started call may
    · rw [others c' same] at may
      exact inv.calls.started may
  · by_cases same : c' = c
    · rw [same] at running pc
      exact closing running pc type
    · rw [waiter same running]
      rw [others c' same] at pc
      exact inv.calls.closing (moves.2 c' same (.running w) running) pc type
  · rw [timers] at is
    exact inv.callbacks.timers is

omit [DecidableEq W] in
/-- A coroutine changes and stays where it is. -/
theorem Inv.change (inv : s.Inv) {co : Coroutine W}
    (fits : ∀ p, s.At c p → co.pc.Fits p)
    (started : ∀ call, co.pc.mayWait? = some call → s.Known call.fd)
    (closing : ∀ {w fd managed}, (s.workers w).phase = .running c → co.pc = .closing fd managed →
      ∀ type, (s.workers w).poller.waiter fd type = none)
    (goes : Goes s (s.setCoroutine c co)) : (s.setCoroutine c co).Inv := by
  have here : (s.setCoroutine c co).coroutines c = co := coroutines_setCoroutine_self co
  obtain ⟨q, moves, place⟩ : ∃ q, Moves s (s.setCoroutine c co) c q ∧
      ∀ p, q = some p → s.At c p := by
    by_cases somewhere : ∃ p, s.At c p
    · obtain ⟨p, is⟩ := somewhere
      refine ⟨some p, ⟨fun p' is' => congrArg some (inv.placed.unique is is'), fun _ _ _ => id⟩, ?_⟩
      rintro p' ⟨⟩
      exact is
    · exact ⟨none, ⟨fun p is => absurd ⟨p, is⟩ somewhere, fun _ _ _ => id⟩, by rintro p ⟨⟩⟩
  refine inv.move moves (fun c' other => coroutines_setCoroutine_of_ne other co) ?_
    inv.placed.nodup inv.placed.coroutine
    (inv.pollers.congr (fun _ => rfl) (fun _ => id) (fun _ => id)) rfl rfl ?_ ?_
    (fun _ _ => rfl) goes rfl id
  · rw [here]
    exact fun p is => fits p (place p is)
  · rwa [here]
  · intro w fd managed running pc
    rw [here] at pc
    exact closing running pc

omit [DecidableEq W] in
/-- The coroutine that runs changes. -/
theorem Inv.advance (inv : s.Inv) (running : (s.workers w).phase = .running c)
    {co : Coroutine W} (fits : co.pc.Fits (.running w))
    (started : ∀ call, co.pc.mayWait? = some call → s.Known call.fd)
    (closing : ∀ fd managed, co.pc = .closing fd managed →
      ∀ type, (s.workers w).poller.waiter fd type = none)
    (goes : Goes s (s.setCoroutine c co)) : (s.setCoroutine c co).Inv := by
  have only : ∀ {p}, s.At c p → Place.running w = p :=
    fun is => inv.placed.unique (p := .running w) running is
  refine inv.change (fun p is => ?_) started (fun {v fd managed} is pc => ?_) goes
  · rw [← only is]
    exact fits
  · cases only (p := .running v) is
    exact closing fd managed pc

/-- A worker resumes the coroutine at the head of its queue. -/
theorem Inv.takeCo (inv : s.Inv) {tasks : List (Task Nat Callback)}
    (queued : (s.workers w).tasks = .co c :: tasks)
    {co : Coroutine W} (fits : co.pc.Fits (.running w))
    (started : ∀ call, co.pc.mayWait? = some call → s.Known call.fd)
    (closing : ∀ fd managed, co.pc ≠ .closing fd managed)
    (goes : Goes s (s.setCoroutine c co)) :
    (((s.setTasks w tasks).setPhase w (.running c)).setCoroutine c co).Inv := by
  generalize after : ((s.setTasks w tasks).setPhase w (.running c)).setCoroutine c co = s'
  have coroutines : s'.coroutines = (s.setCoroutine c co).coroutines := by rw [← after]; rfl
  have here : s'.coroutines c = co := by rw [coroutines, coroutines_setCoroutine_self]
  have poller : ∀ v, (s'.workers v).poller = (s.workers v).poller := fun v => by
    rw [← after]
    exact (poller_setPhase _ v).trans (poller_setTasks tasks v)
  have tasks_eq : ∀ v, (s'.workers v).tasks = if v = w then tasks else (s.workers v).tasks :=
    fun v => by
      rw [← after]
      exact (tasks_setPhase _ v).trans (tasks_setTasks tasks v)
  have phase : ∀ v, (s'.workers v).phase = if v = w then .running c else (s.workers v).phase :=
    fun v => by
      rw [← after]
      refine (phase_setPhase _ v).trans ?_
      rw [phase_setTasks]
  have before : ∀ {v task}, task ∈ (s'.workers v).tasks → task ∈ (s.workers v).tasks := by
    intro v task member
    rw [tasks_eq] at member
    split at member
    · rename_i same
      rw [same, queued]
      exact List.mem_cons_of_mem _ member
    · exact member
  have nodup := inv.placed.nodup w
  rw [queued] at nodup
  obtain ⟨fresh, rest⟩ := List.nodup_cons.mp nodup
  have only : ∀ {p}, s.At c p → Place.queue w = p := fun is =>
    inv.placed.unique (p := .queue w) (by rw [At, queued]; exact List.mem_cons_self) is
  refine inv.move (q := some (.running w)) ⟨fun p is => ?_, fun c' other p is => ?_⟩
    (fun c' other => by rw [coroutines, coroutines_setCoroutine_of_ne other]) ?_ (fun v => ?_)
    (fun {v fd type task} waits => ?_)
    (inv.pollers.congr poller (by rw [← after]; exact fun _ => id)
      (by rw [← after]; exact fun _ => id))
    (by rw [← after]; rfl) (by rw [← after]; rfl) ?_ ?_ (fun _ _ => by rw [poller])
    (by rw [← after]; exact goes) (by rw [← after]; rfl) before
  · cases p with
    | queue v =>
        cases only (p := .queue v) (before is)
        rw [At, tasks_eq, if_pos rfl] at is
        exact absurd (mem_filterMap_co?.mpr is) fresh
    | running v =>
        rw [At, phase] at is
        split at is
        · rename_i same
          rw [same]
        · cases only (p := .running v) is
    | waiting v fd type =>
        rw [At, poller] at is
        cases only (p := .waiting v fd type) is
  · cases p with
    | queue v => exact before is
    | running v =>
        rw [At, phase] at is
        split at is
        · cases is
          exact absurd rfl other
        · exact is
    | waiting v fd type =>
        rw [At, poller] at is
        exact is
  · rintro p ⟨⟩
    rw [here]
    exact fits
  · rw [tasks_eq]
    split
    · exact rest
    · exact inv.placed.nodup v
  · rw [poller] at waits
    exact inv.placed.coroutine waits
  · rwa [here]
  · intro v fd managed running pc
    rw [here] at pc
    exact absurd pc (closing fd managed)

/-- A coroutine that is nowhere is put into a queue. -/
theorem Inv.schedule (inv : s.Inv) (away : (s.coroutines c).pc = .away) :
    ((s.setPc c .ready).addTasks [(w, .co c)]).Inv := by
  have own : ∀ t ∈ [(w, (.co c : Task Nat Callback))], t.1 = w := by simp
  rw [addTasks_eq_setTasks own]
  generalize after : (s.setPc c .ready).setTasks w (((s.setPc c .ready).workers w).tasks ++
    [(w, .co c)].map Prod.snd) = s'
  have coroutines : s'.coroutines = (s.setPc c .ready).coroutines := by rw [← after]; rfl
  have here : (s'.coroutines c).pc = .ready := by
    rw [coroutines, setPc, coroutines_setCoroutine_self]
  have poller : ∀ v, (s'.workers v).poller = (s.workers v).poller := fun v => by
    rw [← after]
    exact poller_setTasks _ v
  have phase : ∀ v, (s'.workers v).phase = (s.workers v).phase := fun v => by
    rw [← after]
    exact phase_setTasks _ v
  have tasks_eq : ∀ v, (s'.workers v).tasks =
      if v = w then (s.workers w).tasks ++ [.co c] else (s.workers v).tasks := fun v => by
    rw [← after]
    exact tasks_setTasks _ v
  have nowhere : ∀ {p}, ¬s.At c p := fun {p} is => by
    have fits := inv.placed.fits is
    rw [away] at fits
    cases p <;> simp [Pc.Fits, Pc.AtWork] at fits
  have before : ∀ {v task}, task ∈ (s'.workers v).tasks →
      task ∈ (s.workers v).tasks ∨ v = w ∧ task = .co c := by
    intro v task member
    rw [tasks_eq] at member
    split at member
    · rename_i same
      rcases List.mem_append.mp member with old | new
      · rw [same]
        exact Or.inl old
      · exact Or.inr ⟨same, List.mem_singleton.mp new⟩
    · exact Or.inl member
  refine inv.move (q := some (.queue w)) ⟨fun p is => ?_, fun c' other p is => ?_⟩
    (fun c' other => by rw [coroutines, setPc, coroutines_setCoroutine_of_ne other]) ?_
    (fun v => ?_) (fun {v fd type task} waits => ?_)
    (inv.pollers.congr poller (by rw [← after]; exact fun _ => id)
      (by rw [← after]; exact fun _ => id))
    (by rw [← after]; rfl) (by rw [← after]; rfl) ?_ ?_ (fun _ _ => by rw [poller])
    ?_ (by rw [← after]; rfl) ?_
  · cases p with
    | queue v =>
        rcases before is with old | ⟨same, -⟩
        · exact (nowhere (p := .queue v) old).elim
        · rw [same]
    | running v =>
        rw [At, phase] at is
        exact (nowhere (p := .running v) is).elim
    | waiting v fd type =>
        rw [At, poller] at is
        exact (nowhere (p := .waiting v fd type) is).elim
  · cases p with
    | queue v =>
        rcases before is with old | ⟨-, same⟩
        · exact old
        · cases same
          exact absurd rfl other
    | running v =>
        rw [At, phase] at is
        exact is
    | waiting v fd type =>
        rw [At, poller] at is
        exact is
  · rintro p ⟨⟩
    rw [here]
    exact Or.inl rfl
  · rw [tasks_eq]
    split
    · rw [List.filterMap_append]
      refine List.nodup_append.mpr ⟨inv.placed.nodup w, List.pairwise_singleton _ _, ?_⟩
      rintro a queued b last rfl
      cases List.mem_singleton.mp last
      exact nowhere (p := .queue w) (mem_filterMap_co?.mp queued)
    · exact inv.placed.nodup v
  · rw [poller] at waits
    exact inv.placed.coroutine waits
  · rw [here]
    exact Pc.mayWait?_of_out rfl
  · rw [here]
    rintro _ _ _ _ ⟨⟩
  · have out : Goes s (s.setPc c .ready) := goes_out rfl rfl
    exact out.congr coroutines
  · intro v callback member
    rcases before member with old | ⟨-, same⟩
    · exact old
    · cases same

/-- The coroutine that runs gives its worker back. -/
theorem Inv.leave (inv : s.Inv) (running : (s.workers w).phase = .running c) :
    ((s.setPc c .away).setPhase w .loop).Inv := by
  generalize after : (s.setPc c .away).setPhase w .loop = s'
  have coroutines : s'.coroutines = (s.setPc c .away).coroutines := by rw [← after]; rfl
  have here : (s'.coroutines c).pc = .away := by
    rw [coroutines, setPc, coroutines_setCoroutine_self]
  have poller : ∀ v, (s'.workers v).poller = (s.workers v).poller := fun v => by
    rw [← after]
    exact poller_setPhase _ v
  have tasks_eq : ∀ v, (s'.workers v).tasks = (s.workers v).tasks := fun v => by
    rw [← after]
    exact tasks_setPhase _ v
  have phase : ∀ v, (s'.workers v).phase = if v = w then .loop else (s.workers v).phase :=
    fun v => by
      rw [← after]
      exact phase_setPhase _ v
  have before : ∀ {c' p}, s'.At c' p → s.At c' p ∧ p ≠ .running w := by
    intro c' p is
    cases p with
    | queue v =>
        rw [At, tasks_eq] at is
        exact ⟨is, by rintro ⟨⟩⟩
    | running v =>
        rw [At, phase] at is
        split at is
        · cases is
        · rename_i other
          exact ⟨is, fun same => other (Place.running.inj same)⟩
    | waiting v fd type =>
        rw [At, poller] at is
        exact ⟨is, by rintro ⟨⟩⟩
  refine inv.move (q := none) ⟨fun p is => ?_, fun c' _ p is => (before is).1⟩
    (fun c' other => by rw [coroutines, setPc, coroutines_setCoroutine_of_ne other])
    (by rintro _ ⟨⟩)
    (fun v => by rw [tasks_eq]; exact inv.placed.nodup v) (fun {v fd type task} waits => ?_)
    (inv.pollers.congr poller (by rw [← after]; exact fun _ => id)
      (by rw [← after]; exact fun _ => id))
    (by rw [← after]; rfl) (by rw [← after]; rfl) ?_ ?_ (fun _ _ => by rw [poller])
    ?_ (by rw [← after]; rfl) (fun {v callback} member => by rwa [tasks_eq] at member)
  · obtain ⟨was, other⟩ := before is
    exact absurd (inv.placed.unique (p := .running w) running was).symm other
  · rw [poller] at waits
    exact inv.placed.coroutine waits
  · rw [here]
    exact Pc.mayWait?_of_out rfl
  · rw [here]
    rintro _ _ _ _ ⟨⟩
  · have out : Goes s (s.setPc c .away) := goes_out rfl rfl
    exact out.congr coroutines

/-- The coroutine that runs suspends itself after `AddEvent`. -/
theorem Inv.suspend (inv : s.Inv) (running : (s.workers w).phase = .running c)
    {call : Call W} {timer : Option TimerPtr} (pc : (s.coroutines c).pc = .armed call timer)
    {poller : Epoller W Nat Callback} (wf : poller.Wf w) (small : poller.ioEvents.length < 2 ^ 31)
    (added : Epoller.Added (s.workers w).poller (.co c) call.fd call.kind.type poller)
    (opened : s.files call.fd ≠ none) :
    (((s.setPoller w poller).setPc c (.suspended call timer)).setPhase w .loop).Inv := by
  generalize after : ((s.setPoller w poller).setPc c (.suspended call timer)).setPhase w .loop = s'
  have coroutines : s'.coroutines = (s.setPc c (.suspended call timer)).coroutines := by
    rw [← after]
    rfl
  have here : (s'.coroutines c).pc = .suspended call timer := by
    rw [coroutines, setPc, coroutines_setCoroutine_self]
  have poller_eq : ∀ v, (s'.workers v).poller = if v = w then poller else (s.workers v).poller :=
    fun v => by
      rw [← after]
      exact (poller_setPhase _ v).trans (poller_setPoller poller v)
  have tasks_eq : ∀ v, (s'.workers v).tasks = (s.workers v).tasks := fun v => by
    rw [← after]
    exact (tasks_setPhase _ v).trans (tasks_setPoller poller v)
  have phase : ∀ v, (s'.workers v).phase = if v = w then .loop else (s.workers v).phase :=
    fun v => by
      rw [← after]
      refine (phase_setPhase _ v).trans ?_
      split
      · rfl
      · exact phase_setPoller poller v
  have waiter := waiter_added added poller_eq
  obtain ⟨own, uncancelled⟩ := (inv.placed.running running).2 call (by rw [InCall, pc]; rfl)
  have before : ∀ {c' p}, s'.At c' p → s.At c' p ∧ p ≠ .running w ∨
      c' = c ∧ p = .waiting w call.fd call.kind.type := by
    intro c' p is
    cases p with
    | queue v =>
        rw [At, tasks_eq] at is
        exact Or.inl ⟨is, by rintro ⟨⟩⟩
    | running v =>
        rw [At, phase] at is
        split at is
        · cases is
        · rename_i other
          exact Or.inl ⟨is, fun same => other (Place.running.inj same)⟩
    | waiting v fd type =>
        rw [At, waiter] at is
        split at is
        · rename_i all
          cases is
          obtain ⟨rfl, rfl, rfl⟩ := all
          exact Or.inr ⟨rfl, rfl⟩
        · exact Or.inl ⟨is, by rintro ⟨⟩⟩
  have fdmanager : s'.fdmanager = s.fdmanager := by rw [← after]; rfl
  have files : s'.files = s.files := by rw [← after]; rfl
  have known : s.Known call.fd := inv.calls.started (c := c) (by rw [pc]; rfl)
  have pollers := inv.pollers.added wf small added poller_eq files fdmanager opened
    (known.2.resolve_right opened)
  refine inv.move (q := some (.waiting w call.fd call.kind.type))
    ⟨fun p is => ?_, fun c' other p is => ?_⟩
    (fun c' other => by rw [coroutines, setPc, coroutines_setCoroutine_of_ne other]) ?_
    (fun v => by rw [tasks_eq]; exact inv.placed.nodup v) (fun {v fd type task} waits => ?_)
    pollers fdmanager files ?_ ?_ (fun {v c'} other is => ?_)
    ?_ (by rw [← after]; rfl) (fun {v callback} member => by rwa [tasks_eq] at member)
  · rcases before is with ⟨was, other⟩ | ⟨-, same⟩
    · exact absurd (inv.placed.unique (p := .running w) running was).symm other
    · rw [same]
  · rcases before is with ⟨was, -⟩ | ⟨same, -⟩
    · exact was
    · exact absurd same other
  · rintro p ⟨⟩
    rw [here]
    exact ⟨call, timer, rfl, own, rfl, rfl, uncancelled⟩
  · rw [waiter] at waits
    split at waits
    · exact ⟨c, (Option.some.inj waits).symm⟩
    · exact inv.placed.coroutine waits
  · rw [here]
    rintro call' ⟨⟩
    exact known
  · rw [here]
    rintro _ _ _ _ ⟨⟩
  · rw [phase] at is
    split at is
    · cases is
    · rename_i elsewhere
      rw [poller_eq, if_neg elsewhere]
  · have waits : Goes s (s.setPc c (.suspended call timer)) := by
      refine goes_setCoroutine rfl fun call' is => ?_
      cases is
      exact ⟨call, by rw [InCall, pc]; rfl, rfl, rfl, rfl⟩
    exact waits.congr coroutines

omit [DecidableEq W] in
/-- The time of a call is over: it is marked where it lies in a queue. -/
theorem Inv.cancel (inv : s.Inv) (errno : Errno)
    (queued : ∀ p, s.At c p → ∃ v, p = .queue v) :
    (s.setPc c ((s.coroutines c).pc.cancel errno)).Inv := by
  refine inv.change (fun p is => ?_) (fun call may => ?_) (fun {v fd managed} is pc => ?_)
    (goes_setCoroutine rfl fun call is => ?_)
  · obtain ⟨v, rfl⟩ := queued p is
    rcases inv.placed.fits is with ready | ⟨call, timer, suspended, own⟩
    · exact Or.inl (by rw [ready]; rfl)
    · exact Or.inr ⟨{ call with cancelled := some errno }, timer, by rw [suspended]; rfl, own⟩
  · rw [Pc.mayWait?_cancel] at may
    obtain ⟨call', may', rfl⟩ := Option.map_eq_some_iff.mp may
    have known := inv.calls.started may'
    exact known
  · obtain ⟨v', other⟩ := queued (.running v) is
    cases other
  · rw [Pc.call?_cancel] at is
    obtain ⟨call', is', rfl⟩ := Option.map_eq_some_iff.mp is
    exact ⟨call', is', rfl, rfl, rfl⟩

/-! ## The beginning -/

omit [DecidableEq W] in
theorem inv_init (files : Nat → Option File) (nextFile : Nat) :
    (init files nextFile : System W).Inv := by
  have nobody : ∀ fd type, ({} : Epoller W Nat Callback).waiter fd type = none := fun _ _ => rfl
  have nowhere : ∀ {c p}, ¬(init files nextFile : System W).At c p := by
    intro c p is
    cases p <;> cases is
  refine ⟨⟨fun is => (nowhere is).elim, fun _ => List.nodup_nil, fun is => (nowhere is).elim, ?_⟩,
    ⟨?_, fun w => ⟨Nat.two_pow_pos 31, fun fd type waits => absurd (nobody fd type) waits⟩,
      fun registered => absurd rfl registered, fun waits => absurd (nobody _ _) waits⟩,
    ⟨?_, ?_, ?_⟩, ⟨?_, ?_⟩⟩
  · rintro w fd type task ⟨⟩
  · rintro w fd event ⟨⟩
  · rintro c call ⟨⟩
  · rintro w c fd managed ⟨⟩
  · rintro c call ⟨⟩
  · rintro t callback ⟨⟩
  · rintro w callback ⟨⟩

end System

end Reyao
