import Reyao.HookWake

/-!
# What a step does to calls, timers and queued functions

`Change` lists what a step may do to a coroutine. `Effect` adds where the timers of
the next state and the functions in its queues come from. Every step has such an
effect (`Inv.effect`), so that what is about calls and their timers can be shown
without looking at steps again.
-/

namespace Reyao

/-- What a hooked call that waits no more returns for an answer of the original
function. -/
def Answer.result : Answer → CallResult
  | .success => .success
  | .accepted _ => .success
  | .failure errno => .failure errno

/-- The kinds of calls that `do_io` makes. -/
def CallKind.IsIo (kind : CallKind) : Prop := ∀ timeout, kind ≠ .connect timeout

namespace System

variable {W : Type} [DecidableEq W]

/-- What a step may do to the coroutine `c`: the state it has then. -/
inductive Change (s : System W) (label : Label W) (c : Nat) : Coroutine W → Prop
  | same : Change s label c (s.coroutines c)
  /-- It moves outside of hooked calls. -/
  | outside {pc : Pc W} :
    (s.coroutines c).pc.call? = none → pc.call? = none →
    Change s label c { s.coroutines c with pc := pc }
  | begins {w : W} {kind : CallKind} {fd : Nat} :
    label = .begin w kind fd → (s.workers w).phase = .running c → (s.coroutines c).pc = .user →
    Change s label c
      (begin w kind fd (s.fdmanager.getFdContext fd) (s.files fd) (s.coroutines c))
  /-- A call that does not wait returns. -/
  | done {result : CallResult} :
    (s.coroutines c).pc.mayWait? = none → Change s label c ((s.coroutines c).returns result)
  /-- A call that may wait returns an answer. -/
  | answered {w : W} {call : Call W} {answer : Answer} :
    label = .origin w answer → (s.workers w).phase = .running c →
    (s.coroutines c).pc = .origin call →
    (call.kind.IsIo → answer ≠ .failure .EAGAIN ∧ answer ≠ .failure .EINTR) →
    Change s label c ((s.coroutines c).returns answer.result)
  /-- A call that may wait goes on. -/
  | goesOn {call : Call W} {pc : Pc W} :
    (s.coroutines c).pc.mayWait? = some call → pc.mayWait? = some call →
    Change s label c { s.coroutines c with pc := pc }
  /-- `connect_with_timeout` asks for the error of its socket. -/
  | probes {call : Call W} :
    (s.coroutines c).pc.mayWait? = some call → ¬call.kind.IsIo →
    Change s label c { s.coroutines c with pc := .probe call }
  /-- `AddEvent` fails. -/
  | unregistered {w : W} {refused : Bool} {call : Call W} {timer : Option TimerPtr}
    {poller : Epoller W Nat Callback} :
    label = .addEvent w refused → (s.workers w).phase = .running c →
    (s.coroutines c).pc = .armed call timer →
    (s.workers w).poller.addEvent (s.granted w refused) w (.co c) call.fd call.kind.type =
      some (false, poller) →
    Change s label c ((s.coroutines c).returns (.failure .other))
  /-- A call that was cancelled while it waited returns. -/
  | timedOut {call : Call W} {timer : Option TimerPtr} {errno : Errno} :
    (s.coroutines c).pc = .suspended call timer → call.cancelled = some errno →
    Change s label c ((s.coroutines c).returns (.failure errno))
  /-- The function of a timer cancels a call. -/
  | cancelled {w : W} {callback : Callback} {call : Call W} :
    .func callback ∈ (s.workers w).tasks → callback.co = c →
    (s.coroutines c).pc.call? = some call → call.serial = callback.serial →
    Change s label c { s.coroutines c with pc := (s.coroutines c).pc.cancel .ETIMEDOUT }

/-- A step sets a timer for a call. -/
def Sets (s : System W) (label : Label W) (timer : Timer Callback) : Prop :=
  ∃ w addr now c call, label = .addTimer w addr now ∧ (s.workers w).phase = .running c ∧
    (s.coroutines c).pc = .blocked call ∧ call.timeout ≠ -1 ∧
    timer = { addr := addr, interval := call.timeout, expire := toInt64 (now + call.timeout),
              func := some ⟨c, call.serial, call.fd, call.kind.type⟩ }

/-- A step takes the function of a timer that is due. -/
def Expires (s : System W) (label : Label W) (callback : Callback) : Prop :=
  ∃ w now probe t, label = .expire w now probe ∧ (s.timers.heap t).func = some callback ∧
    (s.timers.heap t).Due now

structure Effect (s : System W) (label : Label W) (s' : System W) : Prop where
  change : ∀ c, Change s label c (s'.coroutines c)
  timers : ∀ t, Timer.Ages (s.timers.heap t) (s'.timers.heap t) ∨
    s.Sets label (s'.timers.heap t)
  funcs : ∀ {w callback}, .func callback ∈ (s'.workers w).tasks →
    .func callback ∈ (s.workers w).tasks ∨ s.Expires label callback

variable {s s' : System W} {label : Label W} {w : W} {c : Nat}

omit [DecidableEq W] in
theorem change_same (same : s'.coroutines = s.coroutines) (c : Nat) :
    Change s label c (s'.coroutines c) := by
  rw [same]
  exact .same

omit [DecidableEq W] in
/-- One coroutine changes. -/
theorem change_one (co : Coroutine W)
    (coroutines : s'.coroutines = Function.update s.coroutines c co)
    (change : Change s label c co) (c' : Nat) : Change s label c' (s'.coroutines c') := by
  rw [coroutines]
  by_cases here : c' = c
  · subst here
    rwa [Function.update_self]
  · rw [Function.update_of_ne here]
    exact .same

omit [DecidableEq W] in
/-- A step that sets no timer and takes none. -/
theorem effect_of_change (change : ∀ c, Change s label c (s'.coroutines c))
    (timers : ∀ t, Timer.Ages (s.timers.heap t) (s'.timers.heap t))
    (funcs : ∀ {w callback}, .func callback ∈ (s'.workers w).tasks →
      .func callback ∈ (s.workers w).tasks) : Effect s label s' :=
  ⟨change, fun t => Or.inl (timers t), fun queued => Or.inl (funcs queued)⟩

theorem timers_addTasks (tasks : List (W × Task Nat Callback)) (s : System W) :
    (s.addTasks tasks).timers = s.timers := by
  obtain ⟨workers, same⟩ := addTasks_eq tasks s
  rw [same]

omit [DecidableEq W] in
theorem ages_cancelTimer (timer : Option TimerPtr) (t : TimerPtr) :
    Timer.Ages (s.timers.heap t) ((s.cancelTimer timer).timers.heap t) := by
  cases timer with
  | none => exact .refl _
  | some u => exact TimeManager.ages_cancel u t

/-! ## Steps of a worker -/

theorem effect_schedule (away : (s.coroutines c).pc = .away) :
    Effect s label ((s.setPc c .ready).addTasks [(w, .co c)]) := by
  refine effect_of_change (change_one (c := c) { s.coroutines c with pc := .ready } ?_
    (.outside (by rw [away]; rfl) rfl)) (fun t => ?_) fun {v callback} queued => ?_
  · rw [coroutines_addTasks]
    rfl
  · rw [timers_addTasks]
    exact .refl _
  · rw [addTasks, List.foldl_cons, List.foldl_nil, tasks_setTasks] at queued
    split at queued
    · rename_i here
      rw [here]
      rcases List.mem_append.mp queued with old | new
      · exact old
      · cases List.mem_singleton.mp new
    · exact queued

/-- What is left of a queue. -/
theorem func_of_setTasks {task : Task Nat Callback} {tasks : List (Task Nat Callback)}
    (queued : (s.workers w).tasks = task :: tasks) {v : W} {callback : Callback}
    (left : .func callback ∈ ((s.setTasks w tasks).workers v).tasks) :
    .func callback ∈ (s.workers v).tasks := by
  rw [tasks_setTasks] at left
  split at left
  · rename_i here
    rw [here, queued]
    exact List.mem_cons_of_mem _ left
  · exact left

theorem effect_resume {tasks : List (Task Nat Callback)}
    (queued : (s.workers w).tasks = .co c :: tasks)
    (ran : (s.setTasks w tasks).resume w c = some s') : Effect s label s' := by
  rw [System.resume, coroutines_setTasks] at ran
  split at ran
  · rename_i ready
    cases ran
    refine effect_of_change (change_one _ rfl (.outside (by rw [ready]; rfl) rfl)) (fun t => .refl _)
      fun {v callback} left => func_of_setTasks queued ?_
    rwa [← tasks_setPhase]
  · rename_i call timer pc
    have may : (s.coroutines c).pc.mayWait? = some call := by rw [pc]; rfl
    obtain ⟨s₁, popped⟩ : ∃ s₁, ((s.setTasks w tasks).setPhase w (.running c)).cancelTimer timer =
      s₁ := ⟨_, rfl⟩
    have coroutines : s₁.coroutines = s.coroutines := by
      rw [← popped, coroutines_cancelTimer, coroutines_setPhase, coroutines_setTasks]
    have timers : ∀ t, Timer.Ages (s.timers.heap t) (s₁.timers.heap t) := by
      intro t
      rw [← popped]
      exact ages_cancelTimer (s := (s.setTasks w tasks).setPhase w (.running c)) timer t
    have funcs : ∀ {v callback}, .func callback ∈ (s₁.workers v).tasks →
        .func callback ∈ (s.workers v).tasks := by
      intro v callback left
      rw [← popped, workers_cancelTimer, tasks_setPhase] at left
      exact func_of_setTasks queued left
    have one : ∀ {co : Coroutine W}, Change s label c co →
        ∀ c', Change s label c' ((s₁.setCoroutine c co).coroutines c') :=
      fun change => change_one _ (by rw [setCoroutine, coroutines]) change
    dsimp only at ran
    rw [popped] at ran
    split at ran
    · rename_i errno cancelled
      cases ran
      rw [returns, coroutines]
      exact effect_of_change (one (.timedOut pc cancelled)) timers funcs
    · split at ran
      · rename_i timeout kind
        cases ran
        rw [setPc, coroutines]
        exact effect_of_change (one (.probes may fun io => io timeout kind)) timers funcs
      · cases ran
        rw [setPc, coroutines]
        exact effect_of_change (one (.goesOn may rfl)) timers funcs
  · cases ran

theorem Inv.effect_wake (inv : s.Inv) {fd : Nat} {which : EventType → Bool}
    {woken : List (W × Task Nat Callback)} {poller : Epoller W Nat Callback}
    (woke : Epoller.Woke w (s.workers w).poller fd which woken poller) :
    Effect s label ((s.setPoller w poller).addTasks woken) := by
  refine effect_of_change (change_same ?_) (fun t => ?_) (inv.placed.func_of_wake woke)
  · rw [coroutines_addTasks, coroutines_setPoller]
  · rw [timers_addTasks]
    exact .refl _

theorem Inv.effect_onTimer (inv : s.Inv) {callback : Callback} {tasks : List (Task Nat Callback)}
    (queued : (s.workers w).tasks = .func callback :: tasks)
    (ran : (s.setTasks w tasks).onTimer w callback = some s') : Effect s label s' := by
  have popped := inv.popFunc queued
  have left : Effect s label (s.setTasks w tasks) :=
    effect_of_change (change_same rfl) (fun t => .refl _) (func_of_setTasks queued)
  cases inCall : (s.coroutines callback.co).pc.call? with
  | none =>
      simp only [System.onTimer, coroutines_setTasks, inCall] at ran
      cases ran
      exact left
  | some call =>
      simp only [System.onTimer, coroutines_setTasks, inCall] at ran
      split at ran
      · cases ran
        exact left
      · rename_i current
        have serial := not_not.mp (not_or.mp current).1
        obtain ⟨woken, poller, handled, woke, -⟩ := popped.HandleEvent w callback.fd callback.type
        rw [HandleEvent_setPc, handled] at ran
        cases ran
        refine effect_of_change (change_one (c := callback.co) { s.coroutines callback.co with
            pc := (s.coroutines callback.co).pc.cancel .ETIMEDOUT } ?_
          (.cancelled (w := w) (by rw [queued]; exact List.mem_cons_self) rfl inCall serial))
          (fun t => ?_) fun {v callback'} rest => ?_
        · rw [setPc, setCoroutine, coroutines_addTasks, coroutines_setPoller, coroutines_setTasks]
        · change Timer.Ages (s.timers.heap t)
            ((((s.setTasks w tasks).setPoller w poller).addTasks woken).timers.heap t)
          rw [timers_addTasks]
          exact .refl _
        · exact func_of_setTasks queued (popped.placed.func_of_wake woke rest)

theorem Inv.effect_take (inv : s.Inv) (ran : s.take w = some s') : Effect s label s' := by
  rw [System.take] at ran
  split at ran
  · rename_i c tasks idle queued
    exact effect_resume queued ran
  · rename_i callback tasks idle queued
    exact inv.effect_onTimer queued ran
  · cases ran

theorem effect_poll {reports : List (Nat × EpollMask)} (ran : s.poll w reports = some s') :
    Effect s label s' := by
  rw [System.poll] at ran
  split at ran
  · split at ran
    · cases ran
      refine effect_of_change (change_same rfl) (fun t => .refl _) fun {v callback} queued => ?_
      rwa [tasks_setPhase] at queued
    · cases ran
  · cases ran

theorem effect_expire {now : Int} {probe : Nat} (ran : s.expire w now probe = some s') :
    Effect s (.expire w now probe) s' := by
  rw [System.expire] at ran
  split at ran
  · rw [← Option.some.inj ran]
    refine ⟨change_same ?_, fun t => Or.inl ?_, fun {v callback} queued => ?_⟩
    · rw [coroutines_setPhase, coroutines_addTasks]
    · have ages := TimeManager.ages_expiredFunctions (m := s.timers) now probe t
      rw [show ∀ (s : System W) (phase : WorkerPhase), (s.setPhase w phase).timers = s.timers from
        fun _ _ => rfl, timers_addTasks]
      exact ages
    · rw [tasks_setPhase, addTasks_eq_setTasks (w := w), tasks_setTasks] at queued
      · split at queued
        · rename_i here
          rcases List.mem_append.mp queued with old | new
          · rw [here]
            exact Or.inl old
          · obtain ⟨task, added, is⟩ := List.mem_map.mp new
            obtain ⟨⟨u, func⟩, handed, made⟩ := List.mem_filterMap.mp added
            obtain ⟨callback', rfl, rfl⟩ := Option.map_eq_some_iff.mp made
            cases is
            obtain ⟨t, was, due⟩ := TimeManager.func_of_expiredFunctions handed
            exact Or.inr ⟨w, now, probe, t, rfl, was, due⟩
        · exact Or.inl queued
      · intro task added
        obtain ⟨⟨u, func⟩, handed, made⟩ := List.mem_filterMap.mp added
        obtain ⟨callback', rfl, rfl⟩ := Option.map_eq_some_iff.mp made
        rfl
  · cases ran

theorem Inv.effect_report (inv : s.Inv) (ran : s.report w = some s') : Effect s label s' := by
  rw [System.report] at ran
  split at ran
  · cases ran
    refine effect_of_change (change_same rfl) (fun t => .refl _) fun {v callback} queued => ?_
    rwa [tasks_setPhase] at queued
  · obtain ⟨⟨woken, poller⟩, handled, done⟩ := Option.bind_eq_some_iff.mp ran
    cases done
    obtain ⟨which, woke, -⟩ := Epoller.handleReport_woke (inv.pollers.wf w)
      (inv.pollers.armed w) (inv.pollers.grants w false) handled
    refine effect_of_change (change_same ?_) (fun t => ?_) fun {v callback} queued => ?_
    · rw [coroutines_setPhase, coroutines_addTasks, coroutines_setPoller]
    · change Timer.Ages (s.timers.heap t) (((s.setPoller w poller).addTasks woken).timers.heap t)
      rw [timers_addTasks]
      exact .refl _
    · rw [tasks_setPhase] at queued
      exact inv.placed.func_of_wake woke queued
  · cases ran

/-! ## Steps of the coroutine that runs -/

omit [DecidableEq W] in
/-- A step that changes the coroutine and nothing about timers and queues. -/
theorem effect_setCoroutine {co : Coroutine W} (change : Change s label c co) :
    Effect s label (s.setCoroutine c co) :=
  effect_of_change (change_one co rfl change) (fun _ => .refl _) id

omit [DecidableEq W] in
/-- A new socket changes no coroutine, timer or queue. -/
theorem openSocket_frame {fd : Nat} (opened : s.openSocket fd = some s') :
    s'.coroutines = s.coroutines ∧ s'.timers = s.timers ∧ s'.workers = s.workers := by
  rw [openSocket] at opened
  split at opened
  · obtain ⟨fdmanager, -, done⟩ := Option.bind_eq_some_iff.mp opened
    cases done
    exact ⟨rfl, rfl, rfl⟩
  · cases opened

omit [DecidableEq W] in
theorem effect_finish {kind : CallKind} {answer : Answer}
    (ran : s.finish c kind answer = some s')
    (change : Change s label c ((s.coroutines c).returns answer.result)) : Effect s label s' := by
  rw [finish.eq_def] at ran
  split at ran
  · rename_i fd
    obtain ⟨s₁, opened, done⟩ := Option.bind_eq_some_iff.mp ran
    cases done
    obtain ⟨coroutines, timers, workers⟩ := openSocket_frame opened
    refine effect_of_change (change_one _ ?_ change) (fun t => ?_) fun {v callback} queued => ?_
    · rw [returns, setCoroutine, coroutines]
      rfl
    · rw [returns, setCoroutine, timers]
      exact .refl _
    · rwa [returns, setCoroutine, workers] at queued
  · cases ran
  · cases ran
  · cases ran
    exact effect_setCoroutine change
  · cases ran
    exact effect_setCoroutine change

omit [DecidableEq W] in
theorem effect_origin {answer : Answer} (running : (s.workers w).phase = .running c)
    (ran : s.origin c answer = some s') : Effect s (.origin w answer) s' := by
  rw [origin] at ran
  split at ran
  · rename_i call pc
    split at ran
    · exact effect_finish ran (.done (by rw [pc]; rfl))
    · cases ran
  · rename_i call pc
    have may : (s.coroutines c).pc.mayWait? = some call := by rw [pc]; rfl
    split at ran
    · split at ran
      · cases ran
        exact effect_setCoroutine (.goesOn may rfl)
      · rename_i timeout connects _ _
        exact effect_finish ran (.answered rfl running pc fun io => absurd connects (io timeout))
      · cases ran
        exact effect_of_change (change_same rfl) (fun t => .refl _) id
      · cases ran
        exact effect_setCoroutine (.goesOn may rfl)
      · rename_i interrupted again _ _ _
        exact effect_finish ran (.answered rfl running pc fun _ => ⟨again, interrupted⟩)
    · cases ran
  · cases ran

omit [DecidableEq W] in
theorem effect_addTimer {addr : Nat} {now : Int} (running : (s.workers w).phase = .running c)
    (ran : s.addTimer c addr now = some s') : Effect s (.addTimer w addr now) s' := by
  rw [addTimer] at ran
  split at ran
  · rename_i call pc
    have may : (s.coroutines c).pc.mayWait? = some call := by rw [pc]; rfl
    split at ran
    · cases ran
      exact effect_setCoroutine (.goesOn may rfl)
    · rename_i bounded
      rw [← Option.some.inj ran]
      refine ⟨change_one _ rfl (.goesOn may rfl), fun t => ?_, Or.inl⟩
      rcases s.timers.heap_addTimer addr now call.timeout
        ⟨c, call.serial, call.fd, call.kind.type⟩ false t with old | new
      · have ages : Timer.Ages (s.timers.heap t) ((s.timers.addTimer addr now call.timeout
            ⟨c, call.serial, call.fd, call.kind.type⟩ false).2.heap t) := by
          rw [old]
          exact .refl _
        exact Or.inl ages
      · exact Or.inr ⟨w, addr, now, c, call, rfl, running, pc, bounded, new⟩
  · cases ran

theorem effect_addEvent {refused : Bool} (running : (s.workers w).phase = .running c)
    (ran : s.addEvent w c refused = some s') : Effect s (.addEvent w refused) s' := by
  rw [addEvent] at ran
  split at ran
  · rename_i call timer pc
    have may : (s.coroutines c).pc.mayWait? = some call := by rw [pc]; rfl
    obtain ⟨⟨added, poller⟩, registers, done⟩ := Option.bind_eq_some_iff.mp ran
    cases added with
    | true =>
        cases done
        refine effect_of_change (change_one _ rfl (.goesOn may rfl)) (fun _ => .refl _)
          fun {v callback} queued => ?_
        rwa [tasks_setPhase, show ((s.setPoller w poller).setPc c (.suspended call timer)).workers =
          (s.setPoller w poller).workers from rfl, tasks_setPoller] at queued
    | false =>
        simp only [Bool.false_eq_true, if_false] at done
        have timers : ∀ t, Timer.Ages (s.timers.heap t)
            (((s.setPoller w poller).cancelTimer timer).timers.heap t) :=
          ages_cancelTimer (s := s.setPoller w poller) timer
        have funcs : ∀ {v callback},
            .func callback ∈ (((s.setPoller w poller).cancelTimer timer).workers v).tasks →
            .func callback ∈ (s.workers v).tasks := by
          intro v callback queued
          rwa [workers_cancelTimer, tasks_setPoller] at queued
        have coroutines : ((s.setPoller w poller).cancelTimer timer).coroutines = s.coroutines := by
          rw [coroutines_cancelTimer, coroutines_setPoller]
        split at done
        · rename_i timeout connects
          cases done
          rw [setPc, coroutines]
          exact effect_of_change (change_one _ (by rw [setCoroutine, coroutines])
            (.probes may fun io => io timeout connects)) timers funcs
        · cases done
          rw [returns, coroutines]
          exact effect_of_change (change_one _ (by rw [setCoroutine, coroutines])
            (.unregistered rfl running pc registers)) timers funcs
  · cases ran

omit [DecidableEq W] in
/-- The coroutine moves in user code. -/
theorem effect_move {pc : Pc W} (outside : (s.coroutines c).pc.call? = none)
    (out : pc.call? = none) : Effect s label (s.setPc c pc) :=
  effect_setCoroutine (.outside outside out)

theorem Inv.effect_close (inv : s.Inv) (user : (s.coroutines c).pc = .user) {fd : Nat}
    (ran : s.close w c fd = some s') : Effect s label s' := by
  have outside : (s.coroutines c).pc.call? = none := by rw [user]; rfl
  rw [System.close] at ran
  split at ran
  · cases ran
    exact effect_move outside rfl
  · obtain ⟨woken, poller, handled, woke, -⟩ := inv.HandleAllEvent w fd
    rw [handled] at ran
    cases ran
    refine effect_of_change (change_one (c := c) { s.coroutines c with pc := .closing fd true } ?_
      (.outside outside rfl)) (fun t => ?_) (inv.placed.func_of_wake woke)
    · rw [setPc, setCoroutine, coroutines_addTasks, coroutines_setPoller]
    · change Timer.Ages (s.timers.heap t) (((s.setPoller w poller).addTasks woken).timers.heap t)
      rw [timers_addTasks]
      exact .refl _

theorem Inv.effect_runStep (inv : s.Inv)
    (running : (s.workers label.worker).phase = .running c)
    (ran : s.runStep label.worker c label = some s') : Effect s label s' := by
  have quiet : ∀ {t : System W}, t.coroutines = s.coroutines → t.timers = s.timers →
      t.workers = s.workers → Effect s label t := by
    intro t coroutines timers workers
    refine effect_of_change (change_same coroutines) (fun u => ?_) fun {v callback} queued => ?_
    · rw [timers]
      exact .refl _
    · rwa [workers] at queued
  cases label with
  | origin w answer => exact effect_origin running ran
  | addTimer w addr now => exact effect_addTimer running ran
  | addEvent w refused => exact effect_addEvent running ran
  | probe w error =>
      simp only [System.runStep, System.probe] at ran
      split at ran
      · rename_i call pc
        split at ran
        · cases ran
          exact effect_setCoroutine (.done (by rw [pc]; rfl))
        · cases ran
          exact effect_setCoroutine (.done (by rw [pc]; rfl))
      · cases ran
  | closeOrigin w =>
      simp only [System.runStep, System.closeOrigin] at ran
      split at ran
      · rename_i fd managed pc
        cases ran
        exact effect_of_change (change_one _ rfl (.outside (by rw [pc]; rfl) rfl)) (fun _ => .refl _)
          id
      · cases ran
  | leave w =>
      obtain ⟨user, done⟩ := inUser_some ran
      cases done
      refine effect_of_change (change_one _ rfl (.outside (by rw [user]; rfl) rfl))
        (fun _ => .refl _) fun {v callback} queued => ?_
      rwa [tasks_setPhase] at queued
  | begin w kind fd =>
      obtain ⟨user, done⟩ := inUser_some ran
      cases done
      exact effect_setCoroutine (.begins rfl running user)
  | cancel w fd type =>
      obtain ⟨-, done⟩ := inUser_some ran
      obtain ⟨woken, poller, handled, woke, -⟩ := inv.HandleEvent w fd type
      cases handled.symm.trans done
      exact inv.effect_wake woke
  | cancelAll w fd =>
      obtain ⟨-, done⟩ := inUser_some ran
      obtain ⟨woken, poller, handled, woke, -⟩ := inv.HandleAllEvent w fd
      cases handled.symm.trans done
      exact inv.effect_wake woke
  | close w fd =>
      obtain ⟨user, done⟩ := inUser_some ran
      exact inv.effect_close user done
  | socket w fd =>
      obtain ⟨coroutines, timers, workers⟩ := openSocket_frame (inUser_some ran).2
      exact quiet coroutines timers workers
  | setTimeout w fd type timeout =>
      cases (inUser_some ran).2
      exact quiet rfl rfl rfl
  | setUserNonBlock w fd flag =>
      cases (inUser_some ran).2
      exact quiet rfl rfl rfl
  | schedule => cases ran
  | take => cases ran
  | poll => cases ran
  | expire => cases ran
  | report => cases ran

/-- Every step has its effect. -/
theorem Inv.effect (inv : s.Inv) (ran : s.step label = some s') : Effect s label s' := by
  rcases step_cases ran with ⟨w, c, -, away, rfl⟩ | ⟨w, -, ran⟩ | ⟨w, reports, -, ran⟩ |
    ⟨w, now, probe, rfl, ran⟩ | ⟨w, -, ran⟩ | ⟨c, running, ran⟩
  · exact effect_schedule away
  · exact inv.effect_take ran
  · exact effect_poll ran
  · exact effect_expire ran
  · exact inv.effect_report ran
  · exact inv.effect_runStep running ran

end System

end Reyao
