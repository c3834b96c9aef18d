import Reyao.HookInvariant

/-!
# Wake-ups by timers and by `close`

The function of a timer and `close` look at the table of the worker they run on
only. `Local` says that this is the worker where it matters; in a run of such steps
nobody who waits is missed.
-/

namespace Reyao.System

open Lib

variable {W : Type} {s s' : System W} {w : W} {c : Nat}

/-- Nobody waits for a descriptor on another worker. -/
def Own (s : System W) (w : W) (fd : Nat) : Prop :=
  ∀ v, v ≠ w → ∀ type, (s.workers v).poller.waiter fd type = none

/-- A step reaches everybody it is about. The function of a timer is not called while
its call runs or waits on another worker, and a descriptor is not closed while
somebody waits for it on another worker. -/
def Local (s : System W) : Label W → Prop
  | .take w => ∀ callback tasks call, (s.workers w).tasks = .func callback :: tasks →
      s.InCall callback.co call → call.serial = callback.serial → ∀ v, v ≠ w →
        ¬s.At callback.co (.running v) ∧ ∀ fd type, ¬s.At callback.co (.waiting v fd type)
  | .close w fd => s.Own w fd
  | .closeOrigin w => ∀ c fd managed, (s.workers w).phase = .running c →
      (s.coroutines c).pc = .closing fd managed → s.Own w fd
  | _ => True

/-- `c` is in the queue of `w`, and its bit in the event of the descriptor is clear. -/
structure Woken (s : System W) (w : W) (c : Nat) (fd : Nat) (type : EventType) : Prop where
  queued : .co c ∈ (s.workers w).tasks
  cleared : ∀ event, (s.workers w).poller.ioEvents[fd]? = some event →
    event.types &&& type.mask = 0

section

variable [DecidableEq W]

/-! ## Steps of a worker -/

theorem Inv.HandleEvent (inv : s.Inv) (w : W) (fd : Nat) (type : EventType) :
    ∃ woken poller, s.HandleEvent w fd type = some ((s.setPoller w poller).addTasks woken) ∧
      Epoller.Woke w (s.workers w).poller fd (fun type' => type' = type) woken poller ∧
      ((s.setPoller w poller).addTasks woken).Inv := by
  obtain ⟨result, woken, poller, ran, woke, rearmed⟩ := Epoller.handleEvent_woke
    (inv.pollers.wf w) (inv.pollers.armed w) (inv.pollers.grants w false) fd type
  exact ⟨woken, poller, by rw [System.HandleEvent, ran]; rfl, woke, inv.wake woke rearmed⟩

theorem Inv.HandleAllEvent (inv : s.Inv) (w : W) (fd : Nat) :
    ∃ woken poller, s.HandleAllEvent w fd = some ((s.setPoller w poller).addTasks woken) ∧
      Epoller.Woke w (s.workers w).poller fd (fun _ => true) woken poller ∧
      ((s.setPoller w poller).addTasks woken).Inv := by
  obtain ⟨result, woken, poller, ran, woke, rearmed⟩ := Epoller.handleAllEvent_woke
    (inv.pollers.wf w) (inv.pollers.armed w) (inv.pollers.grants w false) fd
  exact ⟨woken, poller, by rw [System.HandleAllEvent, ran]; rfl, woke, inv.wake woke rearmed⟩

theorem woken_of_woke {fd : Nat} {type : EventType} {which : EventType → Bool}
    {woken : List (W × Task Nat Callback)} {poller : Epoller W Nat Callback}
    (woke : Epoller.Woke w (s.workers w).poller fd which woken poller)
    (waits : (s.workers w).poller.waiter fd type = some (.co c)) (due : which type = true) :
    ((s.setPoller w poller).addTasks woken).Woken w c fd type := by
  rw [addTasks_eq_setTasks woke.own]
  constructor
  · rw [tasks_setTasks, if_pos rfl]
    exact List.mem_append_right _ ((woke.mem_tasks _).mpr ⟨type, due, waits⟩)
  · intro event member
    rw [poller_setTasks, poller_setPoller, if_pos rfl] at member
    rw [woke.wf fd event member]
    refine maskOf_and_eq_zero.mpr ?_
    rw [woke.waiter_eq, if_pos ⟨rfl, due⟩]

/-- `run` resumes the first coroutine of its queue. -/
theorem Inv.resume (inv : s.Inv) {tasks : List (Task Nat Callback)}
    (queued : (s.workers w).tasks = .co c :: tasks)
    (ran : (s.setTasks w tasks).resume w c = some s') : s'.Inv := by
  have place : s.At c (.queue w) := by
    rw [At, queued]
    exact List.mem_cons_self
  rw [System.resume, coroutines_setTasks] at ran
  split at ran
  · cases ran
    exact inv.takeCo queued (Pc.fits_of_out trivial rfl) (Pc.mayWait?_of_out rfl) (by rintro _ _ ⟨⟩)
      (goes_out rfl rfl)
  · rename_i call timer pc
    have own : call.worker = w := by
      rcases inv.placed.fits place with ready | ⟨call', timer', suspended, own⟩
      · rw [pc] at ready
        cases ready
      · rw [pc] at suspended
        cases suspended
        exact own
    -- the timer is cancelled first
    obtain ⟨s₀, cancelled⟩ : ∃ s₀, s.cancelTimer timer = s₀ := ⟨_, rfl⟩
    have inv₀ : s₀.Inv := cancelled ▸ inv.cancelTimer timer
    have pc₀ : (s₀.coroutines c).pc = .suspended call timer := by
      rw [← cancelled, coroutines_cancelTimer, pc]
    have queued₀ : (s₀.workers w).tasks = .co c :: tasks := by
      rw [← cancelled, workers_cancelTimer, queued]
    have same : ((s.setTasks w tasks).setPhase w (.running c)).cancelTimer timer =
        (s₀.setTasks w tasks).setPhase w (.running c) := by
      rw [← cancelled]
      cases timer <;> rfl
    have may : (s₀.coroutines c).pc.mayWait? = some call := by rw [pc₀]; rfl
    have known := inv₀.calls.started may
    have inCall : s₀.InCall c call := by rw [InCall, pc₀]; rfl
    dsimp only at ran
    rw [same] at ran
    split at ran
    · cases ran
      exact inv₀.takeCo queued₀ (Pc.fits_of_out trivial rfl) (Pc.mayWait?_of_out rfl)
        (by rintro _ _ ⟨⟩) (goes_out rfl rfl)
    · rename_i uncancelled
      have fits : ∀ call', some call = some call' → call'.worker = w ∧ call'.cancelled = none := by
        rintro call' ⟨⟩
        exact ⟨own, uncancelled⟩
      have goes : ∀ call', some call = some call' → ∃ call₀, s₀.InCall c call₀ ∧
          call₀.serial = call'.serial ∧ call₀.fd = call'.fd ∧ call₀.kind = call'.kind := by
        rintro call' ⟨⟩
        exact ⟨call, inCall, rfl, rfl, rfl⟩
      split at ran
      · cases ran
        exact inv₀.takeCo queued₀ ⟨trivial, fits⟩ (by rintro _ ⟨⟩) (by rintro _ _ ⟨⟩)
          (goes_setCoroutine rfl goes)
      · cases ran
        refine inv₀.takeCo queued₀ ⟨trivial, fits⟩ ?_ (by rintro _ _ ⟨⟩)
          (goes_setCoroutine rfl goes)
        rintro call' ⟨⟩
        exact known
  · cases ran

theorem addTasks_setPc (tasks : List (W × Task Nat Callback)) (pc : Pc W) (s : System W) :
    (s.setPc c pc).addTasks tasks = (s.addTasks tasks).setPc c pc := by
  induction tasks generalizing s with
  | nil => rfl
  | cons task tasks ih => exact ih (s.setTasks task.1 ((s.workers task.1).tasks ++ [task.2]))

theorem HandleEvent_setPc (fd : Nat) (type : EventType) (pc : Pc W) :
    (s.setPc c pc).HandleEvent w fd type = (s.HandleEvent w fd type).map (setPc c pc) := by
  have same : ((s.setPc c pc).workers w).poller.handleEvent ((s.setPc c pc).granted w false) fd
      type = (s.workers w).poller.handleEvent (s.granted w false) fd type := rfl
  rw [HandleEvent.eq_def, HandleEvent.eq_def, same]
  cases (s.workers w).poller.handleEvent (s.granted w false) fd type with
  | none => rfl
  | some handled => exact congrArg some (addTasks_setPc handled.2.1 pc (s.setPoller w handled.2.2))

/-- `run` calls the function of a timer. It marks the call and puts it into the queue. -/
theorem Inv.onTimer (inv : s.Inv) {callback : Callback} (ok : s.CallbackOk callback)
    (idle : (s.workers w).phase = .loop)
    (near : ∀ call, s.InCall callback.co call → call.serial = callback.serial → ∀ v, v ≠ w →
      ¬s.At callback.co (.running v) ∧ ∀ fd type, ¬s.At callback.co (.waiting v fd type)) :
    ∃ s', s.onTimer w callback = some s' ∧ s'.Inv ∧
      ∀ call v, s.InCall callback.co call → call.serial = callback.serial →
        s.At callback.co (.waiting v call.fd call.kind.type) →
        s'.Woken v callback.co call.fd call.kind.type := by
  cases inCall : (s.coroutines callback.co).pc.call? with
  | none =>
      refine ⟨s, ?_, inv, fun call v inCall' => ?_⟩
      · simp only [System.onTimer, inCall]
      · cases inCall.symm.trans inCall'
  | some call =>
      by_cases stale : call.serial ≠ callback.serial ∨ call.cancelled ≠ none
      · refine ⟨s, ?_, inv, fun call' v inCall' same waits => ?_⟩
        · simp only [System.onTimer, inCall, if_pos stale]
        · cases inCall.symm.trans inCall'
          obtain ⟨call', timer, pc, -, -, -, uncancelled⟩ := inv.placed.waiting waits
          rw [pc] at inCall
          cases inCall
          exact absurd stale (not_or.mpr ⟨not_not.mpr same, not_not.mpr uncancelled⟩)
      · obtain ⟨same, -⟩ := not_or.mp stale
        have same := not_not.mp same
        obtain ⟨fd_eq, type_eq⟩ := ok.2 call inCall same
        have near := near call inCall same
        obtain ⟨woken, poller, ran, woke, inv'⟩ := inv.HandleEvent w callback.fd callback.type
        obtain ⟨s₂, after⟩ : ∃ s₂, (s.setPoller w poller).addTasks woken = s₂ := ⟨_, rfl⟩
        have coroutines : s₂.coroutines = s.coroutines := by
          rw [← after, coroutines_addTasks, coroutines_setPoller]
        -- wherever the call was, it is in a queue now
        have queued : ∀ p, s₂.At callback.co p → ∃ v, p = .queue v := by
          intro p is
          cases p with
          | queue v => exact ⟨v, rfl⟩
          | running v =>
              rw [At, ← after, phase_wake woke.own] at is
              by_cases here : v = w
              · rw [here, idle] at is
                cases is
              · exact absurd is (near v here).1
          | waiting v fd type =>
              rw [At, ← after, waiter_wake woke] at is
              split at is
              · cases is
              · rename_i missed
                by_cases here : v = w
                · obtain ⟨call', timer, pc, -, fd_is, type_is, -⟩ := inv.placed.waiting is
                  rw [pc] at inCall
                  cases inCall
                  exact absurd ⟨here, fd_is.symm.trans fd_eq,
                    decide_eq_true (type_is.symm.trans type_eq)⟩ missed
                · exact absurd is ((near v here).2 fd type)
        refine ⟨s₂.setPc callback.co ((s.coroutines callback.co).pc.cancel .ETIMEDOUT), ?_, ?_,
          fun call' v inCall' same' waits => ?_⟩
        · simp only [System.onTimer, inCall, if_neg stale]
          rw [HandleEvent_setPc, ran, after]
          rfl
        · rw [← coroutines]
          exact (after ▸ inv').cancel .ETIMEDOUT queued
        · cases inCall.symm.trans inCall'
          have here : v = w := by
            by_contra other
            exact (near v other).2 _ _ waits
          subst here
          rw [At, fd_eq, type_eq] at waits
          have done := woken_of_woke woke waits (decide_eq_true rfl)
          rw [after, ← fd_eq, ← type_eq] at done
          exact ⟨done.queued, done.cleared⟩

/-- `run` takes a function from its queue. -/
theorem Inv.popFunc (inv : s.Inv) {callback : Callback} {tasks : List (Task Nat Callback)}
    (queued : (s.workers w).tasks = .func callback :: tasks) : (s.setTasks w tasks).Inv := by
  refine inv.setTasks ?_ fun {callback'} rest => inv.callbacks.tasks (w := w) ?_
  · rw [queued]
    rfl
  · rw [queued]
    exact List.mem_cons_of_mem _ rest

theorem Inv.takeFunc (inv : s.Inv) (near : s.Local (.take w)) (idle : (s.workers w).phase = .loop)
    {callback : Callback} {tasks : List (Task Nat Callback)}
    (queued : (s.workers w).tasks = .func callback :: tasks) :
    ∃ s', s.take w = some s' ∧ s'.Inv ∧
      ∀ call v, s.InCall callback.co call → call.serial = callback.serial →
        s.At callback.co (.waiting v call.fd call.kind.type) →
        s'.Woken v callback.co call.fd call.kind.type := by
  have member : .func callback ∈ (s.workers w).tasks := by
    rw [queued]
    exact List.mem_cons_self
  have popped := inv.popFunc queued
  have running : ∀ v, (s.setTasks w tasks).At callback.co (.running v) ↔
      s.At callback.co (.running v) := fun v => by rw [At, phase_setTasks, At]
  have waiting : ∀ v fd type, (s.setTasks w tasks).At callback.co (.waiting v fd type) ↔
      s.At callback.co (.waiting v fd type) := fun v fd type => by rw [At, poller_setTasks, At]
  have ok : (s.setTasks w tasks).CallbackOk callback := inv.callbacks.tasks member
  obtain ⟨s', ran, inv', woken⟩ :=
    popped.onTimer (w := w) ok (by rw [phase_setTasks, idle]) fun call inCall same v other => by
      obtain ⟨not_running, not_waiting⟩ := near callback tasks call queued inCall same v other
      exact ⟨fun is => not_running ((running v).mp is),
        fun fd type is => not_waiting fd type ((waiting v fd type).mp is)⟩
  refine ⟨s', ?_, inv', fun call v inCall same waits => ?_⟩
  · rw [System.take, idle, queued]
    exact ran
  · exact woken call v inCall same ((waiting v _ _).mpr waits)

/-- A turn of `run`. -/
theorem Inv.take (inv : s.Inv) (near : s.Local (.take w)) (ran : s.take w = some s') : s'.Inv := by
  have turn := ran
  rw [System.take] at turn
  split at turn
  · rename_i c tasks idle queued
    exact inv.resume queued turn
  · rename_i callback tasks idle queued
    obtain ⟨s₁, done, inv₁, -⟩ := inv.takeFunc near idle queued
    cases ran.symm.trans done
    exact inv₁
  · cases turn

theorem Inv.poll (inv : s.Inv) {reports : List (Nat × EpollMask)}
    (ran : s.poll w reports = some s') : s'.Inv := by
  rw [System.poll] at ran
  split at ran
  · split at ran
    · cases ran
      exact inv.setPhase (by rintro _ ⟨⟩)
    · cases ran
  · cases ran

/-- The functions of the expired timers go to the end of the queue. -/
theorem Inv.addFuncs (inv : s.Inv) {tasks : List (W × Task Nat Callback)}
    (funcs : ∀ t ∈ tasks, ∃ callback, t = (w, .func callback) ∧ s.CallbackOk callback) :
    (s.addTasks tasks).Inv := by
  have own : ∀ t ∈ tasks, t.1 = w := fun t member => by
    obtain ⟨callback, rfl, -⟩ := funcs t member
    rfl
  rw [addTasks_eq_setTasks own]
  refine inv.setTasks ?_ fun {callback} member => ?_
  · have none_left : (tasks.map Prod.snd).filterMap Task.co? = [] := by
      refine List.filterMap_eq_nil_iff.mpr fun task member => ?_
      obtain ⟨t, added, rfl⟩ := List.mem_map.mp member
      obtain ⟨callback, rfl, -⟩ := funcs t added
      rfl
    rw [List.filterMap_append, none_left, List.append_nil]
  · rcases List.mem_append.mp member with old | new
    · exact inv.callbacks.tasks old
    · obtain ⟨t, added, is⟩ := List.mem_map.mp new
      obtain ⟨callback', rfl, ok⟩ := funcs t added
      cases is
      exact ok

theorem Inv.expire (inv : s.Inv) {now : Int} {probe : Nat}
    (ran : s.expire w now probe = some s') : s'.Inv := by
  rw [System.expire] at ran
  split at ran
  · rw [← Option.some.inj ran]
    refine Inv.setPhase ?_ (by rintro _ ⟨⟩)
    refine Inv.addFuncs (w := w) (inv.setTimers fun is => ?_) fun t member => ?_
    · exact inv.callbacks.timers ((TimeManager.ages_expiredFunctions now probe _).func_eq is)
    · obtain ⟨⟨u, func⟩, handed, is⟩ := List.mem_filterMap.mp member
      obtain ⟨callback, rfl, rfl⟩ := Option.map_eq_some_iff.mp is
      obtain ⟨v, was, -⟩ := TimeManager.func_of_expiredFunctions handed
      exact ⟨callback, rfl, inv.callbacks.timers was⟩
  · cases ran

theorem Inv.report (inv : s.Inv) (ran : s.report w = some s') : s'.Inv := by
  rw [System.report] at ran
  split at ran
  · cases ran
    exact inv.setPhase (by rintro _ ⟨⟩)
  · obtain ⟨⟨woken, poller⟩, handled, done⟩ := Option.bind_eq_some_iff.mp ran
    cases done
    obtain ⟨which, woke, rearmed⟩ := Epoller.handleReport_woke (inv.pollers.wf w)
      (inv.pollers.armed w) (inv.pollers.grants w false) handled
    exact (inv.wake woke rearmed).setPhase (by rintro _ ⟨⟩)
  · cases ran

/-! ## Steps of the coroutine that runs -/

omit [DecidableEq W] in
/-- The coroutine is back in user code. -/
theorem Inv.inUser (inv : s.Inv) (running : (s.workers w).phase = .running c)
    {co : Coroutine W} (user : co.pc = .user) (calls : co.calls = (s.coroutines c).calls) :
    (s.setCoroutine c co).Inv := by
  have out : co.pc.call? = none := by rw [user]; rfl
  refine inv.advance running (Pc.fits_of_out ?_ out) (Pc.mayWait?_of_out out) ?_
    (goes_out calls out)
  · rw [user]
    trivial
  · rw [user]
    rintro _ _ ⟨⟩

omit [DecidableEq W] in
/-- A call that may come to wait goes on. -/
theorem Inv.goOn (inv : s.Inv) (running : (s.workers w).phase = .running c) {call : Call W}
    (may : (s.coroutines c).pc.mayWait? = some call) {pc : Pc W} (work : pc.AtWork)
    (same : pc.call? = some call) : (s.setPc c pc).Inv := by
  have inCall : s.InCall c call := Pc.call?_of_mayWait? may
  refine inv.advance running ⟨work, fun call' is => ?_⟩ (fun call' may' => ?_)
    (fun fd managed is => ?_) (goes_setCoroutine rfl fun call' is => ?_)
  · cases same.symm.trans is
    exact (inv.placed.running running).2 call inCall
  · cases same.symm.trans (Pc.call?_of_mayWait? may')
    exact inv.calls.started may
  · rw [show pc = .closing fd managed from is] at same
    cases same
  · cases same.symm.trans is
    exact ⟨call, inCall, rfl, rfl, rfl⟩

omit [DecidableEq W] in
theorem Inv.finish (inv : s.Inv) (running : (s.workers w).phase = .running c) {kind : CallKind}
    {answer : Answer} (ran : s.finish c kind answer = some s') : s'.Inv := by
  rw [System.finish.eq_def] at ran
  split at ran
  · obtain ⟨s₁, opened, done⟩ := Option.bind_eq_some_iff.mp ran
    cases done
    have workers : s₁.workers = s.workers := by
      rw [System.openSocket] at opened
      split at opened
      · obtain ⟨fdmanager, -, done⟩ := Option.bind_eq_some_iff.mp opened
        cases done
        rfl
      · cases opened
    exact (inv.openSocket opened).inUser (w := w) (by rw [workers, running]) rfl rfl
  · cases ran
  · cases ran
  · cases ran
    exact inv.inUser running rfl rfl
  · cases ran
    exact inv.inUser running rfl rfl

omit [DecidableEq W] in
theorem Inv.origin (inv : s.Inv) (running : (s.workers w).phase = .running c) {answer : Answer}
    (ran : s.origin c answer = some s') : s'.Inv := by
  rw [System.origin] at ran
  split at ran
  · split at ran
    · exact inv.finish running ran
    · cases ran
  · rename_i call pc
    have may : (s.coroutines c).pc.mayWait? = some call := by rw [pc]; rfl
    split at ran
    · split at ran
      · cases ran
        exact inv.goOn running may trivial rfl
      · exact inv.finish running ran
      · cases ran
        exact inv
      · cases ran
        exact inv.goOn running may trivial rfl
      · exact inv.finish running ran
    · cases ran
  · cases ran

omit [DecidableEq W] in
theorem Inv.addTimer (inv : s.Inv) (running : (s.workers w).phase = .running c) {addr : Nat}
    {now : Int} (ran : s.addTimer c addr now = some s') : s'.Inv := by
  rw [System.addTimer] at ran
  split at ran
  · rename_i call pc
    have may : (s.coroutines c).pc.mayWait? = some call := by rw [pc]; rfl
    have inCall : s.InCall c call := Pc.call?_of_mayWait? may
    split at ran
    · cases ran
      exact inv.goOn running may trivial rfl
    · have timers : ({ s with timers := (s.timers.addTimer addr now call.timeout
          ⟨c, call.serial, call.fd, call.kind.type⟩ false).2 } : System W).Inv := by
        refine inv.setTimers fun {t callback} is => ?_
        rcases s.timers.heap_addTimer addr now call.timeout
          ⟨c, call.serial, call.fd, call.kind.type⟩ false t with old | new
        · rw [old] at is
          exact inv.callbacks.timers is
        · rw [new] at is
          cases is
          refine ⟨inv.calls.serial inCall, fun call' inCall' same => ?_⟩
          cases inCall.symm.trans inCall'
          exact ⟨rfl, rfl⟩
      rw [← Option.some.inj ran]
      exact timers.goOn running may trivial rfl
  · cases ran

omit [DecidableEq W] in
theorem opened_of_granted {refused : Bool} {fd : Nat}
    (allowed : s.granted w refused .EPOLL_CTL_ADD fd = true ∨
      s.granted w refused .EPOLL_CTL_MOD fd = true) : s.files fd ≠ none := by
  intro closed
  rcases allowed with add | mod
  · simp [granted, closed] at add
  · simp [granted, closed] at mod

theorem Inv.addEvent (inv : s.Inv) (running : (s.workers w).phase = .running c) {refused : Bool}
    (ran : s.addEvent w c refused = some s') : s'.Inv := by
  rw [System.addEvent] at ran
  split at ran
  · rename_i call timer pc
    have may : (s.coroutines c).pc.mayWait? = some call := by rw [pc]; rfl
    obtain ⟨⟨added, poller⟩, handled, rest⟩ := Option.bind_eq_some_iff.mp ran
    have before := (inv.pollers.armed w).small
    have low : call.fd * 3 / 2 < 2 ^ 31 := by
      have bound := (inv.calls.started may).1
      rw [maxFd] at bound
      omega
    have small := Epoller.small_addEvent before low handled
    obtain ⟨wf, ⟨rfl, waiter, interest, -⟩ | ⟨rfl, registered, allowed⟩⟩ :=
      Epoller.addEvent_cases (inv.pollers.wf w) before handled
    · have inv₁ := (inv.setPoller wf small waiter interest).cancelTimer timer
      have running₁ : (((s.setPoller w poller).cancelTimer timer).workers w).phase = .running c := by
        rw [workers_cancelTimer, phase_setPoller, running]
      have may₁ : (((s.setPoller w poller).cancelTimer timer).coroutines c).pc.mayWait? =
          some call := by
        rw [coroutines_cancelTimer, coroutines_setPoller, may]
      simp only [Bool.false_eq_true, if_false] at rest
      split at rest
      · cases rest
        exact inv₁.goOn running₁ may₁ trivial rfl
      · cases rest
        exact inv₁.inUser running₁ rfl rfl
    · cases rest
      exact inv.suspend running pc wf small registered (opened_of_granted allowed)
  · cases ran

omit [DecidableEq W] in
theorem Inv.probe (inv : s.Inv) (running : (s.workers w).phase = .running c)
    {error : Option Errno} (ran : s.probe c error = some s') : s'.Inv := by
  rw [System.probe.eq_def] at ran
  split at ran
  · split at ran
    · cases ran
      exact inv.inUser running rfl rfl
    · cases ran
      exact inv.inUser running rfl rfl
  · cases ran

/-- `close` puts everybody who waits on its worker into the queue. -/
theorem Inv.close (inv : s.Inv) (running : (s.workers w).phase = .running c) (fd : Nat) :
    ∃ s', s.close w c fd = some s' ∧ s'.Inv ∧
      ∀ c' type, s.At c' (.waiting w fd type) → s'.Woken w c' fd type := by
  cases managed : s.fdmanager.getFdContext fd with
  | none =>
      have nobody : ∀ type, (s.workers w).poller.waiter fd type = none := by
        intro type
        by_contra waits
        exact inv.pollers.managed waits managed
      refine ⟨s.setPc c (.closing fd false), ?_, ?_, fun c' type waits => ?_⟩
      · simp only [System.close, managed]
      · refine inv.advance running (Pc.fits_of_out trivial rfl) (Pc.mayWait?_of_out rfl) ?_
          (goes_out rfl rfl)
        rintro fd' managed' ⟨⟩
        exact nobody
      · rw [At, nobody] at waits
        cases waits
  | some ctx =>
      obtain ⟨woken, poller, ran, woke, inv₁⟩ := inv.HandleAllEvent w fd
      refine ⟨((s.setPoller w poller).addTasks woken).setPc c (.closing fd true), ?_, ?_,
        fun c' type waits => ?_⟩
      · simp only [System.close, managed, ran]
        rfl
      · refine inv₁.advance (w := w) ?_ (Pc.fits_of_out trivial rfl) (Pc.mayWait?_of_out rfl) ?_
          (goes_out rfl rfl)
        · rw [phase_wake woke.own, running]
        · rintro fd' managed' ⟨⟩ type
          rw [waiter_wake woke, if_pos ⟨rfl, rfl, rfl⟩]
      · have done := woken_of_woke woke waits rfl
        exact ⟨done.queued, done.cleared⟩

omit [DecidableEq W] in
/-- A descriptor is closed that nobody waits for. -/
theorem Inv.closeFile (inv : s.Inv) {fd : Nat}
    (nobody : ∀ v type, (s.workers v).poller.waiter fd type = none) {fdmanager : FdManager}
    (contexts : ∀ fd', fd' ≠ fd → fdmanager.getFdContext fd' = s.fdmanager.getFdContext fd') :
    ({ s with
      fdmanager := fdmanager
      files := Function.update s.files fd none
      workers := fun w => { s.workers w with
        poller := { (s.workers w).poller with
          interest := Function.update (s.workers w).poller.interest fd none } } } :
      System W).Inv := by
  generalize after : ({ s with
    fdmanager := fdmanager
    files := Function.update s.files fd none
    workers := fun w => { s.workers w with
      poller := { (s.workers w).poller with
        interest := Function.update (s.workers w).poller.interest fd none } } } :
    System W) = s'
  have files : s'.files = Function.update s.files fd none := by rw [← after]
  have same : ∀ v, (s'.workers v).poller.Wf v ∧
      (s'.workers v).poller.waiter = (s.workers v).poller.waiter := fun v => by
    rw [← after]
    exact (inv.pollers.wf v).withInterest _
  have interest : ∀ v, (s'.workers v).poller.interest =
      Function.update (s.workers v).poller.interest fd none := fun v => by rw [← after]
  have contexts' : ∀ fd', fd' ≠ fd →
      s'.fdmanager.getFdContext fd' = s.fdmanager.getFdContext fd' := by
    rw [← after]
    exact contexts
  have other_of_waits : ∀ {v fd' type}, (s.workers v).poller.waiter fd' type ≠ none → fd' ≠ fd := by
    rintro v fd' type waits rfl
    exact waits (nobody v type)
  have pollers : s'.Pollers := by
    refine ⟨fun v => (same v).1, fun v => ⟨?_, fun fd' type waits => ?_⟩,
      fun {v fd'} registered => ?_, fun {v fd' type} waits => ?_⟩
    · rw [← after]
      exact (inv.pollers.armed v).small
    · rw [(same v).2] at waits
      rw [interest, Function.update_of_ne (other_of_waits waits)]
      exact (inv.pollers.armed v).registered fd' type waits
    · rw [interest, Function.update_apply] at registered
      split at registered
      · exact absurd rfl registered
      · rename_i other
        rw [files, Function.update_of_ne other]
        exact inv.pollers.opened registered
    · rw [(same v).2] at waits
      rw [contexts' fd' (other_of_waits waits)]
      exact inv.pollers.managed waits
  refine inv.quiet (by rw [← after]) pollers (fun v => (same v).2) ?_ ?_ ?_ ?_ fun fd' known => ?_
  · rw [← after]
    exact id
  · rw [← after]
    exact fun _ => rfl
  · rw [← after]
    exact inv.callbacks.tasks
  · rw [← after]
    exact inv.callbacks.timers
  · rw [files, Function.update_apply]
    split
    · exact Or.inr rfl
    · rename_i other
      rw [contexts' fd' other]
      exact known

omit [DecidableEq W] in
theorem Inv.closeOrigin (inv : s.Inv) (running : (s.workers w).phase = .running c)
    (own : ∀ fd managed, (s.coroutines c).pc = .closing fd managed → s.Own w fd)
    (ran : s.closeOrigin c = some s') : s'.Inv := by
  rw [System.closeOrigin] at ran
  split at ran
  · rename_i fd managed pc
    have nobody : ∀ v type, (s.workers v).poller.waiter fd type = none := by
      intro v type
      by_cases here : v = w
      · rw [here]
        exact inv.calls.closing running pc type
      · exact own fd managed pc v here type
    have contexts : ∀ fd', fd' ≠ fd →
        (if managed then s.fdmanager.delFd fd else s.fdmanager).getFdContext fd' =
          s.fdmanager.getFdContext fd' := by
      intro fd' other
      split
      · exact FdManager.getFdContext_delFd_of_ne other
      · rfl
    cases ran
    exact (inv.closeFile nobody contexts).inUser (w := w) running rfl rfl
  · cases ran

omit [DecidableEq W] in
/-- A hooked call begins. -/
theorem Inv.begin (inv : s.Inv) (running : (s.workers w).phase = .running c) (kind : CallKind)
    (fd : Nat) : (s.setCoroutine c (System.begin w kind fd (s.fdmanager.getFdContext fd)
      (s.files fd) (s.coroutines c))).Inv := by
  obtain ⟨calls, how⟩ := begin_cases w kind fd (s.fdmanager.getFdContext fd) (s.files fd)
    (s.coroutines c)
  generalize System.begin w kind fd (s.fdmanager.getFdContext fd) (s.files fd)
    (s.coroutines c) = co at calls how ⊢
  -- a new call has a new number
  have goes : (∀ call, co.pc.call? = some call → call.serial = (s.coroutines c).calls) →
      Goes s (s.setCoroutine c co) := by
    intro new
    refine goes_one (c := c) (fun c' other => coroutines_setCoroutine_of_ne other co) ?_
      fun call inCall => Or.inl ?_
    · rw [coroutines_setCoroutine_self, calls]
      exact Nat.le_succ _
    · rw [InCall, coroutines_setCoroutine_self] at inCall
      rw [coroutines_setCoroutine_self, calls, new call inCall]
      exact ⟨le_refl _, Nat.lt_succ_self _⟩
  obtain ⟨work, open_, fits, managed⟩ : co.pc.AtWork ∧ (∀ fd managed, co.pc ≠ .closing fd managed) ∧
      (∀ call, co.pc.call? = some call → (call.worker = w ∧ call.cancelled = none) ∧
        call.serial = (s.coroutines c).calls) ∧
      ∀ call, co.pc.mayWait? = some call → s.fdmanager.getFdContext call.fd ≠ none := by
    rcases how with user | ⟨call, rfl, -, own, serial, uncancelled, direct | ⟨origin, managed⟩⟩
    · rw [user]
      exact ⟨trivial, by rintro _ _ ⟨⟩, by rintro _ ⟨⟩, by rintro _ ⟨⟩⟩
    · rw [direct]
      refine ⟨trivial, by rintro _ _ ⟨⟩, ?_, by rintro _ ⟨⟩⟩
      rintro call' ⟨⟩
      exact ⟨⟨own, uncancelled⟩, serial⟩
    · rw [origin]
      refine ⟨trivial, by rintro _ _ ⟨⟩, ?_, ?_⟩
      · rintro call' ⟨⟩
        exact ⟨⟨own, uncancelled⟩, serial⟩
      · rintro call' ⟨⟩
        exact managed
  exact inv.advance running ⟨work, fun call is => (fits call is).1⟩
    (fun call may => ⟨FdManager.le_maxFd (managed call may), Or.inl (managed call may)⟩)
    (fun fd managed is => absurd is (open_ fd managed)) (goes fun call is => (fits call is).2)

theorem Inv.runStep (inv : s.Inv) {label : Label W} (near : s.Local label)
    (running : (s.workers label.worker).phase = .running c)
    (ran : s.runStep label.worker c label = some s') : s'.Inv := by
  cases label with
  | origin w answer => exact inv.origin running ran
  | addTimer w addr now => exact inv.addTimer running ran
  | addEvent w refused => exact inv.addEvent running ran
  | probe w error => exact inv.probe running ran
  | closeOrigin w =>
      exact inv.closeOrigin running (fun fd managed pc => near c fd managed running pc) ran
  | leave w =>
      cases (inUser_some ran).2
      exact inv.leave running
  | begin w kind fd =>
      cases (inUser_some ran).2
      exact inv.begin running kind fd
  | cancel w fd type =>
      obtain ⟨woken, poller, done, -, inv'⟩ := inv.HandleEvent w fd type
      cases (inUser_some ran).2.symm.trans done
      exact inv'
  | cancelAll w fd =>
      obtain ⟨woken, poller, done, -, inv'⟩ := inv.HandleAllEvent w fd
      cases (inUser_some ran).2.symm.trans done
      exact inv'
  | close w fd =>
      obtain ⟨s'', done, inv', -⟩ := inv.close running fd
      cases (inUser_some ran).2.symm.trans done
      exact inv'
  | socket w fd => exact inv.openSocket (inUser_some ran).2
  | setTimeout w fd type timeout =>
      cases (inUser_some ran).2
      exact inv.modifyContext fd _
  | setUserNonBlock w fd flag =>
      cases (inUser_some ran).2
      exact inv.modifyContext fd _
  | schedule w c => cases ran
  | take w => cases ran
  | poll w reports => cases ran
  | expire w now probe => cases ran
  | report w => cases ran

/-- A step that reaches everybody it is about keeps everything in order. -/
theorem Inv.step (inv : s.Inv) {label : Label W} (near : s.Local label)
    (ran : s.step label = some s') : s'.Inv := by
  rcases step_cases ran with ⟨w, c, rfl, away, rfl⟩ | ⟨w, rfl, ran⟩ | ⟨w, reports, rfl, ran⟩ |
    ⟨w, now, probe, rfl, ran⟩ | ⟨w, rfl, ran⟩ | ⟨c, running, ran⟩
  · exact inv.schedule away
  · exact inv.take near ran
  · exact inv.poll ran
  · exact inv.expire ran
  · exact inv.report ran
  · exact inv.runStep near running ran

/-! ## Runs -/

/-- A step that is to wake `c` out of `call`: the worker calls the function of the
call's timer, or a coroutine in user code closes the descriptor. -/
def Wakes (s : System W) (c : Nat) (call : Call W) : Label W → Prop
  | .take w => (s.workers w).phase = .loop ∧ ∃ callback tasks,
      (s.workers w).tasks = .func callback :: tasks ∧ callback.co = c ∧
        callback.serial = call.serial
  | .close w fd => fd = call.fd ∧ ∃ c', (s.workers w).phase = .running c' ∧
      (s.coroutines c').pc = .user
  | _ => False

/-- **No wake-up is lost.** In a run in which every step reaches those it is about,
whenever a coroutine is suspended in a hooked call and registered in a poller, the
function of the call's timer and `close` of its descriptor put it into the queue of
that worker and clear its bit. -/
theorem wakeups_arrive {files : Nat → Option File} {nextFile : Nat} {labels : List (Label W)}
    {call : Call W} {timer : Option TimerPtr} {label : Label W}
    (run : Run (Guarded Local (Steps System.step)) (init files nextFile) labels s)
    (suspended : (s.coroutines c).pc = .suspended call timer)
    (registered : (s.workers w).poller.waiter call.fd call.kind.type = some (.co c))
    (near : s.Local label) (wakes : s.Wakes c call label) :
    ∃ s', s.step label = some s' ∧ s'.Woken w c call.fd call.kind.type := by
  have inv : s.Inv := run.invariant (I := Inv) (inv_init files nextFile)
    fun inv both => inv.step both.1 both.2
  have inCall : s.InCall c call := by rw [InCall, suspended]; rfl
  cases label with
  | take v =>
      obtain ⟨idle, callback, tasks, queued, rfl, same⟩ := wakes
      obtain ⟨s', ran, -, woken⟩ := inv.takeFunc near idle queued
      exact ⟨s', ran, woken call w inCall same.symm registered⟩
  | close v fd =>
      obtain ⟨rfl, c', running, user⟩ := wakes
      have here : w = v := by
        by_contra other
        rw [near w other] at registered
        cases registered
      subst here
      obtain ⟨s', ran, -, woken⟩ := inv.close running call.fd
      refine ⟨s', step_of_runStep running ?_, woken c _ registered⟩
      rw [System.runStep, System.inUser, user]
      exact ran
  | _ => cases wakes

end

/-! ## Runs of two workers -/

theorem local_of_co [DecidableEq W] {tasks : List (Task Nat Callback)}
    (queued : (s.workers w).tasks = .co c :: tasks) : s.Local (.take w) := by
  intro callback tasks' call other
  cases queued.symm.trans other

/-- Steps that need nothing to reach those they are about. -/
def quiet : Label W → Bool
  | .take _ => false
  | .close _ _ => false
  | .closeOrigin _ => false
  | _ => true

theorem run_of_exec_quiet [DecidableEq W] {labels : List (Label W)}
    (easy : ∀ label ∈ labels, quiet label = true) (ran : exec step s labels = some s') :
    Run (Guarded Local (Steps step)) s labels s' := by
  induction labels generalizing s with
  | nil =>
      cases ran
      exact Run.nil _
  | cons label labels ih =>
      obtain ⟨m, first, rest⟩ := Option.bind_eq_some_iff.mp ran
      have near : s.Local label := by
        have is := easy label List.mem_cons_self
        cases label <;> first | exact True.intro | cases is
      exact Run.cons ⟨near, first⟩
        (ih (fun label member => easy label (List.mem_cons_of_mem _ member)) rest)

/-- Two workers in a process that has its first five descriptors in use. -/
def twoWorkers : System Bool := init (fun fd => if fd < 5 then some ⟨fd, false⟩ else none) 5

def scheduled : System Bool := (exec step twoWorkers [.schedule false 0]).get (by decide)

def running0 : System Bool := (exec step scheduled [.take false]).get (by decide)

/-- Coroutine 0 is suspended on the first worker in a read of socket 5 that is to
take 10 ms at most. -/
def reading : System Bool :=
  (exec step running0
    [.socket false 5, .setTimeout false 5 .EPOLLIN 10, .begin false .read 5,
      .origin false (.failure .EAGAIN), .addTimer false 0 0, .addEvent false false]).get (by decide)

/-- The call of coroutine 0. -/
def timedRead : Call Bool where
  kind := .read
  fd := 5
  timeout := 10
  serial := 0
  worker := false
  file := some ⟨5, true⟩

/-- The first worker has collected the timer. -/
def timedOutHere : System Bool :=
  (exec step reading [.poll false [], .expire false 20 0, .report false]).get (by decide)

/-- The second worker has collected the timer. -/
def timedOutThere : System Bool :=
  (exec step reading [.poll true [], .expire true 20 0, .report true]).get (by decide)

theorem reading_run : ∃ labels, Run (Guarded Local (Steps step)) twoWorkers labels reading := by
  have start : Run (Guarded Local (Steps step)) twoWorkers _ scheduled :=
    run_of_exec_quiet (by decide) (exec_get _)
  have take : Run (Guarded Local (Steps step)) scheduled [.take false] running0 :=
    Run.single ⟨local_of_co (show (scheduled.workers false).tasks = [.co 0] from rfl), rfl⟩
  have rest : Run (Guarded Local (Steps step)) running0 _ reading :=
    run_of_exec_quiet (by decide) (exec_get _)
  exact ⟨_, (start.append take).append rest⟩

def scheduledHere : System Bool := (exec step reading [.schedule false 1]).get (by decide)

/-- Coroutine 1 runs on the first worker. -/
def otherHere : System Bool := (exec step scheduledHere [.take false]).get (by decide)

/-- Coroutine 1 runs on the second worker. -/
def otherThere : System Bool :=
  (exec step reading [.schedule true 1, .take true]).get (by decide)

theorem timedOutHere_near : timedOutHere.Local (.take false) := by
  rintro callback tasks call ⟨⟩ - - v other
  cases v with
  | false => exact absurd rfl other
  | true => exact ⟨by rintro ⟨⟩, by rintro _ _ ⟨⟩⟩

theorem otherHere_own : otherHere.Own false 5 := by
  intro v other type
  cases v with
  | false => exact absurd rfl other
  | true => rfl

/-- A read is woken by its timer and by `close`, on the worker it runs on. -/
theorem read_woken_here :
    (∃ s', timedOutHere.step (.take false) = some s' ∧ s'.Woken false 0 5 .EPOLLIN) ∧
      ∃ s', otherHere.step (.close false 5) = some s' ∧ s'.Woken false 0 5 .EPOLLIN := by
  obtain ⟨labels, run⟩ := reading_run
  constructor
  · have expired : Run (Guarded Local (Steps step)) reading _ timedOutHere :=
      run_of_exec_quiet (by decide) (exec_get _)
    have suspended : (timedOutHere.coroutines 0).pc = .suspended timedRead (some 0) := rfl
    exact wakeups_arrive (run.append expired) suspended rfl timedOutHere_near
      ⟨rfl, _, _, rfl, rfl, rfl⟩
  · have schedule : Run (Guarded Local (Steps step)) reading _ scheduledHere :=
      run_of_exec_quiet (by decide) (exec_get _)
    have take : Run (Guarded Local (Steps step)) scheduledHere [.take false] otherHere :=
      Run.single ⟨local_of_co (show (scheduledHere.workers false).tasks = [.co 1] from rfl), rfl⟩
    have suspended : (otherHere.coroutines 0).pc = .suspended timedRead (some 0) := rfl
    exact wakeups_arrive ((run.append schedule).append take) suspended rfl otherHere_own
      ⟨rfl, 1, rfl, rfl⟩

/-- On another worker neither of them wakes it. -/
theorem not_wakeups_arrive :
    (∃ labels, Run (Steps step) twoWorkers labels timedOutThere ∧
      (timedOutThere.coroutines 0).pc = .suspended timedRead (some 0) ∧
      (timedOutThere.workers false).poller.waiter 5 .EPOLLIN = some (.co 0) ∧
      timedOutThere.Wakes 0 timedRead (.take true) ∧
      ¬∃ s', timedOutThere.step (.take true) = some s' ∧ s'.Woken false 0 5 .EPOLLIN) ∧
    ∃ labels, Run (Steps step) twoWorkers labels otherThere ∧
      (otherThere.coroutines 0).pc = .suspended timedRead (some 0) ∧
      (otherThere.workers false).poller.waiter 5 .EPOLLIN = some (.co 0) ∧
      otherThere.Wakes 0 timedRead (.close true 5) ∧
      ¬∃ s', otherThere.step (.close true 5) = some s' ∧ s'.Woken false 0 5 .EPOLLIN := by
  obtain ⟨labels, run⟩ := reading_run
  constructor
  · have expired : Run (Steps step) reading _ timedOutThere := run_of_exec (exec_get _)
    refine ⟨_, run.of_guarded.append expired, rfl, rfl, ⟨rfl, _, _, rfl, rfl, rfl⟩, ?_⟩
    rintro ⟨s', ran, woken⟩
    cases ran
    cases woken.queued
  · have taken : Run (Steps step) reading _ otherThere := run_of_exec (exec_get _)
    refine ⟨_, run.of_guarded.append taken, rfl, rfl, ⟨rfl, 1, rfl, rfl⟩, ?_⟩
    rintro ⟨s', ran, woken⟩
    cases ran
    cases woken.queued

end Reyao.System
