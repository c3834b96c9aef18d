import Reyao.WorkerRun

/-!
# `CoroutineCondition` (`coroutine.h`, `coroutine.cc`)

A condition has room for one coroutine: `wait` stores the one that runs and suspends it,
`notify` queues the one that is stored, which stays stored. The coroutines are those of a
worker, whose loop goes on around the calls: they suspend for events and timers, return,
and are used again.

`correct_iff`: in a run every `notify` wakes a coroutine that waits and none that waits is
out of reach exactly when waits and notifications alternate.
-/

namespace Reyao

/-- A condition and the worker whose coroutines use it. -/
structure CoroutineCondition (F : Type) : Type where
  loop : WorkerLoop F := {}
  /-- `co_`; `worker_` is null as long as it is. -/
  slot : Option Nat := none
  /-- The coroutines that are suspended in `wait`. -/
  inWait : Nat → Bool := fun _ => false

inductive ConditionLabel (F : Type) : Type
  | loop (e : LoopLabel F)
  /-- The coroutine that runs calls `wait`. -/
  | wait
  /-- Some coroutine or thread calls `notify`. -/
  | notify
  deriving DecidableEq

namespace CoroutineCondition

variable {F : Type}

/-- `wait()`. -/
def wait (s : CoroutineCondition F) : Option (CoroutineCondition F) := do
  let c ← s.loop.running?
  let loop ← s.loop.yieldToSuspend c
  return { loop := loop.resumed, slot := some c, inWait := Function.update s.inWait c true }

/-- `notify()`, which has no result without a worker. -/
def notify (s : CoroutineCondition F) : Option (CoroutineCondition F) := do
  let c ← s.slot
  return { s with loop := { s.loop with tasks := s.loop.tasks ++ [.co c] } }

def step (s : CoroutineCondition F) : ConditionLabel F → Option (CoroutineCondition F)
  | .loop e =>
      if s.loop.Enabled e then do
        let loop ← s.loop.step e
        -- a coroutine that is resumed is back from `wait`
        return { s with
          loop := loop, inWait := fun c => s.inWait c && decide (loop.state c = .SUSPEND) }
      else none
  | .wait => s.wait
  | .notify => s.notify

/-- A call on the condition, or a step of the worker. -/
abbrev Step : CoroutineCondition F → ConditionLabel F → CoroutineCondition F → Prop :=
  Lib.Steps step

/-- A notification queues the coroutine. -/
def WakesNext (s : CoroutineCondition F) (c : Nat) : Prop :=
  ∃ t, Step s .notify t ∧ c ∈ t.loop.queuedCos

/-- What a run of calls should do: every `notify` finds a coroutine that is suspended in
`wait` and is not queued yet, and every coroutine that is suspended in `wait` is queued, or
will be by the next `notify`. -/
structure Correct (es : List (ConditionLabel F)) : Prop where
  notifies : ∀ before t, before ++ [.notify] <+: es → Lib.Run Step {} before t →
    ∃ c, t.slot = some c ∧ t.inWait c = true ∧ c ∉ t.loop.queuedCos
  wakes : ∀ before t, before <+: es → Lib.Run Step {} before t →
    ∀ c, t.inWait c = true → c ∈ t.loop.queuedCos ∨ t.WakesNext c

/-- A wait that has not been answered: `none` when two waits or two notifications have
followed each other. -/
def await : Option Bool → ConditionLabel F → Option Bool
  | some false, .wait => some true
  | some true, .notify => some false
  | unanswered, .loop _ => unanswered
  | _, _ => none

/-- Waits and notifications alternate, a wait first. -/
def Alternates (es : List (ConditionLabel F)) : Prop :=
  (es.foldl await (some false)).isSome = true

instance (es : List (ConditionLabel F)) : Decidable (Alternates es) :=
  inferInstanceAs (Decidable (_ = true))

end CoroutineCondition

/-! ## Coroutines that are suspended -/

namespace WorkerLoop

variable {F : Type} {s s' : WorkerLoop F} {c : Nat}

@[simp] theorem resumed_cos (s : WorkerLoop F) : s.resumed.cos = s.cos := by
  rw [resumed]
  split <;> rfl

@[simp] theorem resumed_tasks (s : WorkerLoop F) : s.resumed.tasks = s.tasks := by
  rw [resumed]
  split <;> rfl

@[simp] theorem resumed_waiting (s : WorkerLoop F) : s.resumed.waiting = s.waiting := by
  rw [resumed]
  split <;> rfl

/-- What a step leaves a coroutine that is suspended and waits for no event. -/
structure Kept (s s' : WorkerLoop F) (c : Nat) : Prop where
  state : s'.state c = .SUSPEND
  idle : s'.waiting c = false
  queued : c ∈ s'.queuedCos ↔ c ∈ s.queuedCos

theorem kept_of_same (suspended : s.state c = .SUSPEND) (idle : s.waiting c = false)
    (cos : s'.cos c = s.cos c) (waiting : s'.waiting c = s.waiting c)
    (queued : c ∈ s'.queuedCos ↔ c ∈ s.queuedCos) : Kept s s' c := by
  refine ⟨?_, waiting.trans idle, queued⟩
  rw [state, cos]
  exact suspended

/-- The coroutine that runs stops; the others stay as they are. -/
theorem kept_of_stop (suspended : s.state c = .SUSPEND) (idle : s.waiting c = false) {k : Nat}
    (other : c ≠ k) {t : WorkerLoop F} {co : CoroutineData F}
    (cos : t.cos = Function.update s.cos k co) (tasks : t.tasks = s.tasks)
    (waiting : t.waiting c = s.waiting c) : Kept s t.resumed c := by
  refine kept_of_same suspended idle ?_ ?_ ?_
  · rw [resumed_cos, cos, Function.update_of_ne other]
  · rw [resumed_waiting, waiting]
  · rw [queuedCos, resumed_tasks, tasks]
    rfl

/-- Without a task only the idle coroutine changes. -/
theorem runIdle_kept (suspended : s.state c = .SUSPEND) (idle : s.waiting c = false)
    (positive : c ≠ 0) (ran : s.runIdle = some s') : Kept s s' c := by
  rw [runIdle] at ran
  split at ran
  · cases ran
    exact kept_of_same suspended idle rfl rfl Iff.rfl
  · obtain ⟨t, resumed, same⟩ := Option.bind_eq_some_iff.mp ran
    cases same
    rw [resume] at resumed
    split at resumed
    · cases resumed
      exact kept_of_same suspended idle (Function.update_of_ne positive _ _) rfl Iff.rfl
    · cases resumed
      exact kept_of_same suspended idle (Function.update_of_ne positive _ _) rfl Iff.rfl
    · cases resumed

/-- A function runs on a coroutine that is not suspended. -/
theorem look_func_kept (orderly : s.Orderly) (suspended : s.state c = .SUSPEND)
    (idle : s.waiting c = false) {f : F} {rest : List (Task Nat F)}
    (tasks : s.tasks = .func f :: rest) (ran : s.look = some s') : Kept s s' c := by
  have queued : rest.filterMap Task.co? = s.queuedCos := by
    rw [queuedCos, tasks]
    rfl
  simp only [look, tasks] at ran
  split at ran
  · rename_i k is_func
    obtain ⟨t, reused, ran⟩ := Option.bind_eq_some_iff.mp ran
    obtain ⟨u, resumed, same⟩ := Option.bind_eq_some_iff.mp ran
    cases same
    rw [reuse] at reused
    split at reused
    · rename_i unused
      cases reused
      cases (resume_setCo _ _ _).symm.trans resumed
      have other : c ≠ k := by
        rintro rfl
        change s.state c = .INIT ∨ s.state c = .DONE ∨ s.state c = .EXCEPT at unused
        rw [suspended] at unused
        rcases unused with init | done | except
        · cases init
        · cases done
        · cases except
      refine kept_of_same suspended idle (Function.update_of_ne other _ _) rfl ?_
      rw [← queued]
      rfl
    · cases reused
  · obtain ⟨u, resumed, same⟩ := Option.bind_eq_some_iff.mp ran
    cases same
    cases (resume_setCo { s with
      tasks := rest, nextId := s.nextId + 1, coFunc := some s.nextId } _ _).symm.trans resumed
    have other : c ≠ s.nextId := by
      rintro rfl
      rw [state, orderly.fresh _ (Nat.le_refl _)] at suspended
      cases suspended
    refine kept_of_same suspended idle (Function.update_of_ne other _ _) rfl ?_
    rw [← queued]
    rfl

/-- A round of `run` leaves a suspended coroutine as it is, or resumes it as it has been
queued. -/
theorem look_suspended (orderly : s.Orderly) (suspended : s.state c = .SUSPEND)
    (positive : c ≠ 0) (idle : s.waiting c = false) (ran : s.look = some s') :
    Kept s s' c ∨ (c ∈ s.queuedCos ∧ s'.state c = .RUNNING) := by
  cases tasks : s.tasks with
  | nil =>
      rw [look, tasks] at ran
      exact Or.inl (runIdle_kept suspended idle positive ran)
  | cons task rest =>
      cases task with
      | func f => exact Or.inl (look_func_kept orderly suspended idle tasks ran)
      | co k =>
          have queued : s.queuedCos = k :: rest.filterMap Task.co? := by
            rw [queuedCos, tasks]
            rfl
          have first : ({ s with tasks := rest } : WorkerLoop F).state k = .SUSPEND :=
            (orderly.queued k (by rw [queued]; exact List.mem_cons_self)).1
          simp only [look, tasks] at ran
          rw [first, if_pos ⟨CoState.noConfusion, CoState.noConfusion⟩,
            resume_suspended first] at ran
          cases ran
          by_cases here : c = k
          · subst here
            refine Or.inr ⟨?_, ?_⟩
            · rw [queued]
              exact List.mem_cons_self
            · change (Function.update s.cos c _ c).state = .RUNNING
              rw [Function.update_self]
          · refine Or.inl (kept_of_same suspended idle (Function.update_of_ne here _ _) rfl ?_)
            rw [queued]
            exact ⟨List.mem_cons_of_mem _, fun member => (List.mem_cons.mp member).resolve_left here⟩

/-- Any step leaves a suspended coroutine as it is, or resumes it as it has been queued. -/
theorem step_suspended {e : LoopLabel F} (orderly : s.Orderly) (enabled : s.Enabled e)
    (ran : s.step e = some s') (suspended : s.state c = .SUSPEND) (positive : c ≠ 0)
    (idle : s.waiting c = false) : Kept s s' c ∨ (c ∈ s.queuedCos ∧ s'.state c = .RUNNING) := by
  have not_cur : ∀ {k}, s.cur = some k → c ≠ k := by
    rintro k cur rfl
    rw [(orderly.running_iff c).mpr cur] at suspended
    cases suspended
  cases e with
  | look => exact look_suspended orderly suspended positive idle ran
  | addTask f =>
      cases ran
      refine Or.inl (kept_of_same suspended idle rfl rfl ?_)
      rw [queuedCos, List.filterMap_append]
      exact iff_of_eq (congrArg (c ∈ ·) (List.append_nil _))
  | arrive k =>
      cases ran
      have other : c ≠ k := by
        rintro rfl
        cases idle.symm.trans enabled
      refine Or.inl (kept_of_same suspended idle rfl (Function.update_of_ne other _ _) ?_)
      rw [queuedCos, List.filterMap_append]
      refine ⟨fun member => ?_, List.mem_append_left _⟩
      exact (List.mem_append.mp member).resolve_right fun last => other (List.mem_singleton.mp last)
  | suspend =>
      obtain ⟨k, running, ran⟩ := Option.bind_eq_some_iff.mp ran
      obtain ⟨cur, -⟩ := cur_of_running running
      rw [yieldToSuspend_eq orderly cur] at ran
      cases ran
      exact Or.inl (kept_of_stop suspended idle (not_cur cur) rfl rfl
        (Function.update_of_ne (not_cur cur) _ _))
  | returns =>
      obtain ⟨k, running, ran⟩ := Option.bind_eq_some_iff.mp ran
      cases ran
      exact Or.inl (kept_of_stop suspended idle (not_cur (cur_of_running running).1) rfl rfl rfl)
  | throws =>
      obtain ⟨k, running, ran⟩ := Option.bind_eq_some_iff.mp ran
      cases ran
      exact Or.inl (kept_of_stop suspended idle (not_cur (cur_of_running running).1) rfl rfl rfl)
  | idleYields =>
      change (s.yieldToSuspend 0).bind _ = some s' at ran
      rw [yieldToSuspend_eq orderly enabled] at ran
      cases ran
      exact Or.inl (kept_of_stop suspended idle positive rfl rfl rfl)
  | idleReturns =>
      cases ran
      exact Or.inl (kept_of_stop suspended idle positive rfl rfl rfl)

end WorkerLoop

/-! ## Waits and notifications -/

namespace CoroutineCondition

variable {F : Type} {s s' : CoroutineCondition F}

/-- What holds after waits and notifications that alternate. -/
structure Inv (unanswered : Bool) (s : CoroutineCondition F) : Prop where
  orderly : s.loop.Orderly
  waits : ∀ c, s.inWait c = true →
    s.loop.state c = .SUSPEND ∧ c ≠ 0 ∧ s.loop.waiting c = false
  woken : ∀ c, s.inWait c = true →
    c ∈ s.loop.queuedCos ∨ (unanswered = true ∧ s.slot = some c)
  stored : unanswered = true →
    ∃ c, s.slot = some c ∧ s.inWait c = true ∧ c ∉ s.loop.queuedCos

theorem inv_start : Inv false ({} : CoroutineCondition F) := by
  refine ⟨WorkerLoop.orderly_start, fun c waits => ?_, fun c waits => ?_, fun unanswered => ?_⟩
  · cases waits
  · cases waits
  · cases unanswered

theorem Inv.loop_step {unanswered : Bool} {e : LoopLabel F} (inv : Inv unanswered s)
    (step : Step s (.loop e) s') : Inv unanswered s' := by
  change CoroutineCondition.step s (.loop e) = some s' at step
  rw [CoroutineCondition.step] at step
  split at step
  · rename_i enabled
    obtain ⟨loop, ran, same⟩ := Option.bind_eq_some_iff.mp step
    cases same
    obtain ⟨loop', ran', orderly', -⟩ := WorkerLoop.step_orderly inv.orderly enabled
    cases ran.symm.trans ran'
    have frame : ∀ c, s.inWait c = true →
        WorkerLoop.Kept s.loop loop c ∨ (c ∈ s.loop.queuedCos ∧ loop.state c = .RUNNING) := by
      intro c waits
      obtain ⟨suspended, positive, idle⟩ := inv.waits c waits
      exact WorkerLoop.step_suspended inv.orderly enabled ran suspended positive idle
    -- who is still in `wait` has not been resumed
    have still : ∀ c, (s.inWait c && decide (loop.state c = .SUSPEND)) = true →
        s.inWait c = true ∧ WorkerLoop.Kept s.loop loop c := by
      intro c waits
      obtain ⟨was, suspended⟩ := Bool.and_eq_true_iff.mp waits
      refine ⟨was, (frame c was).resolve_right fun resumed => ?_⟩
      cases (of_decide_eq_true suspended).symm.trans resumed.2
    refine ⟨orderly', fun c waits => ?_, fun c waits => ?_, fun unanswered => ?_⟩
    · obtain ⟨was, kept⟩ := still c waits
      exact ⟨kept.state, (inv.waits c was).2.1, kept.idle⟩
    · obtain ⟨was, kept⟩ := still c waits
      exact (inv.woken c was).imp_left kept.queued.mpr
    · obtain ⟨c, slot, was, not_queued⟩ := inv.stored unanswered
      have kept : WorkerLoop.Kept s.loop loop c :=
        (frame c was).resolve_right fun resumed => not_queued resumed.1
      refine ⟨c, slot, ?_, fun queued => not_queued (kept.queued.mp queued)⟩
      exact Bool.and_eq_true_iff.mpr ⟨was, decide_eq_true kept.state⟩
  · cases step

/-- What a wait does: the coroutine that runs is suspended and stored. -/
theorem wait_spec (orderly : s.loop.Orderly) (step : Step s .wait s') :
    ∃ c, s.loop.cur = some c ∧ c ≠ 0 ∧ s'.slot = some c ∧
      s'.inWait = Function.update s.inWait c true ∧ s'.loop.Orderly ∧
      s'.loop.state c = .SUSPEND ∧ s'.loop.waiting = s.loop.waiting ∧
      s'.loop.queuedCos = s.loop.queuedCos ∧
      ∀ k ≠ c, s'.loop.state k = s.loop.state k := by
  obtain ⟨c, running, ran⟩ := Option.bind_eq_some_iff.mp step
  obtain ⟨cur, positive⟩ := WorkerLoop.cur_of_running running
  rw [WorkerLoop.yieldToSuspend_eq orderly cur] at ran
  cases ran
  obtain ⟨orderly', -⟩ := WorkerLoop.yield_orderly orderly cur (fun _ _ => rfl) fun _ => positive
  refine ⟨c, cur, positive, rfl, rfl, orderly', ?_, WorkerLoop.resumed_waiting _, ?_,
    fun k other => ?_⟩
  · rw [WorkerLoop.state, WorkerLoop.resumed_cos]
    change (Function.update s.loop.cos c _ c).state = .SUSPEND
    rw [Function.update_self]
  · rw [WorkerLoop.queuedCos, WorkerLoop.resumed_tasks]
    rfl
  · rw [WorkerLoop.state, WorkerLoop.resumed_cos]
    exact WorkerLoop.state_update_of_ne other _

/-- The coroutine that runs is in no wait. -/
theorem Inv.not_cur {unanswered : Bool} (inv : Inv unanswered s) {c k : Nat}
    (waits : s.inWait c = true) (cur : s.loop.cur = some k) : c ≠ k := by
  rintro rfl
  have running := (inv.orderly.running_iff c).mpr cur
  rw [(inv.waits c waits).1] at running
  cases running

theorem Inv.wait_step (inv : Inv false s) (step : Step s .wait s') : Inv true s' := by
  obtain ⟨c, cur, positive, slot, inWait, orderly', suspended, waiting, queued, others⟩ :=
    wait_spec inv.orderly step
  have not_queued : c ∉ s'.loop.queuedCos := by
    intro member
    rw [queued] at member
    have running := (inv.orderly.running_iff c).mpr cur
    rw [(inv.orderly.queued c member).1] at running
    cases running
  refine ⟨orderly', fun k waits => ?_, fun k waits => ?_, fun _ => ⟨c, slot, ?_, not_queued⟩⟩
  · by_cases here : k = c
    · subst here
      rw [waiting]
      exact ⟨suspended, positive, inv.orderly.not_waiting cur⟩
    · rw [inWait, Function.update_of_ne here] at waits
      rw [waiting, others k here]
      exact inv.waits k waits
  · by_cases here : k = c
    · subst here
      exact Or.inr ⟨rfl, slot⟩
    · rw [inWait, Function.update_of_ne here] at waits
      rw [queued]
      exact (inv.woken k waits).imp_right fun not_open => Bool.noConfusion not_open.1
  · rw [inWait, Function.update_self]

/-- What a notification does: the coroutine that is stored is queued. -/
theorem notify_spec (step : Step s .notify s') :
    ∃ c, s.slot = some c ∧ s'.loop.queuedCos = s.loop.queuedCos ++ [c] ∧
      s' = { s with loop := { s.loop with tasks := s.loop.tasks ++ [.co c] } } := by
  obtain ⟨c, slot, same⟩ := Option.bind_eq_some_iff.mp step
  cases same
  exact ⟨c, slot, List.filterMap_append, rfl⟩

theorem Inv.notify_step (inv : Inv true s) (step : Step s .notify s') : Inv false s' := by
  obtain ⟨c, slot, queued, rfl⟩ := notify_spec step
  obtain ⟨c', slot', waits, not_queued⟩ := inv.stored rfl
  cases slot.symm.trans slot'
  obtain ⟨suspended, positive, idle⟩ := inv.waits c waits
  have orderly' := inv.orderly.queue suspended positive not_queued
  rw [← idle, Function.update_eq_self] at orderly'
  refine ⟨orderly', inv.waits, fun k is_waiting => Or.inl ?_, fun unanswered => ?_⟩
  · rw [queued]
    rcases inv.woken k is_waiting with before | ⟨-, stored⟩
    · exact List.mem_append_left _ before
    · cases slot.symm.trans stored
      exact List.mem_append_right _ List.mem_cons_self
  · cases unanswered

/-- What one call does to the waits that are not answered. -/
theorem Inv.step {unanswered u : Bool} {e : ConditionLabel F} (inv : Inv unanswered s)
    (step : Step s e s') (answers : await (some unanswered) e = some u) : Inv u s' := by
  cases e with
  | loop e =>
      cases unanswered <;> cases answers <;> exact inv.loop_step step
  | wait =>
      cases unanswered with
      | false =>
          cases answers
          exact inv.wait_step step
      | true => cases answers
  | notify =>
      cases unanswered with
      | false => cases answers
      | true =>
          cases answers
          exact inv.notify_step step

theorem foldl_await_none (es : List (ConditionLabel F)) : es.foldl await none = none := by
  induction es with
  | nil => rfl
  | cons e es ih => cases e <;> exact ih

/-- The calls before others that alternate alternate. -/
theorem Alternates.before {es fs : List (ConditionLabel F)} (alternates : Alternates fs)
    (within : es <+: fs) : Alternates es := by
  obtain ⟨rest, rfl⟩ := within
  rw [Alternates, List.foldl_append] at alternates
  rw [Alternates]
  cases ended : es.foldl await (some false) with
  | none =>
      rw [ended, foldl_await_none] at alternates
      cases alternates
  | some unanswered => rfl

theorem inv_of_run {es : List (ConditionLabel F)} (run : Lib.Run Step {} es s) :
    ∀ {unanswered}, es.foldl await (some false) = some unanswered → Inv unanswered s := by
  induction run with
  | nil =>
      intro unanswered ended
      cases ended
      exact inv_start
  | @snoc t u es e prior step ih =>
      intro unanswered ended
      rw [List.foldl_append] at ended
      cases before : es.foldl await (some false) with
      | none =>
          rw [before, foldl_await_none] at ended
          cases ended
      | some was =>
          rw [before] at ended
          exact (ih before).step step ended

/-- Alternating calls wake every coroutine that waits, and no other. -/
theorem correct_of_alternates {es : List (ConditionLabel F)} (alternates : Alternates es) :
    Correct es := by
  refine ⟨fun before t within run => ?_, fun before t within run c waits => ?_⟩
  · obtain ⟨u, answered⟩ := Option.isSome_iff_exists.mp (alternates.before within)
    rw [List.foldl_append] at answered
    cases ended : before.foldl await (some false) with
    | none =>
        rw [ended, foldl_await_none] at answered
        cases answered
    | some unanswered =>
        rw [ended] at answered
        cases unanswered with
        | false => cases answered
        | true => exact (inv_of_run run ended).stored rfl
  · obtain ⟨unanswered, ended⟩ := Option.isSome_iff_exists.mp (alternates.before within)
    refine ((inv_of_run run ended).woken c waits).imp_right fun stored => ?_
    refine ⟨_, Option.bind_eq_some_iff.mpr ⟨c, stored.2, rfl⟩, ?_⟩
    change c ∈ (t.loop.tasks ++ [Task.co c]).filterMap Task.co?
    rw [List.filterMap_append]
    exact List.mem_append_right _ List.mem_cons_self

theorem Correct.before {es fs : List (ConditionLabel F)} (correct : Correct fs)
    (within : es <+: fs) : Correct es :=
  ⟨fun before t inside => correct.notifies before t (inside.trans within),
    fun before t inside => correct.wakes before t (inside.trans within)⟩

/-- A second wait puts the first coroutine that waits out of reach. -/
theorem Inv.second_wait (inv : Inv true s) (step : Step s .wait s') :
    ∃ c, s'.inWait c = true ∧ c ∉ s'.loop.queuedCos ∧ ¬s'.WakesNext c := by
  obtain ⟨k, cur, -, slot, inWait, -, -, -, queued, -⟩ := wait_spec inv.orderly step
  obtain ⟨c, -, waits, not_queued⟩ := inv.stored rfl
  have other : c ≠ k := inv.not_cur waits cur
  refine ⟨c, ?_, ?_, ?_⟩
  · rw [inWait, Function.update_of_ne other]
    exact waits
  · rw [queued]
    exact not_queued
  · rintro ⟨t, notified, member⟩
    obtain ⟨k', slot', queued', -⟩ := notify_spec notified
    cases slot.symm.trans slot'
    rw [queued', queued] at member
    rcases List.mem_append.mp member with before | last
    · exact not_queued before
    · exact other (List.mem_singleton.mp last)

theorem alternates_of_correct {es : List (ConditionLabel F)} (run : Lib.Run Step {} es s) :
    Correct es → Alternates es := by
  induction run with
  | nil =>
      intro _
      rfl
  | @snoc t u es e prior step ih =>
      intro correct
      have inside : es <+: es ++ [e] := List.prefix_append es [e]
      obtain ⟨unanswered, ended⟩ :=
        Option.isSome_iff_exists.mp (ih (correct.before inside))
      have inv := inv_of_run prior ended
      rw [Alternates, List.foldl_append, ended]
      cases e with
      | loop e => cases unanswered <;> rfl
      | wait =>
          cases unanswered with
          | false => rfl
          | true =>
              obtain ⟨c, waits, not_queued, unreachable⟩ := inv.second_wait step
              rcases correct.wakes _ u (List.prefix_refl _) (prior.snoc step) c waits with
                queued | wakes
              · exact absurd queued not_queued
              · exact absurd wakes unreachable
      | notify =>
          cases unanswered with
          | true => rfl
          | false =>
              obtain ⟨c, -, waits, not_queued⟩ :=
                correct.notifies es t (List.prefix_refl _) prior
              rcases inv.woken c waits with queued | ⟨unanswered, -⟩
              · exact absurd queued not_queued
              · cases unanswered

/-- In a run of the worker, every notification wakes a coroutine that is suspended in
`wait` and every coroutine that is stays within reach of a later notification exactly when
the waits and the notifications alternate. -/
theorem correct_iff {es : List (ConditionLabel F)} (run : Lib.Run Step {} es s) :
    Correct es ↔ Alternates es :=
  ⟨alternates_of_correct run, correct_of_alternates⟩

/-- A function waits, is woken, waits for an event, and returns. -/
def waitThenSuspend : List (ConditionLabel Nat) :=
  [.loop (.addTask 1), .loop .look, .wait, .notify, .loop .look, .loop .suspend]

theorem waitThenSuspend_correct :
    (∃ s, Lib.Run Step {} waitThenSuspend s) ∧ Alternates waitThenSuspend ∧
      Correct waitThenSuspend := by
  have runs : (Lib.exec step ({} : CoroutineCondition Nat) waitThenSuspend).isSome = true := by
    decide
  have run := Lib.run_of_exec (Lib.exec_get runs)
  have alternates : Alternates waitThenSuspend := by decide
  exact ⟨⟨_, run⟩, alternates, (correct_iff run).mpr alternates⟩

/-- Two functions wait. -/
def twoWaits : List (ConditionLabel Nat) :=
  [.loop (.addTask 1), .loop (.addTask 2), .loop .look, .wait, .loop .look, .wait]

/-- A second notification queues a coroutine that waits for an event; a second coroutine
that waits puts the first out of reach. -/
theorem not_always_correct :
    (∃ s t, Lib.Run Step {} waitThenSuspend s ∧ Lib.Run Step s [.notify] t ∧
      s.slot = some 1 ∧ s.inWait 1 = false ∧ s.loop.waiting 1 = true ∧ 1 ∈ t.loop.queuedCos) ∧
    ¬Correct (waitThenSuspend ++ [.notify]) ∧
    (∃ s, Lib.Run Step {} twoWaits s ∧ s.inWait 1 = true ∧ s.slot = some 2 ∧
      s.loop.queuedCos = []) ∧
    ¬Correct twoWaits := by
  have notified : ((Lib.exec step ({} : CoroutineCondition Nat) waitThenSuspend).bind fun s =>
      (Lib.exec step s [.notify]).map fun t =>
        (s.slot, s.inWait 1, s.loop.waiting 1, t.loop.queuedCos)) =
      some (some 1, false, true, [1]) := by
    decide
  obtain ⟨s, ran, rest⟩ := Option.bind_eq_some_iff.mp notified
  obtain ⟨t, ran', found⟩ := Option.map_eq_some_iff.mp rest
  simp only [Prod.mk.injEq] at found
  obtain ⟨slot, not_in_wait, waiting, queued⟩ := found
  have waited : (Lib.exec step ({} : CoroutineCondition Nat) twoWaits).map
      (fun s => (s.inWait 1, s.slot, s.loop.queuedCos)) = some (true, some 2, []) := by
    decide
  obtain ⟨u, ran'', found⟩ := Option.map_eq_some_iff.mp waited
  simp only [Prod.mk.injEq] at found
  have run := Lib.run_of_exec ran
  have run' := Lib.run_of_exec ran'
  have run'' := Lib.run_of_exec ran''
  refine ⟨⟨s, t, run, run', slot, not_in_wait, waiting, ?_⟩, fun correct => ?_,
    ⟨u, run'', found⟩, fun correct => ?_⟩
  · rw [queued]
    exact List.mem_cons_self
  · exact absurd (alternates_of_correct (run.append run') correct) (by decide)
  · exact absurd (alternates_of_correct run'' correct) (by decide)

end CoroutineCondition

end Reyao
