import Reyao.SchedulerJoin
import Reyao.SchedulerTasks
import Reyao.WorkerEnd

/-!
# The whole scheduler (`scheduler.h`, `scheduler.cc`, `worker.cc`)

`SchedulerTasks` says where tasks go, `WorkerRun` what a worker does with its queue, and
`SchedulerJoin` when the threads of the workers end. Here every worker of a scheduler has
its whole loop: `addTask` fills the queue of a loop, the idle coroutine of a worker returns
when `canStop` holds of what it reads, and the thread of a worker ends with its `run`. Each of
the three models is what one sees of this one when one looks at the queues, at one worker, or
at the threads. As in `SchedulerTasks`, calls of `addTask(cf)` are made one at a time, and as
in `SchedulerJoin`, a thread that joins itself goes on at once.
-/

namespace Reyao

open Lib

inductive RunLabel (F : Type) : Type
  /-- A step of the threads that start, stop and join. -/
  | join (e : JoinLabel)
  | addTask (cf : Option F) (t : Int) (r : TaskResult)
  /-- `Worker::addTask`, called on the worker itself. -/
  | workerTask (w : WorkerId) (cf : Option F)
  | loop (w : WorkerId) (e : LoopLabel F)
  deriving DecidableEq

structure SchedulerRun (F : Type) : Type where
  join : SchedulerJoin
  /-- `id_` of the worker threads. -/
  id : Nat → Int := fun _ => 0
  workerMap : Int → Option WorkerId
  index : Nat := 0
  loops : WorkerId → WorkerLoop F := fun _ => {}

namespace SchedulerRun

variable {F : Type}

/-- `Scheduler(thread_num)`, made on the thread `creator`. -/
def new (creator : Int) (thread_num : Nat) : SchedulerRun F where
  join := SchedulerJoin.new thread_num
  workerMap := Function.update (fun _ => none) creator (some .main)

/-- What one sees of the queues. -/
def routes (s : SchedulerRun F) : SchedulerTasks F where
  base := s.join.base
  id := s.id
  workerMap := s.workerMap
  index := s.index
  tasks w := (s.loops w).queuedFuncs
  started w := (s.loops w).started

def setLoop (s : SchedulerRun F) (w : WorkerId) (loop : WorkerLoop F) : SchedulerRun F :=
  { s with loops := Function.update s.loops w loop }

/-- `Worker::addTask`, which does not queue an empty function. -/
def push (s : SchedulerRun F) (w : WorkerId) : Option F → SchedulerRun F
  | some f => s.setLoop w { s.loops w with tasks := (s.loops w).tasks ++ [.func f] }
  | none => s

/-- The task goes to the worker that was found, if any. -/
def give (s : SchedulerRun F) (cf : Option F) : TaskResult → SchedulerRun F
  | .queued worker => s.push worker cf
  | _ => s

def addTask (s : SchedulerRun F) (cf : Option F) (t : Int) : TaskResult × SchedulerRun F :=
  let found := s.join.base.route s.workerMap s.index t
  (found.1, give { s with index := found.2 } cf found.1)

/-- What a step of the loop of `w` needs of the rest. -/
def Allows (s : SchedulerRun F) (w : WorkerId) : LoopLabel F → Prop
  -- functions come through `addTask` and `workerTask`
  | .addTask _ => False
  -- `canStop` with no timer left
  | .idleReturns => s.join.base.canStop w (!(s.loops w).tasks.isEmpty) (-1) = true
  | _ => True

instance (s : SchedulerRun F) (w : WorkerId) : (e : LoopLabel F) → Decidable (s.Allows w e)
  | .addTask _ => inferInstanceAs (Decidable False)
  | .idleReturns => inferInstanceAs (Decidable (_ = _))
  | .arrive _ => inferInstanceAs (Decidable True)
  | .look => inferInstanceAs (Decidable True)
  | .suspend => inferInstanceAs (Decidable True)
  | .returns => inferInstanceAs (Decidable True)
  | .throws => inferInstanceAs (Decidable True)
  | .idleYields => inferInstanceAs (Decidable True)

/-- A step of the loop of `w`, whose thread ends with it. -/
def loopStep (c : StopCaller) (s : SchedulerRun F) (w : WorkerId) (e : LoopLabel F) :
    Option (SchedulerRun F) :=
  if s.join.base.runPc w = .running ∧ s.Allows w e then
    match (s.loops w).next e with
    | none => none
    | some loop =>
        if loop.pc = .ended ∧ (s.loops w).pc = .look then
          -- the thread that is in `stop` cannot end
          if c.worker = some w → s.join.stopPc = .returned then
            some { s.setLoop w loop with
              join := { s.join with ended := Function.update s.join.ended w true } }
          else none
        else some (s.setLoop w loop)
  else none

def step (tid : Nat → Int) (c : StopCaller) (s : SchedulerRun F) :
    RunLabel F → Option (SchedulerRun F)
  | .join (.boot f) => (s.join.step c (.boot f)).map fun join =>
      { s with
        join := join, id := SchedulerTasks.setId tid s.id f, workerMap := s.routes.setWorker f }
  -- a thread ends with the loop of its worker
  | .join (.leave ..) => none
  | .join e => (s.join.step c e).map fun join => { s with join := join }
  | .addTask cf t r => if (s.addTask cf t).1 = r then some (s.addTask cf t).2 else none
  | .workerTask w cf => some (s.push w cf)
  | .loop w e => s.loopStep c w e

/-! ## The ways a step can go -/

inductive Goes (tid : Nat → Int) (c : StopCaller) (s : SchedulerRun F) :
    RunLabel F → SchedulerRun F → Prop
  | boot {f : SchedulerLabel} {b : Scheduler} : s.join.base.step f = some b →
      Goes tid c s (.join (.boot f)) { s with
        join := { s.join with base := b }, id := SchedulerTasks.setId tid s.id f
        workerMap := s.routes.setWorker f }
  | join {e : JoinLabel} {j : SchedulerJoin} : (∀ f, e ≠ .boot f) → s.join.step c e = some j →
      j.base = s.join.base → j.ended = s.join.ended → Goes tid c s (.join e) { s with join := j }
  | addTask {cf : Option F} {t : Int} :
      Goes tid c s (.addTask cf t (s.addTask cf t).1) (s.addTask cf t).2
  | workerTask {w : WorkerId} {cf : Option F} : Goes tid c s (.workerTask w cf) (s.push w cf)
  | loop {w : WorkerId} {e : LoopLabel F} {loop : WorkerLoop F} :
      s.join.base.runPc w = .running → s.Allows w e → (s.loops w).Step e loop →
      ¬(loop.pc = .ended ∧ (s.loops w).pc = .look) → Goes tid c s (.loop w e) (s.setLoop w loop)
  | leave {w : WorkerId} {e : LoopLabel F} {loop : WorkerLoop F} :
      s.join.base.runPc w = .running → (s.loops w).Step e loop → loop.pc = .ended →
      (s.loops w).pc = .look → (c.worker = some w → s.join.stopPc = .returned) →
      Goes tid c s (.loop w e) { s.setLoop w loop with
        join := { s.join with ended := Function.update s.join.ended w true } }

variable {tid : Nat → Int} {c : StopCaller} {s s' : SchedulerRun F} {e : RunLabel F}

/-- The joining leaves alone what the workers do. -/
theorem join_leaves {j j' : SchedulerJoin} {e : JoinLabel} (ran : j.step c e = some j')
    (no_boot : ∀ f, e ≠ .boot f) (no_leave : ∀ w has_task timeout, e ≠ .leave w has_task timeout) :
    j'.base = j.base ∧ j'.ended = j.ended := by
  cases SchedulerJoin.goes_of_step ran with
  | boot => exact absurd rfl (no_boot _)
  | leave => exact absurd rfl (no_leave _ _ _)
  | _ => exact ⟨rfl, rfl⟩

theorem goes_of_step (ran : s.step tid c e = some s') : Goes tid c s e s' := by
  cases e with
  | join e =>
      cases e with
      | boot f =>
          obtain ⟨j, joined, rfl⟩ := Option.map_eq_some_iff.mp ran
          obtain ⟨b, base, rfl⟩ := Option.map_eq_some_iff.mp joined
          exact .boot base
      | leave => cases ran
      | _ =>
          obtain ⟨j, joined, rfl⟩ := Option.map_eq_some_iff.mp ran
          obtain ⟨base, ended⟩ := join_leaves joined nofun nofun
          exact .join nofun joined base ended
  | addTask cf t r =>
      simp only [step] at ran
      split at ran
      · rename_i result
        cases ran
        exact result ▸ .addTask
      · cases ran
  | workerTask w cf =>
      cases ran
      exact .workerTask
  | loop w e =>
      simp only [step, loopStep] at ran
      split at ran
      · rename_i there
        split at ran
        · cases ran
        · rename_i loop stepped
          split at ran
          · rename_i over_
            split at ran
            · rename_i free
              cases ran
              exact .leave there.1 (WorkerLoop.step_of_next stepped) over_.1 over_.2 free
            · cases ran
          · rename_i goes_on
            cases ran
            exact .loop there.1 there.2 (WorkerLoop.step_of_next stepped) goes_on
      · cases ran

/-! ## A worker that has been told to stop stays so -/

/-- Threads that `init` has not come to. -/
structure Unborn (b : Scheduler) : Prop where
  main : b.initLatch = false → b.runPc .main = .absent
  later : ∀ i, b.threads.length ≤ i → b.initPc ≠ .starting i → b.runPc (.thread i) = .absent

section

variable {b b' : Scheduler} {f : SchedulerLabel}

theorem unborn_new (thread_num : Nat) : Unborn (Scheduler.new thread_num) := by
  unfold Scheduler.new
  split
  · exact ⟨fun _ => rfl, fun _ _ _ => rfl⟩
  · exact ⟨fun _ => rfl, fun _ _ _ => rfl⟩

theorem length_loop (boot : b.Boot) {i : Nat} (here : b.initPc = .loop i) :
    b.threads.length = i := by
  rw [(boot.at here).1.2.1, List.length_map, List.length_range]

theorem Unborn.step (unborn : Unborn b) (boot : b.Boot) (ran : b.step f = some b') : Unborn b' := by
  have elsewhere : ∀ {w w' : WorkerId} {pc : RunPc}, w' ≠ w → b.runPc w' = .absent →
      Function.update b.runPc w pc w' = .absent := fun other absent =>
    (Function.update_of_ne other _ _).trans absent
  have moved : ∀ {t : Scheduler} {w : WorkerId} {pc : RunPc}, b.runPc w ≠ .absent →
      t.runPc = Function.update b.runPc w pc → t.initLatch = b.initLatch → t.threads = b.threads →
      t.initPc = b.initPc → Unborn t := by
    intro t w pc present runPc latch threads initPc
    have other : ∀ w', b.runPc w' = .absent → w' ≠ w := by
      intro w' absent same
      exact present (same ▸ absent)
    refine ⟨fun unlatched => ?_, fun i past later => ?_⟩
    · rw [latch] at unlatched
      have absent := unborn.main unlatched
      rw [runPc]
      exact elsewhere (other _ absent) absent
    · rw [threads] at past
      rw [initPc] at later
      have absent := unborn.later i past later
      rw [runPc]
      exact elsewhere (other _ absent) absent
  have latest : ∀ {pc : InitPc}, b.initPc = pc → (∀ i, pc ≠ .starting i) →
      ∀ i, b.threads.length ≤ i → b.runPc (.thread i) = .absent := by
    intro pc here other i past
    rw [← here] at other
    exact unborn.later i past (other i)
  cases Scheduler.goes_of_step ran with
  | @startThread i here =>
      have size := length_loop boot here
      refine ⟨fun latch => ?_, fun j past other => ?_⟩
      · have apart : WorkerId.main ≠ .thread i := WorkerId.noConfusion
        dsimp only
        exact elsewhere apart (unborn.main latch)
      · have apart : WorkerId.thread j ≠ .thread i := by
          intro same
          exact other (congrArg InitPc.starting (WorkerId.thread.inj same).symm)
        dsimp only
        refine elsewhere apart (unborn.later j past ?_)
        rw [here]
        exact InitPc.noConfusion
  | @threadEnters i created =>
      have present : b.runPc (.thread i) ≠ .absent := by
        rw [created]
        exact RunPc.noConfusion
      exact moved present rfl rfl rfl rfl
  | @threadStarted i here =>
      have size := SchedulerTasks.length_starting boot here
      refine ⟨unborn.main, fun j past _ => unborn.later j ?_ ?_⟩
      · rw [List.length_append, List.length_singleton] at past
        omega
      · rw [List.length_append, List.length_singleton, size] at past
        rw [here]
        intro same
        cases same
        omega
  | countDown here =>
      refine ⟨fun latch => Bool.noConfusion latch, fun j past _ => ?_⟩
      have apart : WorkerId.thread j ≠ .main := WorkerId.noConfusion
      dsimp only
      exact elsewhere apart (latest here (fun _ => InitPc.noConfusion) j past)
  | @run w entered =>
      have present : b.runPc w ≠ .absent := by
        rw [entered]
        exact RunPc.noConfusion
      exact moved present rfl rfl rfl rfl
  | startAsync out =>
      have later := latest (boot.fresh out) fun _ => InitPc.noConfusion
      exact ⟨unborn.main, fun j past _ => later j past⟩
  | initReturns created =>
      have later := latest created fun _ => InitPc.noConfusion
      exact ⟨unborn.main, fun j past _ => later j past⟩
  | initEnters created =>
      have later := latest created fun _ => InitPc.noConfusion
      exact ⟨unborn.main, fun j past _ => later j past⟩
  | setRunning here =>
      have later := latest here fun _ => InitPc.noConfusion
      exact ⟨unborn.main, fun j past _ => later j past⟩
  | _ => exact ⟨unborn.main, unborn.later⟩

/-- `running_` of a worker is set once, at the beginning of its `run`. -/
theorem told_stays (unborn : Unborn b) (boot : b.Boot) {w : WorkerId}
    (running : b.runPc w = .running) (told : b.workerRunning w = false)
    (ran : b.step f = some b') : b'.runPc w = .running ∧ b'.workerRunning w = false := by
  have moved : ∀ {t : Scheduler} {w' : WorkerId} {pc : RunPc}, b.runPc w' ≠ .running →
      t.runPc = Function.update b.runPc w' pc → t.runPc w = .running := by
    intro t w' pc before runPc
    have other : w ≠ w' := by
      intro same
      exact before (same ▸ running)
    rw [runPc, Function.update_of_ne other]
    exact running
  cases Scheduler.goes_of_step ran with
  | @startThread i here =>
      have before : b.initPc ≠ .starting i := by
        rw [here]
        exact InitPc.noConfusion
      refine ⟨moved ?_ rfl, told⟩
      rw [unborn.later i (Nat.le_of_eq (length_loop boot here)) before]
      exact RunPc.noConfusion
  | threadEnters created =>
      refine ⟨moved ?_ rfl, told⟩
      rw [created]
      exact RunPc.noConfusion
  | countDown here =>
      refine ⟨moved ?_ rfl, told⟩
      rw [unborn.main (boot.at here).2]
      exact RunPc.noConfusion
  | @run w' entered =>
      have before : b.runPc w' ≠ .running := by
        rw [entered]
        exact RunPc.noConfusion
      have other : w ≠ w' := by
        intro same
        exact before (same ▸ running)
      exact ⟨moved before rfl, (Function.update_of_ne other _ _).trans told⟩
  | @stopNext w' rest =>
      refine ⟨running, ?_⟩
      rcases eq_or_ne w w' with rfl | other
      · exact Function.update_self _ _ _
      · exact (Function.update_of_ne other _ _).trans told
  | _ => exact ⟨running, told⟩

end

/-! ## What every run keeps -/

@[simp] theorem push_join (s : SchedulerRun F) (w : WorkerId) (cf : Option F) :
    (s.push w cf).join = s.join := by cases cf <;> rfl

@[simp] theorem loops_setLoop_self (s : SchedulerRun F) (w : WorkerId) (loop : WorkerLoop F) :
    (s.setLoop w loop).loops w = loop := Function.update_self _ _ _

theorem loops_setLoop_of_ne (s : SchedulerRun F) {w w' : WorkerId} (other : w' ≠ w)
    (loop : WorkerLoop F) : (s.setLoop w loop).loops w' = s.loops w' :=
  Function.update_of_ne other _ _

/-- A worker gets a function, or nothing. -/
theorem loops_push (s : SchedulerRun F) (w w' : WorkerId) (cf : Option F) :
    (s.push w cf).loops w' = { s.loops w' with
      tasks := (s.loops w').tasks ++ if w = w' then cf.toList.map .func else [] } := by
  cases cf with
  | none =>
      rw [Option.toList_none, List.map_nil, ite_self, List.append_nil]
      rfl
  | some f =>
      unfold push
      rcases eq_or_ne w w' with rfl | other
      · rw [loops_setLoop_self, if_pos rfl]
        rfl
      · rw [loops_setLoop_of_ne s other.symm, if_neg other, List.append_nil]

/-- What every run keeps. -/
structure Sound (c : StopCaller) (s : SchedulerRun F) : Prop where
  joining : SchedulerJoin.Joining c s.join
  unborn : Unborn s.join.base
  orderly : ∀ w, (s.loops w).Orderly
  /-- Whose idle coroutine is done has been told to stop. -/
  told : ∀ w, (s.loops w).state 0 = .DONE →
    s.join.base.runPc w = .running ∧ s.join.base.workerRunning w = false
  ended : ∀ w, s.join.ended w = true ↔ (s.loops w).pc = .ended

theorem sound_new {creator : Int} {thread_num : Nat} (positive : 1 ≤ thread_num) :
    Sound c (new (F := F) creator thread_num) where
  joining := SchedulerJoin.joining_new positive
  unborn := unborn_new thread_num
  orderly _ := WorkerLoop.orderly_start
  told _ := CoState.noConfusion
  ended _ := iff_of_false Bool.noConfusion LoopPc.noConfusion

theorem Orderly.push {loop : WorkerLoop F} (orderly : loop.Orderly) (fs : List F) :
    ({ loop with tasks := loop.tasks ++ fs.map .func } : WorkerLoop F).Orderly := by
  induction fs generalizing loop with
  | nil =>
      rw [List.map_nil, List.append_nil]
      exact orderly
  | cons f fs ih =>
      obtain ⟨next, ran, orderly', -⟩ := WorkerLoop.step_orderly (e := .addTask f) orderly trivial
      cases ran
      have later := ih orderly'
      rwa [List.append_assoc] at later

theorem Sound.push (sound : Sound c s) (w : WorkerId) (cf : Option F) : Sound c (s.push w cf) := by
  have same : ∀ w', ((s.push w cf).loops w').cos = (s.loops w').cos ∧
      ((s.push w cf).loops w').pc = (s.loops w').pc := by
    intro w'
    rw [loops_push]
    exact ⟨rfl, rfl⟩
  refine ⟨by rw [push_join]; exact sound.joining, by rw [push_join]; exact sound.unborn,
    fun w' => ?_, fun w' done => ?_, fun w' => ?_⟩
  · rw [loops_push]
    split
    · exact Orderly.push (sound.orderly w') _
    · rw [List.append_nil]
      exact sound.orderly w'
  · unfold WorkerLoop.state at done
    rw [(same w').1] at done
    rw [push_join]
    exact sound.told w' done
  · rw [push_join, (same w').2]
    exact sound.ended w'

theorem Sound.give (sound : Sound c s) (cf : Option F) (r : TaskResult) :
    Sound c (s.give cf r) := by
  cases r with
  | queued w => exact sound.push w cf
  | invalid => exact sound
  | outOfRange => exact sound

theorem Sound.orderly_setLoop (sound : Sound c s) {w : WorkerId} {f : LoopLabel F}
    {loop : WorkerLoop F} (stepped : (s.loops w).Step f loop) (w' : WorkerId) :
    ((s.setLoop w loop).loops w').Orderly := by
  obtain ⟨t, ran, orderly, -⟩ := WorkerLoop.step_orderly (sound.orderly w) stepped.1
  cases stepped.2.symm.trans ran
  rcases eq_or_ne w' w with rfl | other
  · rwa [loops_setLoop_self]
  · rw [loops_setLoop_of_ne s other]
    exact sound.orderly w'

theorem Sound.setLoop (sound : Sound c s) {w : WorkerId} {f : LoopLabel F} {loop : WorkerLoop F}
    (running : s.join.base.runPc w = .running) (allows : s.Allows w f)
    (stepped : (s.loops w).Step f loop)
    (goes_on : ¬(loop.pc = .ended ∧ (s.loops w).pc = .look)) : Sound c (s.setLoop w loop) := by
  have orderly := sound.orderly w
  have goes := WorkerLoop.goes_of_step orderly stepped
  refine ⟨sound.joining, sound.unborn, sound.orderly_setLoop stepped, fun w' done => ?_,
    fun w' => ?_⟩
  · rcases eq_or_ne w' w with rfl | other
    · rw [loops_setLoop_self] at done
      rcases goes.idle_done orderly done with before | rfl
      · exact sound.told w' before
      · have stops : s.join.base.canStop w' (!(s.loops w').tasks.isEmpty) (-1) = true := allows
        unfold Scheduler.canStop at stops
        rw [Bool.and_eq_true, Bool.and_eq_true, Bool.not_eq_true'] at stops
        exact ⟨running, stops.1.1⟩
    · rw [loops_setLoop_of_ne s other] at done
      exact sound.told w' done
  · rcases eq_or_ne w' w with rfl | other
    · rw [loops_setLoop_self]
      refine (sound.ended w').trans ⟨goes.ended_stays orderly, fun over_ => ?_⟩
      refine (goes.ended_from over_).resolve_right fun left => ?_
      exact goes_on ⟨over_, left.1⟩
    · rw [loops_setLoop_of_ne s other]
      exact sound.ended w'

/-- The end of the thread of `w`. -/
theorem leave_step (sound : Sound c s) {w : WorkerId} {f : LoopLabel F} {loop : WorkerLoop F}
    (running : s.join.base.runPc w = .running) (stepped : (s.loops w).Step f loop)
    (over_ : loop.pc = .ended) (here : (s.loops w).pc = .look)
    (free : c.worker = some w → s.join.stopPc = .returned) :
    s.join.step c (.leave w false (-1)) =
      some { s.join with ended := Function.update s.join.ended w true } := by
  have goes := WorkerLoop.goes_of_step (sound.orderly w) stepped
  obtain ⟨left, -, done⟩ := goes.last_look over_ here
  have halted : s.join.base.canStop w false (-1) = true := by
    unfold Scheduler.canStop
    rw [(sound.told w done).2]
    rfl
  have there : s.join.ended w = false :=
    Bool.eq_false_iff.mpr fun ended => left ((sound.ended w).mp ended)
  simp only [SchedulerJoin.step]
  exact if_pos ⟨running, there, halted, free⟩

theorem Sound.leave (sound : Sound c s) {w : WorkerId} {f : LoopLabel F} {loop : WorkerLoop F}
    (running : s.join.base.runPc w = .running) (stepped : (s.loops w).Step f loop)
    (over_ : loop.pc = .ended) (here : (s.loops w).pc = .look)
    (free : c.worker = some w → s.join.stopPc = .returned) :
    Sound c { s.setLoop w loop with
      join := { s.join with ended := Function.update s.join.ended w true } } := by
  have goes := WorkerLoop.goes_of_step (sound.orderly w) stepped
  refine ⟨sound.joining.step (leave_step sound running stepped over_ here free), sound.unborn,
    sound.orderly_setLoop stepped, fun w' done => ?_, fun w' => ?_⟩
  · dsimp only at done
    rcases eq_or_ne w' w with rfl | other
    · obtain ⟨-, -, before⟩ := goes.last_look over_ here
      exact sound.told w' before
    · rw [loops_setLoop_of_ne s other] at done
      exact sound.told w' done
  · dsimp only
    rcases eq_or_ne w' w with rfl | other
    · rw [loops_setLoop_self, Function.update_self]
      exact iff_of_true rfl over_
    · rw [loops_setLoop_of_ne s other, Function.update_of_ne other]
      exact sound.ended w'

theorem Sound.boot (sound : Sound c s) {f : SchedulerLabel} {b : Scheduler}
    (ran : s.join.base.step f = some b) (id : Nat → Int) (workerMap : Int → Option WorkerId) :
    Sound c { s with join := { s.join with base := b }, id := id, workerMap := workerMap } := by
  have joined : s.join.step c (.boot f) = some { s.join with base := b } :=
    Option.map_eq_some_iff.mpr ⟨b, ran, rfl⟩
  refine ⟨sound.joining.step joined, sound.unborn.step sound.joining.boot ran, sound.orderly,
    fun w done => ?_, sound.ended⟩
  obtain ⟨running, told⟩ := sound.told w done
  exact told_stays sound.unborn sound.joining.boot running told ran

theorem Sound.step (sound : Sound c s) (goes : Goes tid c s e s') : Sound c s' := by
  cases goes with
  | boot ran => exact sound.boot ran _ _
  | @join e j _ ran base ended =>
      refine ⟨sound.joining.step ran, ?_, sound.orderly, fun w done => ?_, fun w => ?_⟩
      · dsimp only
        rw [base]
        exact sound.unborn
      · dsimp only at done ⊢
        rw [base]
        exact sound.told w done
      · dsimp only
        rw [ended]
        exact sound.ended w
  | @addTask cf t =>
      have indexed : Sound c { s with index := (s.join.base.route s.workerMap s.index t).2 } :=
        ⟨sound.joining, sound.unborn, sound.orderly, sound.told, sound.ended⟩
      exact indexed.give cf _
  | workerTask => exact sound.push _ _
  | loop running allows stepped goes_on => exact sound.setLoop running allows stepped goes_on
  | leave running stepped over_ here free => exact sound.leave running stepped over_ here free

/-! ## The queues -/

/-- What a step of the whole is to those who look at the queues. -/
def task? : RunLabel F → Option (TaskLabel F)
  | .join (.boot f) => some (.boot f)
  | .addTask cf t r => some (.addTask cf t r)
  | .workerTask w cf => some (.workerTask w cf)
  | _ => none

/-- All but what the workers themselves do. -/
def given? {τ : Type} : TaskLabel τ → Option (TaskLabel τ)
  | .take _ => none
  | e => some e

theorem routes_setLoop (s : SchedulerRun F) (w : WorkerId) (loop : WorkerLoop F) :
    (s.setLoop w loop).routes = { s.routes with
      tasks := Function.update s.routes.tasks w loop.queuedFuncs
      started := Function.update s.routes.started w loop.started } := by
  have tasks := Function.comp_update WorkerLoop.queuedFuncs s.loops w loop
  have started := Function.comp_update WorkerLoop.started s.loops w loop
  unfold routes setLoop
  exact congrArg₂ (fun tasks started => (⟨s.join.base, s.id, s.workerMap, s.index, tasks, started⟩ :
    SchedulerTasks F)) tasks started

theorem routes_push (s : SchedulerRun F) (w : WorkerId) (cf : Option F) :
    (s.push w cf).routes = s.routes.push w cf := by
  cases cf with
  | none => rfl
  | some f =>
      have queued := WorkerLoop.queuedFuncs_func (s.loops w) f
      have same : Function.update s.routes.started w (s.loops w).started = s.routes.started :=
        Function.update_eq_self w s.routes.started
      unfold push
      rw [routes_setLoop]
      unfold WorkerLoop.queuedFuncs
      dsimp only
      rw [queued, same]
      rfl

theorem routes_give (s : SchedulerRun F) (cf : Option F) (r : TaskResult) :
    (s.give cf r).routes = s.routes.give cf r := by
  cases r with
  | queued w => exact s.routes_push w cf
  | invalid => rfl
  | outOfRange => rfl

theorem routes_addTask (s : SchedulerRun F) (cf : Option F) (t : Int) :
    s.routes.addTask cf t = ((s.addTask cf t).1, (s.addTask cf t).2.routes) :=
  congrArg (Prod.mk _)
    (routes_give { s with index := (s.join.base.route s.workerMap s.index t).2 } cf _).symm

/-- A step of the loop of `w` takes a function or nothing off its queue. -/
theorem routes_loop (sound : Sound c s) {w : WorkerId} {f : LoopLabel F} {loop : WorkerLoop F}
    (running : s.join.base.runPc w = .running) (stepped : (s.loops w).Step f loop)
    (no_queue : f.queues = []) :
    ∃ fs, Run (Steps (SchedulerTasks.step tid)) s.routes fs (s.setLoop w loop).routes ∧
      fs.filterMap given? = [] := by
  have goes := WorkerLoop.goes_of_step (sound.orderly w) stepped
  rw [routes_setLoop]
  rcases goes.funcs with ⟨queued, started⟩ | ⟨g, rest, queued, left, started, -⟩
  · rw [no_queue, List.append_nil] at queued
    have same_tasks : Function.update s.routes.tasks w (s.loops w).queuedFuncs = s.routes.tasks :=
      Function.update_eq_self w s.routes.tasks
    have same_started : Function.update s.routes.started w (s.loops w).started = s.routes.started :=
      Function.update_eq_self w s.routes.started
    rw [queued, started, same_tasks, same_started]
    exact ⟨[], .nil _, rfl⟩
  · refine ⟨[.take w], .single ?_, rfl⟩
    have tasks : s.routes.tasks w = g :: rest := queued
    have there : s.routes.base.runPc w = .running := running
    unfold Steps
    simp only [SchedulerTasks.step]
    rw [if_pos there, tasks, left, started]
    rfl

theorem allows_queues {w : WorkerId} {f : LoopLabel F} (allows : s.Allows w f) : f.queues = [] := by
  cases f with
  | addTask => exact allows.elim
  | _ => rfl

theorem routes_step (sound : Sound c s) (goes : Goes tid c s e s') :
    ∃ fs, Run (Steps (SchedulerTasks.step tid)) s.routes fs s'.routes ∧
      fs.filterMap given? = (task? e).toList := by
  cases goes with
  | @boot f b ran =>
      exact ⟨[.boot f], .single (Option.map_eq_some_iff.mpr ⟨b, ran, rfl⟩), rfl⟩
  | @join e j no_boot _ base =>
      have nothing : task? (.join e : RunLabel F) = none := by
        cases e with
        | boot f => exact absurd rfl (no_boot f)
        | _ => rfl
      have same : ({ s with join := j } : SchedulerRun F).routes = s.routes := by
        unfold routes
        dsimp only
        rw [base]
      rw [nothing, same]
      exact ⟨[], .nil _, rfl⟩
  | @addTask cf t =>
      refine ⟨[.addTask cf t (s.addTask cf t).1], .single ?_, rfl⟩
      unfold Steps SchedulerTasks.step
      dsimp only
      rw [routes_addTask, if_pos rfl]
  | @workerTask w cf =>
      refine ⟨[.workerTask w cf], .single ?_, rfl⟩
      unfold Steps SchedulerTasks.step
      dsimp only
      rw [routes_push]
  | loop running allows stepped => exact routes_loop sound running stepped (allows_queues allows)
  | @leave w f loop running stepped over_ here =>
      have going := WorkerLoop.goes_of_step (sound.orderly w) stepped
      obtain ⟨-, rfl, -⟩ := going.last_look over_ here
      exact routes_loop sound running stepped rfl

/-! ## One worker -/

/-- What a step of the whole is to the worker `w`. -/
def loop? (w : WorkerId) : RunLabel F → Option (LoopLabel F)
  | .loop w' e => if w' = w then some e else none
  | .addTask cf _ (.queued w') => if w' = w then cf.map .addTask else none
  | .workerTask w' cf => if w' = w then cf.map .addTask else none
  | _ => none

/-- A function is queued for `w`, or for another worker. -/
theorem loop_push (s : SchedulerRun F) (w w' : WorkerId) (cf : Option F) :
    ∃ fs, Run WorkerLoop.Step (s.loops w') fs ((s.push w cf).loops w') ∧
      fs.filterMap some = (if w = w' then cf.map .addTask else none).toList := by
  rw [loops_push]
  split
  · cases cf with
    | none =>
        refine ⟨[], ?_, rfl⟩
        rw [Option.toList_none, List.map_nil, List.append_nil]
        exact .nil _
    | some f => exact ⟨[.addTask f], .single ⟨trivial, rfl⟩, rfl⟩
  · rw [List.append_nil]
    exact ⟨[], .nil _, rfl⟩

theorem loop_give (s : SchedulerRun F) (cf : Option F) (t : Int) (r : TaskResult) (w : WorkerId) :
    ∃ fs, Run WorkerLoop.Step (s.loops w) fs ((s.give cf r).loops w) ∧
      fs.filterMap some = (loop? w (.addTask cf t r)).toList := by
  cases r with
  | queued w' => exact loop_push s w' w cf
  | invalid => exact ⟨[], .nil _, rfl⟩
  | outOfRange => exact ⟨[], .nil _, rfl⟩

theorem loop_setLoop (s : SchedulerRun F) {w w' : WorkerId} {f : LoopLabel F} {loop : WorkerLoop F}
    (stepped : (s.loops w).Step f loop) :
    ∃ fs, Run WorkerLoop.Step (s.loops w') fs ((s.setLoop w loop).loops w') ∧
      fs.filterMap some = (loop? w' (.loop w f)).toList := by
  unfold loop?
  dsimp only
  rcases eq_or_ne w w' with rfl | other
  · rw [if_pos rfl, loops_setLoop_self]
    exact ⟨[f], .single stepped, rfl⟩
  · rw [if_neg other, loops_setLoop_of_ne s other.symm]
    exact ⟨[], .nil _, rfl⟩

theorem loop_step (goes : Goes tid c s e s') (w : WorkerId) :
    ∃ fs, Run WorkerLoop.Step (s.loops w) fs (s'.loops w) ∧
      fs.filterMap some = (loop? w e).toList := by
  cases goes with
  | boot => exact ⟨[], .nil _, rfl⟩
  | join => exact ⟨[], .nil _, rfl⟩
  | @addTask cf t =>
      exact loop_give { s with index := (s.join.base.route s.workerMap s.index t).2 } cf t _ w
  | workerTask => exact loop_push s _ w _
  | loop _ _ stepped => exact loop_setLoop s stepped
  | leave _ stepped => exact loop_setLoop s stepped

/-! ## The threads -/

/-- What a step of the whole is to those who look at the threads. -/
def join? : RunLabel F → Option JoinLabel
  | .join e => some e
  | _ => none

/-- All but what the workers themselves do. -/
def joined? : JoinLabel → Option JoinLabel
  | .leave .. => none
  | e => some e

theorem join_give (s : SchedulerRun F) (cf : Option F) (r : TaskResult) :
    ∃ fs, Run (Steps (SchedulerJoin.step c)) s.join fs (s.give cf r).join ∧
      fs.filterMap joined? = [] := by
  have same : (s.give cf r).join = s.join := by
    cases r with
    | queued w => exact push_join s w cf
    | invalid => rfl
    | outOfRange => rfl
  rw [same]
  exact ⟨[], .nil _, rfl⟩

theorem join_step (sound : Sound c s) (goes : Goes tid c s e s') :
    ∃ fs, Run (Steps (SchedulerJoin.step c)) s.join fs s'.join ∧
      fs.filterMap joined? = (join? e).toList := by
  cases goes with
  | @boot f b ran => exact ⟨[.boot f], .single (Option.map_eq_some_iff.mpr ⟨b, ran, rfl⟩), rfl⟩
  | @join e j no_boot ran base ended =>
      refine ⟨[e], .single ran, ?_⟩
      cases e with
      | leave w has_task timeout =>
          cases SchedulerJoin.goes_of_step ran with
          | leave _ there =>
              have now := congrFun ended w
              rw [there] at now
              exact absurd ((Function.update_self _ _ _).symm.trans now) Bool.noConfusion
      | _ => rfl
  | @addTask cf t =>
      exact join_give { s with index := (s.join.base.route s.workerMap s.index t).2 } cf _
  | @workerTask w cf => exact join_give s cf (.queued w)
  | loop => exact ⟨[], .nil _, rfl⟩
  | @leave w f loop running stepped over_ here free =>
      exact ⟨[.leave w false (-1)],
        .single (leave_step sound running stepped over_ here free), rfl⟩

/-! ## The three views -/

variable {creator : Int} {thread_num : Nat} {es : List (RunLabel F)}

theorem sound_of_run (positive : 1 ≤ thread_num)
    (run : Run (Steps (step tid c)) (new creator thread_num) es s) : Sound c s :=
  run.invariant (sound_new positive) fun sound ran => sound.step (goes_of_step ran)

theorem loop_run (run : Run (Steps (step tid c)) (new creator thread_num) es s) (w : WorkerId) :
    Run WorkerLoop.Step {} (es.filterMap (loop? w)) (s.loops w) := by
  obtain ⟨-, fs, looped, same⟩ := run.refine (A := WorkerLoop.Step) (v := fun s => s.loops w)
    (I := fun _ => True) (p := loop? w) (q := some) trivial
    fun _ ran => ⟨trivial, loop_step (goes_of_step ran) w⟩
  rw [List.filterMap_some] at same
  exact same ▸ looped

/-- **The whole scheduler refines its three views.** In whatever order threads start, tasks are
added, loops go round with their coroutines, and threads end, a run is a run of the queues, of the
loop of each worker, and of the joining, with the same calls. -/
theorem scheduler_refines (positive : 1 ≤ thread_num)
    (run : Run (Steps (step tid c)) (new creator thread_num) es s) :
    (∃ fs, Run (Steps (SchedulerTasks.step tid)) (.new creator thread_num) fs s.routes ∧
      fs.filterMap given? = es.filterMap task?) ∧
    (∀ w, Run WorkerLoop.Step {} (es.filterMap (loop? w)) (s.loops w)) ∧
    ∃ fs, Run (Steps (SchedulerJoin.step c)) (.new thread_num) fs s.join ∧
      fs.filterMap joined? = es.filterMap join? := by
  have routed := run.refine (A := Steps (SchedulerTasks.step tid)) (v := routes) (I := Sound c)
    (p := task?) (q := given?) (sound_new positive) fun sound ran =>
      ⟨sound.step (goes_of_step ran), routes_step sound (goes_of_step ran)⟩
  have joined := run.refine (A := Steps (SchedulerJoin.step c)) (v := join) (I := Sound c)
    (p := join?) (q := joined?) (sound_new positive) fun sound ran =>
      ⟨sound.step (goes_of_step ran), join_step sound (goes_of_step ran)⟩
  exact ⟨routed.2, loop_run run, joined.2⟩

/-- The functions that have been queued for `w`, in order. -/
def queuedTo (w : WorkerId) (es : List (RunLabel F)) : List F :=
  WorkerLoop.queuedBy (es.filterMap (loop? w))

theorem label_of_loop {w : WorkerId} {f : LoopLabel F} (no_queue : f.queues = [])
    (seen : loop? w e = some f) : e = .loop w f := by
  cases e with
  | loop w' f' =>
      unfold loop? at seen
      dsimp only at seen
      split at seen
      · rename_i same
        cases seen
        rw [same]
      · cases seen
  | join => cases seen
  | addTask cf t r =>
      cases r with
      | queued w' =>
          unfold loop? at seen
          dsimp only at seen
          split at seen
          · obtain ⟨g, -, rfl⟩ := Option.map_eq_some_iff.mp seen
            cases no_queue
          · cases seen
      | invalid => cases seen
      | outOfRange => cases seen
  | workerTask w' cf =>
      unfold loop? at seen
      dsimp only at seen
      split at seen
      · obtain ⟨g, -, rfl⟩ := Option.map_eq_some_iff.mp seen
        cases no_queue
      · cases seen

/-- **A shutdown drains the queues.** When `wait` has returned, every worker (but one whose thread
has called `stop` without hooks) has started just the functions that had been queued for it before
the last round of its loop, in order; those queued later stay in the queue. Of its coroutines
those that have not ended wait for an event, or for a worker that will not come. -/
theorem shutdown_drains (positive : 1 ≤ thread_num)
    (run : Run (Steps (step tid c)) (new creator thread_num) es s)
    (returned : s.join.waiter = .returned) {w : WorkerId} (member : w ∈ s.join.base.all)
    (awaited : ¬c.JoinsItself w) :
    (∃ before after, es = before ++ .loop w .look :: after ∧
      (s.loops w).started = queuedTo w before ∧ (s.loops w).queuedFuncs = queuedTo w after) ∧
    ∀ k, k ≠ 0 → k < (s.loops w).nextId →
      (s.loops w).Ended k ∨ (s.loops w).waiting k = true ∨ k ∈ (s.loops w).queuedCos := by
  have sound := sound_of_run positive run
  have left := (sound.joining.waited returned).2 w member
  have over_ := (sound.ended w).mp (left.resolve_right awaited)
  have lasting := WorkerLoop.lasting_of_run (loop_run run w)
  constructor
  · obtain ⟨before, after, whole, started, left⟩ := lasting.drained over_
    obtain ⟨front, back, rfl, rfl, last⟩ := List.filterMap_eq_append_iff.mp whole
    obtain ⟨skipped, e, later, rfl, nothing, here, rfl⟩ := List.filterMap_eq_cons_iff.mp last
    obtain rfl := label_of_loop rfl here
    refine ⟨front ++ skipped, later, (List.append_assoc _ _ _).symm, ?_, left⟩
    have unseen : skipped.filterMap (loop? w) = [] := List.filterMap_eq_nil_iff.mpr nothing
    unfold queuedTo
    rw [started, List.filterMap_append, unseen, List.append_nil]
  · intro k positive small
    refine (lasting.accounted k positive small).resolve_left fun cur => ?_
    cases cur.symm.trans (lasting.orderly.over over_)

/-- The threads of a scheduler of one thread come up. -/
def upOne : List SchedulerLabel :=
  [.startAsync, .initEnters, .initStarted, .startThread, .threadEnters 0, .threadStarted,
    .setRunning, .countDown, .startReturns, .run .main, .run (.thread 0)]

/-- A function for its main worker, a stop from outside, and the ends of the loops. -/
def downOne : List (RunLabel Nat) :=
  [.addTask (some 5) (-1) (.queued .main), .loop .main .look, .loop .main .returns,
    .join (.boot .stop), .join (.boot .stopNext), .join (.boot .stopNext), .join (.boot .stopNext),
    .loop .main .look, .loop .main .idleReturns, .loop .main .look,
    .addTask (some 6) (-1) (.queued .main),
    .loop (.thread 0) .look, .loop (.thread 0) .idleReturns, .loop (.thread 0) .look,
    .join .wait, .join .stopGoesOn, .join .joinInit, .join .joinNext, .join .joinDone,
    .join .joinReturns, .join .waitReturns]

def shutdownOne : List (RunLabel Nat) := upOne.map (fun f => .join (.boot f)) ++ downOne

/-- Not on the thread of a worker. -/
def outside : StopCaller := ⟨none, false⟩

theorem shutdownOne_leaves : (exec (step SchedulerTasks.tidTen outside) (new 1 1) shutdownOne).map
    (fun s => (s.join.waiter, (s.loops .main).started, s.routes.tasks .main)) =
      some (.returned, [5], [6]) := by
  decide +kernel

theorem scheduler_refines_one : ∃ s : SchedulerRun Nat,
    (∃ fs, Run (Steps (SchedulerTasks.step SchedulerTasks.tidTen)) (.new 1 1) fs s.routes ∧
      fs.filterMap given? = shutdownOne.filterMap task?) ∧
    Run WorkerLoop.Step {} [.addTask 5, .look, .returns, .look, .idleReturns, .look, .addTask 6]
      (s.loops .main) ∧
    ∃ fs, Run (Steps (SchedulerJoin.step outside)) (.new 1) fs s.join ∧
      fs.filterMap joined? = shutdownOne.filterMap join? := by
  obtain ⟨s, ran, -⟩ := Option.map_eq_some_iff.mp shutdownOne_leaves
  obtain ⟨routed, looped, joined⟩ := scheduler_refines (by decide) (run_of_exec ran)
  exact ⟨s, routed, looped .main, joined⟩

theorem shutdown_drains_one : ∃ s : SchedulerRun Nat, s.join.waiter = .returned ∧
    (s.loops .main).started = [5] ∧ ∃ before after,
      shutdownOne = before ++ .loop .main .look :: after ∧
      (s.loops .main).started = queuedTo .main before ∧
      (s.loops .main).queuedFuncs = queuedTo .main after := by
  obtain ⟨s, ran, left⟩ := Option.map_eq_some_iff.mp shutdownOne_leaves
  obtain ⟨returned, started, -⟩ : s.join.waiter = .returned ∧ (s.loops .main).started = [5] ∧
      s.routes.tasks .main = [6] := by
    simpa using left
  obtain ⟨drains, -⟩ := shutdown_drains (by decide) (run_of_exec ran) returned List.mem_cons_self
    fun self => by cases self.1
  exact ⟨s, returned, started, drains⟩

end SchedulerRun

end Reyao
