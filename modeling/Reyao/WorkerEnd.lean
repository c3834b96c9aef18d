import Reyao.WorkerRun

/-!
# Where the coroutines of a worker are (`worker.cc`, `coroutine.cc`)

A coroutine that suspends is held by nothing but the event or the timer it waits for, and
then by the queue. `run` leaves its loop when the idle coroutine has returned and there is
no task; what waits for an event then waits for ever.
-/

namespace Reyao

open Lib

namespace WorkerLoop

variable {F : Type} {s s' : WorkerLoop F} {e : LoopLabel F}

/-! ## The ways a step can go -/

/-- What a step makes of an orderly worker, each with what it was taken under. -/
inductive Goes (s : WorkerLoop F) : LoopLabel F → WorkerLoop F → Prop
  | addTask {f : F} : Goes s (.addTask f) { s with tasks := s.tasks ++ [.func f] }
  | arrive {c : Nat} : s.waiting c = true → Goes s (.arrive c) { s with
      tasks := s.tasks ++ [.co c], waiting := Function.update s.waiting c false }
  | ends : s.pc = .look → s.tasks = [] → s.state 0 = .DONE → Goes s .look { s with pc := .ended }
  | idles : s.pc = .look → s.tasks = [] → Goes s .look { s with
      pc := .inIdle, cos := Function.update s.cos 0 { s.cos 0 with state := .RUNNING }
      cur := some 0 }
  | resumes {c : Nat} {rest : List (Task Nat F)} : s.pc = .look → s.tasks = .co c :: rest →
      s.state c = .SUSPEND → Goes s .look { s with
        pc := .inCo, cos := Function.update s.cos c { s.cos c with state := .RUNNING }
        cur := some c, tasks := rest }
  | reuses {c : Nat} {f : F} {rest : List (Task Nat F)} : s.pc = .look →
      s.tasks = .func f :: rest → s.coFunc = some c → s.Ended c → Goes s .look { s with
        pc := .inFunc, cos := Function.update s.cos c { state := .RUNNING, func := some f }
        cur := some c, tasks := rest, started := s.started ++ [f] }
  | makes {f : F} {rest : List (Task Nat F)} : s.pc = .look → s.tasks = .func f :: rest →
      s.coFunc = none → Goes s .look { s with
        pc := .inFunc
        cos := Function.update s.cos s.nextId { state := .RUNNING, func := some f }
        nextId := s.nextId + 1, coFunc := some s.nextId, cur := some s.nextId, tasks := rest
        started := s.started ++ [f] }
  | suspends {c : Nat} {coFunc : Option Nat} : s.cur = some c → c ≠ 0 → Goes s .suspend { s with
      pc := .look, cos := Function.update s.cos c { s.cos c with state := .SUSPEND }
      cur := none, coFunc := coFunc, waiting := Function.update s.waiting c true }
  | exits {last : LoopLabel F} {c : Nat} {co : CoroutineData F} {coFunc : Option Nat} :
      last = .returns ∨ last = .throws → s.cur = some c → c ≠ 0 →
      co.state = .DONE ∨ co.state = .EXCEPT → Goes s last { s with
        pc := .look, cos := Function.update s.cos c co, cur := none, coFunc := coFunc }
  | idleYields {coFunc : Option Nat} : s.cur = some 0 → Goes s .idleYields { s with
      pc := .look, cos := Function.update s.cos 0 { s.cos 0 with state := .SUSPEND }
      cur := none, coFunc := coFunc }
  | idleReturns {coFunc : Option Nat} : s.cur = some 0 → s.tasks = [] → Goes s .idleReturns { s with
      pc := .look, cos := Function.update s.cos 0 { state := .DONE }
      cur := none, coFunc := coFunc }

theorem goes_runIdle (orderly : s.Orderly) (here : s.pc = .look) (empty : s.tasks = [])
    (ran : s.runIdle = some s') : Goes s .look s' := by
  unfold runIdle at ran
  split at ran
  · rename_i done
    cases ran
    exact .ends here empty done
  · obtain ⟨t, resumed, ran⟩ := Option.bind_eq_some_iff.mp ran
    cases ran
    cases state : s.state 0 with
    | INIT =>
        rw [resume_init state, orderly.idle.2, Option.toList_none, List.append_nil] at resumed
        cases resumed
        exact .idles here empty
    | SUSPEND =>
        rw [resume_suspended state] at resumed
        cases resumed
        exact .idles here empty
    | RUNNING => unfold resume at resumed; rw [state] at resumed; cases resumed
    | DONE => unfold resume at resumed; rw [state] at resumed; cases resumed
    | EXCEPT => unfold resume at resumed; rw [state] at resumed; cases resumed

theorem goes_look (orderly : s.Orderly) (here : s.pc = .look) (ran : s.look = some s') :
    Goes s .look s' := by
  cases tasks : s.tasks with
  | nil =>
      unfold look at ran
      rw [tasks] at ran
      exact goes_runIdle orderly here tasks ran
  | cons task rest =>
      cases task with
      | co c =>
          have member : c ∈ s.queuedCos := by
            rw [queuedCos_of_co tasks]
            exact List.mem_cons_self
          have suspended := (orderly.queued c member).1
          have after : ({ s with tasks := rest } : WorkerLoop F).state c = .SUSPEND := suspended
          simp only [look, tasks] at ran
          rw [after, if_pos ⟨CoState.noConfusion, CoState.noConfusion⟩, resume_suspended after]
            at ran
          cases ran
          exact .resumes here tasks suspended
      | func f =>
          cases is_func : s.coFunc with
          | some c =>
              have ended : s.Ended c := by
                refine (orderly.coFunc c is_func).2.resolve_left fun cur => ?_
                rw [orderly.quiet here] at cur
                cases cur
              have reused : ({ s with tasks := rest } : WorkerLoop F).reuse c f =
                  some (({ s with tasks := rest } : WorkerLoop F).setCo c { func := some f }) :=
                if_pos (Or.inr ended)
              rw [look_some tasks is_func, reused, Option.bind_some, resume_setCo,
                Option.bind_some] at ran
              cases ran
              exact .reuses here tasks is_func ended
          | none =>
              rw [look_none tasks is_func, resume_setCo, Option.bind_some] at ran
              cases ran
              exact .makes here tasks is_func

theorem goes_of_step (orderly : s.Orderly) (ran : Step s e s') : Goes s e s' := by
  obtain ⟨enabled, ran⟩ := ran
  cases e with
  | addTask f =>
      cases ran
      exact .addTask
  | arrive c =>
      cases ran
      exact .arrive enabled
  | look => exact goes_look orderly enabled ran
  | suspend =>
      obtain ⟨c, running, ran⟩ := Option.bind_eq_some_iff.mp ran
      obtain ⟨cur, positive⟩ := cur_of_running running
      rw [yieldToSuspend_eq orderly cur] at ran
      obtain ⟨coFunc, resumed, -⟩ := resumed_spec orderly cur
        (t := { s.setState c .SUSPEND with
          cur := none, waiting := Function.update s.waiting c true }) rfl rfl
      cases ran
      exact resumed ▸ .suspends cur positive
  | returns =>
      obtain ⟨c, running, ran⟩ := Option.bind_eq_some_iff.mp ran
      obtain ⟨cur, positive⟩ := cur_of_running running
      obtain ⟨coFunc, resumed, -⟩ := resumed_spec orderly cur (t := s.exit c false) rfl rfl
      cases ran
      exact resumed ▸ .exits (Or.inl rfl) cur positive (Or.inl rfl)
  | throws =>
      obtain ⟨c, running, ran⟩ := Option.bind_eq_some_iff.mp ran
      obtain ⟨cur, positive⟩ := cur_of_running running
      obtain ⟨coFunc, resumed, -⟩ := resumed_spec orderly cur (t := s.exit c true) rfl rfl
      cases ran
      exact resumed ▸ .exits (Or.inr rfl) cur positive (Or.inr rfl)
  | idleYields =>
      rw [WorkerLoop.step, yieldToSuspend_eq orderly enabled] at ran
      obtain ⟨coFunc, resumed, -⟩ := resumed_spec orderly enabled
        (t := { s.setState 0 .SUSPEND with cur := none }) rfl rfl
      cases ran
      exact resumed ▸ .idleYields enabled
  | idleReturns =>
      obtain ⟨coFunc, resumed, -⟩ := resumed_spec orderly enabled.1 (t := s.exit 0 false) rfl rfl
      cases ran
      exact resumed ▸ .idleReturns enabled.1 enabled.2

/-! ## The queue, the idle coroutine and the place -/

/-- A step queues what it queues, or starts the first function of the queue. -/
theorem Goes.funcs (goes : Goes s e s') :
    (s'.queuedFuncs = s.queuedFuncs ++ e.queues ∧ s'.started = s.started) ∨
      ∃ f rest, s.queuedFuncs = f :: rest ∧ s'.queuedFuncs = rest ∧
        s'.started = s.started ++ [f] ∧ e = .look := by
  have nothing : s.queuedFuncs = s.queuedFuncs ++ [] := (List.append_nil _).symm
  cases goes with
  | addTask => exact Or.inl ⟨queuedFuncs_func s _, rfl⟩
  | arrive => exact Or.inl ⟨(queuedFuncs_co s _).trans nothing, rfl⟩
  | resumes _ tasks =>
      refine Or.inl ⟨?_, rfl⟩
      unfold queuedFuncs
      rw [tasks]
      exact (List.append_nil _).symm
  | reuses _ tasks => exact Or.inr ⟨_, _, queuedFuncs_of_func tasks, rfl, rfl, rfl⟩
  | makes _ tasks => exact Or.inr ⟨_, _, queuedFuncs_of_func tasks, rfl, rfl, rfl⟩
  | exits is_exit =>
      rcases is_exit with rfl | rfl
      · exact Or.inl ⟨nothing, rfl⟩
      · exact Or.inl ⟨nothing, rfl⟩
  | _ => exact Or.inl ⟨nothing, rfl⟩

/-- The idle coroutine is done only when it has returned. -/
theorem Goes.idle_done (orderly : s.Orderly) (goes : Goes s e s') (done : s'.state 0 = .DONE) :
    s.state 0 = .DONE ∨ e = .idleReturns := by
  have elsewhere : ∀ {c : Nat} {co : CoroutineData F}, c ≠ 0 →
      (Function.update s.cos c co 0).state = .DONE → s.state 0 = .DONE := by
    intro c co positive done
    rwa [state_update_of_ne positive.symm] at done
  cases goes with
  | addTask => exact Or.inl done
  | arrive => exact Or.inl done
  | ends => exact Or.inl done
  | idles =>
      unfold state at done
      dsimp only at done
      rw [Function.update_self] at done
      cases done
  | @resumes c rest _ tasks =>
      have member : c ∈ s.queuedCos := by
        rw [queuedCos_of_co tasks]
        exact List.mem_cons_self
      exact Or.inl (elsewhere (orderly.queued c member).2.1 done)
  | reuses _ _ is_func => exact Or.inl (elsewhere (orderly.coFunc _ is_func).1 done)
  | makes => exact Or.inl (elsewhere (Nat.ne_of_gt orderly.first) done)
  | suspends _ positive => exact Or.inl (elsewhere positive done)
  | exits _ _ positive => exact Or.inl (elsewhere positive done)
  | idleYields =>
      unfold state at done
      dsimp only at done
      rw [Function.update_self] at done
      cases done
  | idleReturns => exact Or.inr rfl

/-- No coroutine runs when `run` has left its loop. -/
theorem Orderly.over (orderly : s.Orderly) (over_ : s.pc = .ended) : s.cur = none := by
  have at_pc := orderly.at_pc
  rwa [over_] at at_pc

/-- A worker that has left its loop does not come back. -/
theorem Goes.ended_stays (orderly : s.Orderly) (goes : Goes s e s') (over_ : s.pc = .ended) :
    s'.pc = .ended := by
  have quiet : ∀ {c : Nat} {p : Prop}, s.cur = some c → p := by
    intro c p cur
    cases cur.symm.trans (orderly.over over_)
  cases goes with
  | addTask => exact over_
  | arrive => exact over_
  | ends => rfl
  | idles here => cases here.symm.trans over_
  | resumes here => cases here.symm.trans over_
  | reuses here => cases here.symm.trans over_
  | makes here => cases here.symm.trans over_
  | suspends cur => exact quiet cur
  | exits _ cur => exact quiet cur
  | idleYields cur => exact quiet cur
  | idleReturns cur => exact quiet cur

/-- A worker leaves its loop with nothing to do, after its idle coroutine. -/
theorem Goes.ended_from (goes : Goes s e s') (over_ : s'.pc = .ended) :
    s.pc = .ended ∨ (s.pc = .look ∧ e = .look ∧ s.tasks = [] ∧ s.state 0 = .DONE) := by
  cases goes with
  | addTask => exact Or.inl over_
  | arrive => exact Or.inl over_
  | ends here empty done => exact Or.inr ⟨here, rfl, empty, done⟩
  | _ => cases over_

/-- What the last round of the loop has found. -/
theorem Goes.last_look (goes : Goes s e s') (over_ : s'.pc = .ended) (here : s.pc = .look) :
    s.pc ≠ .ended ∧ e = .look ∧ s.state 0 = .DONE := by
  have left : s.pc ≠ .ended := by
    rw [here]
    exact LoopPc.noConfusion
  obtain ⟨-, is_look, -, done⟩ := (goes.ended_from over_).resolve_left left
  exact ⟨left, is_look, done⟩

/-! ## No coroutine is lost -/

/-- A coroutine that has been made runs, has ended, waits or is in the queue. -/
def Accounted (s : WorkerLoop F) : Prop :=
  ∀ c, c ≠ 0 → c < s.nextId →
    s.cur = some c ∨ s.Ended c ∨ s.waiting c = true ∨ c ∈ s.queuedCos

theorem accounted_start : ({} : WorkerLoop F).Accounted := by
  intro c positive small
  exact absurd (Nat.lt_one_iff.mp small) positive

/-- What has ended stays so while another coroutine changes. -/
theorem Ended.elsewhere {t : WorkerLoop F} {c k : Nat} {co : CoroutineData F} (ended : s.Ended k)
    (other : k ≠ c) (cos : t.cos = Function.update s.cos c co) : t.Ended k := by
  unfold Ended state at ended ⊢
  rw [cos, Function.update_of_ne other]
  exact ended

/-- A coroutine that does not run is where it was when another one changes. -/
theorem Accounted.other {t : WorkerLoop F} {c k : Nat} {co : CoroutineData F}
    (accounted : s.Accounted) (positive : k ≠ 0) (small : k < s.nextId) (idle : s.cur ≠ some k)
    (other : k ≠ c) (cos : t.cos = Function.update s.cos c co)
    (waits : s.waiting k = true → t.waiting k = true) (queued : k ∈ s.queuedCos → k ∈ t.queuedCos) :
    t.cur = some k ∨ t.Ended k ∨ t.waiting k = true ∨ k ∈ t.queuedCos := by
  rcases accounted k positive small with cur | ended | waiting | there
  · exact absurd cur idle
  · exact Or.inr (Or.inl (ended.elsewhere other cos))
  · exact Or.inr (Or.inr (Or.inl (waits waiting)))
  · exact Or.inr (Or.inr (Or.inr (queued there)))

theorem Accounted.step (orderly : s.Orderly) (accounted : s.Accounted) (goes : Goes s e s') :
    s'.Accounted := by
  intro k positive small
  have quiet : s.pc = .look → s.cur ≠ some k := by
    intro here cur
    rw [orderly.quiet here] at cur
    cases cur
  have apart : ∀ {c : Nat}, s.cur = some c → k ≠ c → s.cur ≠ some k := by
    intro c running other cur
    exact other (Option.some.inj (cur.symm.trans running))
  have func : ∀ {f : F} {rest : List (Task Nat F)}, s.tasks = .func f :: rest →
      k ∈ s.queuedCos → k ∈ rest.filterMap Task.co? := by
    intro f rest tasks queued
    rwa [queuedCos_of_func tasks] at queued
  cases goes with
  | addTask =>
      unfold queuedCos
      rw [queuedCos_func]
      exact accounted k positive small
  | @arrive c waits =>
      unfold queuedCos
      rw [queuedCos_co, List.mem_append, List.mem_singleton]
      rcases eq_or_ne k c with rfl | other
      · exact Or.inr (Or.inr (Or.inr (Or.inr rfl)))
      · rcases accounted k positive small with cur | ended | waiting | queued
        · exact Or.inl cur
        · exact Or.inr (Or.inl ended)
        · exact Or.inr (Or.inr (Or.inl ((Function.update_of_ne other _ _).trans waiting)))
        · exact Or.inr (Or.inr (Or.inr (Or.inl queued)))
  | ends => exact accounted k positive small
  | idles here => exact accounted.other positive small (quiet here) positive rfl id id
  | @resumes c rest here tasks =>
      rcases eq_or_ne k c with rfl | other
      · exact Or.inl rfl
      · refine accounted.other positive small (quiet here) other rfl id fun queued => ?_
        rw [queuedCos_of_co tasks] at queued
        exact (List.mem_cons.mp queued).resolve_left other
  | @reuses c f rest here tasks =>
      rcases eq_or_ne k c with rfl | other
      · exact Or.inl rfl
      · exact accounted.other positive small (quiet here) other rfl id (func tasks)
  | @makes f rest here tasks =>
      rcases eq_or_ne k s.nextId with rfl | other
      · exact Or.inl rfl
      · have before : k < s.nextId := Nat.lt_of_le_of_ne (Nat.le_of_lt_succ small) other
        exact accounted.other positive before (quiet here) other rfl id (func tasks)
  | @suspends c coFunc running =>
      rcases eq_or_ne k c with rfl | other
      · exact Or.inr (Or.inr (Or.inl (Function.update_self _ _ _)))
      · refine accounted.other positive small (apart running other) other rfl (fun waiting => ?_) id
        exact (Function.update_of_ne other _ _).trans waiting
  | @exits last c co coFunc _ running _ over_ =>
      rcases eq_or_ne k c with rfl | other
      · refine Or.inr (Or.inl ?_)
        unfold Ended state
        dsimp only
        rwa [Function.update_self]
      · exact accounted.other positive small (apart running other) other rfl id id
  | idleYields running =>
      exact accounted.other positive small (apart running positive) positive rfl id id
  | idleReturns running =>
      exact accounted.other positive small (apart running positive) positive rfl id id

/-! ## The end of `run` -/

/-- Where the last round of the loop was, and what had been queued before it. -/
def Drained (es : List (LoopLabel F)) (s : WorkerLoop F) : Prop :=
  s.pc = .ended → ∃ before after, es = before ++ .look :: after ∧
    s.started = queuedBy before ∧ s.queuedFuncs = queuedBy after

theorem queuedBy_snoc (es : List (LoopLabel F)) (e : LoopLabel F) :
    queuedBy (es ++ [e]) = queuedBy es ++ e.queues := by
  unfold queuedBy
  rw [List.flatMap_append, List.flatMap_singleton]

theorem Drained.step {es : List (LoopLabel F)} (drained : Drained es s)
    (funcs : s.started ++ s.queuedFuncs = queuedBy es) (goes : Goes s e s') :
    Drained (es ++ [e]) s' := by
  intro over_
  cases goes with
  | @addTask f =>
      obtain ⟨before, after, rfl, started, left⟩ := drained over_
      refine ⟨before, after ++ [.addTask f], by rw [List.append_assoc]; rfl, started, ?_⟩
      unfold queuedFuncs
      rw [queuedFuncs_func, left, queuedBy_snoc]
      rfl
  | @arrive c =>
      obtain ⟨before, after, rfl, started, left⟩ := drained over_
      refine ⟨before, after ++ [.arrive c], by rw [List.append_assoc]; rfl, started, ?_⟩
      unfold queuedFuncs
      rw [queuedFuncs_co, left, queuedBy_snoc]
      exact (List.append_nil _).symm
  | ends _ empty =>
      have nothing : s.queuedFuncs = [] := by
        unfold queuedFuncs
        rw [empty]
        rfl
      rw [nothing, List.append_nil] at funcs
      exact ⟨es, [], rfl, funcs, nothing⟩
  | _ => cases over_

/-- What every run of a worker keeps. -/
structure Lasting (es : List (LoopLabel F)) (s : WorkerLoop F) : Prop where
  orderly : s.Orderly
  funcs : s.started ++ s.queuedFuncs = queuedBy es
  accounted : s.Accounted
  drained : Drained es s

theorem lasting_of_run {es : List (LoopLabel F)} (run : Run Step {} es s) : Lasting es s := by
  refine run.historyInvariant (I := Lasting)
    ⟨orderly_start, rfl, accounted_start, LoopPc.noConfusion⟩ fun {es s e s'} kept ran => ?_
  obtain ⟨t, stepped, orderly, funcs⟩ := step_orderly kept.orderly ran.1
  cases ran.2.symm.trans stepped
  have goes := goes_of_step kept.orderly ran
  refine ⟨orderly, ?_, kept.accounted.step kept.orderly goes,
    kept.drained.step kept.funcs goes⟩
  rw [funcs, kept.funcs, queuedBy_snoc]

/-- The state of a coroutine tells where it is. -/
theorem Lasting.places {es : List (LoopLabel F)} (kept : Lasting es s) {c : Nat} (positive : c ≠ 0)
    (small : c < s.nextId) :
    s.state c ≠ .INIT ∧ (s.state c = .RUNNING ↔ s.cur = some c) ∧
      (s.state c = .SUSPEND ↔ s.waiting c = true ∨ c ∈ s.queuedCos) := by
  have suspended : s.waiting c = true ∨ c ∈ s.queuedCos → s.state c = .SUSPEND := by
    intro held
    rcases held with waits | queued
    · exact (kept.orderly.waits c waits).1
    · exact (kept.orderly.queued c queued).1
  refine ⟨fun init => ?_, kept.orderly.running_iff c, fun is_suspended => ?_, suspended⟩
  · rcases kept.accounted c positive small with cur | (done | except) | held
    · cases init.symm.trans ((kept.orderly.running_iff c).mpr cur)
    · cases init.symm.trans done
    · cases init.symm.trans except
    · cases init.symm.trans (suspended held)
  · rcases kept.accounted c positive small with cur | (done | except) | held
    · cases is_suspended.symm.trans ((kept.orderly.running_iff c).mpr cur)
    · cases is_suspended.symm.trans done
    · cases is_suspended.symm.trans except
    · exact held

/-- In every run of a worker a coroutine that was made for a function runs, has ended, waits
for its event, or is in the queue, and once: no suspended coroutine is lost and none is held
twice. Its state says which of these it is. -/
theorem coroutines_accounted {es : List (LoopLabel F)} (run : Run Step {} es s) :
    s.queuedCos.Nodup ∧ ∀ c, c ≠ 0 → c < s.nextId →
      (s.cur = some c ∨ s.Ended c ∨ s.waiting c = true ∨ c ∈ s.queuedCos) ∧
      (s.state c = .RUNNING ↔ s.cur = some c) ∧
      (s.state c = .SUSPEND ↔ s.waiting c = true ∨ c ∈ s.queuedCos) ∧
      ¬(s.waiting c = true ∧ c ∈ s.queuedCos) := by
  have kept := lasting_of_run run
  refine ⟨kept.orderly.once, fun c positive small => ?_⟩
  obtain ⟨-, running, suspended⟩ := kept.places positive small
  refine ⟨kept.accounted c positive small, running, suspended, ?_⟩
  rintro ⟨waits, queued⟩
  cases waits.symm.trans (kept.orderly.queued c queued).2.2

/-- The steps of a worker as a function. -/
def next (s : WorkerLoop F) (e : LoopLabel F) : Option (WorkerLoop F) :=
  if s.Enabled e then s.step e else none

theorem step_of_next (ran : s.next e = some s') : Step s e s' := by
  unfold next at ran
  split at ran
  · rename_i enabled
    exact ⟨enabled, ran⟩
  · cases ran

/-- Two functions that suspend; the event of the first one has come. -/
def suspendTwo : List (LoopLabel Nat) :=
  [.addTask 1, .addTask 2, .look, .suspend, .look, .suspend, .arrive 1]

theorem coroutines_accounted_two : ∃ s : WorkerLoop Nat, Run Step {} suspendTwo s ∧
    s.queuedCos = [1] ∧ s.waiting 2 = true ∧ s.state 1 = .SUSPEND ∧ s.state 2 = .SUSPEND := by
  have ends : (exec next {} suspendTwo).map (fun s : WorkerLoop Nat =>
      (s.nextId, s.queuedCos, s.waiting 2)) = some (3, [1], true) := by decide
  obtain ⟨s, ran, left⟩ := Option.map_eq_some_iff.mp ends
  obtain ⟨made, queued, waits⟩ : s.nextId = 3 ∧ s.queuedCos = [1] ∧ s.waiting 2 = true := by
    simpa using left
  have run : Run Step {} suspendTwo s := (run_of_exec ran).mono step_of_next
  obtain ⟨-, places⟩ := coroutines_accounted run
  have first := (places 1 (by decide) (by omega)).2.2.1
  have second := (places 2 (by decide) (by omega)).2.2.1
  rw [queued] at first
  exact ⟨s, run, queued, waits, first.mpr (Or.inr List.mem_cons_self), second.mpr (Or.inl waits)⟩

end WorkerLoop

end Reyao
