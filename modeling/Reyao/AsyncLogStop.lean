import Reyao.AsyncLogQueue

/-!
# Stopping the asynchronous log

`AsyncLog::stop` sets `exit_`, notifies the backend, detaches its thread and returns;
it does not wait for the last buffers to be written. So a line that was logged before
is in the file when `stop` has returned, whatever the backend does meanwhile, exactly
when it was there already when `stop` was called.
-/

namespace Reyao

open Lib

/-- Where the call of `stop()` stands. -/
inductive StopPhase : Type
  | uncalled
  | called
  | exitSet
  | notified
  | returned
  deriving DecidableEq, Repr

/-- The log and the thread that stops it. -/
structure StoppedLog : Type where
  sys : LogSystem
  stop : StopPhase
  deriving DecidableEq, Repr

namespace StoppedLog

def init : StoppedLog := ⟨.init, .uncalled⟩

/-- A step of a producer or of the backend, or one of `stop()`. -/
inductive Event : Type
  | log (e : LogEvent)
  | call
  | setExit
  | notify
  | detach
  deriving DecidableEq, Repr

/-- The bytes a step brings in. -/
def Event.line : Event → Bytes
  | log e => e.line
  | _ => []

/-- `stop()` is called once; `exit_` is set by it only. `cond_.notify()` ends a wait
that may end at any time, and `detach` lets the backend go on by itself. -/
inductive Step : StoppedLog → Event → StoppedLog → Prop
  | log {s : StoppedLog} {e : LogEvent} {sys : LogSystem} : e ≠ .stop → LogStep s.sys e sys →
      Step s (.log e) { s with sys := sys }
  | call {s : StoppedLog} : s.stop = .uncalled → Step s .call { s with stop := .called }
  | setExit {s : StoppedLog} : s.stop = .called →
      Step s .setExit ⟨{ s.sys with log := s.sys.log.stop }, .exitSet⟩
  | notify {s : StoppedLog} : s.stop = .exitSet → Step s .notify { s with stop := .notified }
  | detach {s : StoppedLog} : s.stop = .notified → Step s .detach { s with stop := .returned }

end StoppedLog

/-- No byte is buffered: what the backend has collected is written, and nothing has
been appended since. -/
def LogSystem.Flushed (s : LogSystem) : Prop :=
  contentsOf s.unwritten = [] ∧ contentsOf s.log.buffers = [] ∧ contents s.log.currBuffer = []

instance (s : LogSystem) : Decidable s.Flushed :=
  inferInstanceAs (Decidable (_ ∧ _ ∧ _))

theorem Backend.written_recycle {thread thread' : Backend}
    (done : thread.recycle = .ok thread') : thread'.written = thread.written := by
  unfold Backend.recycle at done
  split at done
  · dsimp only at done
    split at done
    · split at done
      · cases done
        rfl
      · cases done
        rfl
      · cases done
    · cases done
      rfl
  · cases done

namespace LogSystem

variable {s t : LogSystem}

/-- What has been written stays written. -/
theorem Wf.written_prefix (wf : s.Wf) {e : LogEvent} (step : LogStep s e t) :
    s.thread.written.flatten <+: t.thread.written.flatten := by
  obtain ⟨enabled, done⟩ := step
  have ready := wf.ready
  cases e with
  | append line =>
      obtain ⟨log', added, -⟩ := AsyncLog.append_ok enabled wf.curr wf.backup wf.queued
      simp only [LogEvent.exec, added] at done
      cases done
      exact List.prefix_refl _
  | start =>
      cases done
      rw [Backend.Ready, show s.thread.phase = .idle from enabled] at ready
      rw [ready.1]
      exact List.nil_prefix
  | stop =>
      cases done
      exact List.prefix_refl _
  | enter =>
      cases done
      rw [LogSystem.enter]
      split <;> exact List.prefix_refl _
  | collect =>
      cases done
      rw [LogSystem.collect]
      dsimp only
      split <;> exact List.prefix_refl _
  | write =>
      obtain ⟨n, more, here⟩ := enabled
      simp only [LogEvent.exec, here, Backend.write] at done
      split at done
      · cases done
        rw [List.flatten_append]
        exact List.prefix_append _ _
      · cases done
  | recycle =>
      simp only [LogEvent.exec] at done
      cases ran : s.thread.recycle with
      | error e =>
          rw [ran] at done
          cases done
      | ok thread' =>
          rw [ran] at done
          cases done
          rw [Backend.written_recycle ran]

end LogSystem

namespace StoppedLog

variable {s t : StoppedLog} {es : List Event}

/-- What is so in every state: the buffers are sound, and hold what is not written of
the lines that were appended. -/
theorem Step.keeps {e : Event} (step : Step s e t) (wf : s.sys.Wf) :
    t.sys.Wf ∧ t.sys.content = s.sys.content ++ e.line ∧
      s.sys.thread.written.flatten <+: t.sys.thread.written.flatten := by
  cases step with
  | @log e sys other ran =>
      obtain ⟨sys', done, wf', added⟩ := wf.exec ran.1
      have same : sys' = sys := by
        have both := done.symm.trans ran.2
        cases both
        rfl
      rw [same] at wf' added
      exact ⟨wf', added, wf.written_prefix ran⟩
  | call => exact ⟨wf, (List.append_nil _).symm, List.prefix_refl _⟩
  | setExit =>
      exact ⟨⟨wf.curr, wf.backup, wf.first, wf.second, wf.queued, wf.held, wf.ready⟩,
        (List.append_nil _).symm, List.prefix_refl _⟩
  | notify => exact ⟨wf, (List.append_nil _).symm, List.prefix_refl _⟩
  | detach => exact ⟨wf, (List.append_nil _).symm, List.prefix_refl _⟩

theorem content_of_run (run : Run Step init es s) :
    s.sys.Wf ∧ s.sys.content = es.flatMap Event.line := by
  refine run.historyInvariant (I := fun es s => s.sys.Wf ∧ s.sys.content = es.flatMap Event.line)
    ⟨LogSystem.wf_init, rfl⟩ fun inv step => ?_
  obtain ⟨wf, total⟩ := inv
  obtain ⟨wf', added, -⟩ := step.keeps wf
  refine ⟨wf', ?_⟩
  rw [added, total, List.flatMap_append, List.flatMap_singleton]

theorem written_of_run (wf : s.sys.Wf) (run : Run Step s es t) :
    s.sys.thread.written.flatten <+: t.sys.thread.written.flatten := by
  refine (run.invariant (I := fun t => t.sys.Wf ∧
    s.sys.thread.written.flatten <+: t.sys.thread.written.flatten) ⟨wf, List.prefix_refl _⟩
    fun inv step => ?_).2
  obtain ⟨wf', -, more⟩ := step.keeps inv.1
  exact ⟨wf', inv.2.trans more⟩

/-- `stop()` may run through before anyone else makes a step. -/
theorem stop_at_once (called : s.stop = .called) :
    Run Step s [.setExit, .notify, .detach]
      ⟨{ s.sys with log := s.sys.log.stop }, .returned⟩ :=
  Run.cons (.setExit called) (Run.cons (.notify rfl) (Run.single (.detach rfl)))

/-- **When `stop()` returns with everything written.** Every line whose append had
returned before `stop()` was called has reached the file in every state in which
`stop()` has returned if and only if no byte was buffered when it was called. -/
theorem stop_returns_flushed_iff (run : Run Step init es s) {s₁ : StoppedLog}
    (call : Step s .call s₁) :
    (∀ fs t, Run Step s₁ fs t → t.stop = .returned →
      es.flatMap Event.line <+: t.sys.thread.written.flatten) ↔ s.sys.Flushed := by
  obtain ⟨wf, total⟩ := content_of_run run
  cases call with
  | call uncalled =>
      rw [← total]
      constructor
      · intro reaches
        have early : s.sys.content <+: s.sys.thread.written.flatten :=
          reaches _ ⟨{ s.sys with log := s.sys.log.stop }, .returned⟩
            (stop_at_once (s := { s with stop := .called }) rfl) rfl
        have lengths := early.length_le
        rw [LogSystem.content] at lengths
        simp only [List.length_append] at lengths
        refine ⟨?_, ?_, ?_⟩
        · exact List.length_eq_zero_iff.mp (by omega)
        · exact List.length_eq_zero_iff.mp (by omega)
        · exact List.length_eq_zero_iff.mp (by omega)
      · rintro ⟨held, queued, current⟩ fs t later -
        have all : s.sys.content = s.sys.thread.written.flatten := by
          rw [LogSystem.content, held, queued, current]
          simp only [List.append_nil]
        rw [all]
        exact written_of_run (s := { s with stop := .called }) wf later

/-- The line "one" is logged and written, and then `stop()` is called. -/
def writtenThenStopped : List Event :=
  [.log .start, .log (.append (ascii "one")), .log .enter, .log .collect, .log .write]

theorem written_then_stopped : ∃ s s₁, Run Step init writtenThenStopped s ∧ Step s .call s₁ ∧
    ∀ fs t, Run Step s₁ fs t → t.stop = .returned →
      ascii "one" <+: t.sys.thread.written.flatten := by
  obtain ⟨s, run, flushed, uncalled⟩ : ∃ s, Run Step init writtenThenStopped s ∧ s.sys.Flushed ∧
      s.stop = .uncalled := by
    refine ⟨_, Run.cons (.log (by decide) ⟨rfl, rfl⟩)
      (Run.cons (.log (by decide) ⟨(by decide : (ascii "one").length ≤ kBufferSize), rfl⟩)
        (Run.cons (.log (by decide) ⟨rfl, rfl⟩) (Run.cons (.log (by decide) ⟨rfl, rfl⟩)
          (Run.single (.log (by decide) ⟨⟨0, by decide, rfl⟩, rfl⟩))))), ?_, rfl⟩
    decide
  exact ⟨s, _, run, .call uncalled, (stop_returns_flushed_iff run (.call uncalled)).mpr flushed⟩

/-- `stop()` returns with the line that was logged before it still in the buffer. -/
theorem not_stop_returns_flushed : ∃ s s₁ t : StoppedLog,
    Run Step init [.log .start, .log (.append (ascii "one"))] s ∧ Step s .call s₁ ∧
    Run Step s₁ [.setExit, .notify, .detach] t ∧ t.stop = .returned ∧
    ¬ascii "one" <+: t.sys.thread.written.flatten := by
  obtain ⟨s, run, uncalled, nothing⟩ : ∃ s,
      Run Step init [.log .start, .log (.append (ascii "one"))] s ∧ s.stop = .uncalled ∧
      s.sys.thread.written = [] :=
    ⟨_, Run.cons (.log (by decide) ⟨rfl, rfl⟩)
      (Run.single (.log (by decide) ⟨(by decide : (ascii "one").length ≤ kBufferSize), rfl⟩)),
      rfl, rfl⟩
  refine ⟨s, _, _, run, .call uncalled, stop_at_once rfl, rfl, ?_⟩
  change ¬ascii "one" <+: s.sys.thread.written.flatten
  rw [nothing]
  decide

end StoppedLog

end Reyao
