import Reyao.Hook

/-!
# Hooked calls and the files of their descriptors

A hooked call keeps using the number of its descriptor after it was suspended.
`calls_stay_on_file` says when the number still means the file it meant at the
beginning.
-/

namespace Reyao.System

open Lib

variable {W : Type}

/-- The number a step hands out. -/
def handedOut : Label W → Option Nat
  | .socket _ fd => some fd
  | .origin _ (.accepted fd) => some fd
  | _ => none

/-- `socket` and `accept` hand out no number on which a hooked call is in progress. -/
def NumberUnused (s : System W) (label : Label W) : Prop :=
  ∀ fd, handedOut label = some fd → ∀ c call, s.InCall c call → call.fd ≠ fd

variable {s s' : System W} {label : Label W}

/-- What a step does to the calls: those that go on keep their descriptor and their
file, and a new one takes the file of its descriptor. -/
def CallsFrom (s s' : System W) : Prop :=
  ∀ c call', s'.InCall c call' →
    (∃ call, s.InCall c call ∧ call'.fd = call.fd ∧ call'.file = call.file) ∨
      call'.file = s.files call'.fd

/-- What a step does to the files: it closes some, and opens one at most, under a
number that was free. -/
def FilesFrom (label : Label W) (s s' : System W) : Prop :=
  ∀ fd, s'.files fd = s.files fd ∨ s'.files fd = none ∨
    handedOut label = some fd ∧ s.files fd = none

theorem callsFrom_refl (same : s'.coroutines = s.coroutines) : CallsFrom s s' := by
  intro c call inCall
  rw [InCall, same] at inCall
  exact Or.inl ⟨call, inCall, rfl, rfl⟩

/-- A step of one coroutine. -/
theorem callsFrom_one {c : Nat} (others : ∀ c', c' ≠ c → s'.coroutines c' = s.coroutines c')
    (here : ∀ call', s'.InCall c call' →
      (∃ call, s.InCall c call ∧ call'.fd = call.fd ∧ call'.file = call.file) ∨
        call'.file = s.files call'.fd) : CallsFrom s s' := by
  intro c' call' inCall
  by_cases same : c' = c
  · subst same
    exact here call' inCall
  · rw [InCall, others c' same] at inCall
    exact Or.inl ⟨call', inCall, rfl, rfl⟩

theorem filesFrom_refl (same : s'.files = s.files) : FilesFrom label s s' := by
  intro fd
  rw [same]
  exact Or.inl rfl

/-- The coroutine goes to code outside of hooked calls. -/
theorem callsFrom_left {c : Nat} (co : Coroutine W) (coroutines : s'.coroutines =
    Function.update s.coroutines c co) (outside : co.pc.call? = none) : CallsFrom s s' := by
  refine callsFrom_one (c := c) (fun c' other => ?_) fun call' inCall => ?_
  · rw [coroutines, Function.update_of_ne other]
  · rw [InCall, coroutines, Function.update_self, outside] at inCall
    cases inCall

/-- The coroutine goes on in its call. -/
theorem callsFrom_on {c : Nat} (co : Coroutine W) {call : Call W} (coroutines : s'.coroutines =
    Function.update s.coroutines c co) (was : s.InCall c call)
    (stays : ∀ call', co.pc.call? = some call' → call'.fd = call.fd ∧ call'.file = call.file) :
    CallsFrom s s' := by
  refine callsFrom_one (c := c) (fun c' other => ?_) fun call' inCall => ?_
  · rw [coroutines, Function.update_of_ne other]
  · rw [InCall, coroutines, Function.update_self] at inCall
    exact Or.inl ⟨call, was, stays call' inCall⟩

theorem callsFrom_same {c : Nat} (co : Coroutine W) {call : Call W} (coroutines : s'.coroutines =
    Function.update s.coroutines c co) (was : s.InCall c call) (same : co.pc.call? = some call) :
    CallsFrom s s' := by
  refine callsFrom_on co coroutines was fun call' is => ?_
  cases same.symm.trans is
  exact ⟨rfl, rfl⟩

section

variable [DecidableEq W] {w : W} {c fd : Nat}

omit [DecidableEq W] in
theorem openSocket_files (opened : s.openSocket fd = some s') :
    s'.coroutines = s.coroutines ∧ s.files fd = none ∧
      ∀ fd', fd' ≠ fd → s'.files fd' = s.files fd' := by
  rw [openSocket] at opened
  split at opened
  · rename_i lowest
    obtain ⟨fdmanager, -, done⟩ := Option.bind_eq_some_iff.mp opened
    cases done
    exact ⟨rfl, lowest.1, fun fd' other => Function.update_of_ne other ..⟩
  · cases opened

omit [DecidableEq W] in
theorem finish_files {kind : CallKind} {answer : Answer} (ran : s.finish c kind answer = some s') :
    CallsFrom s s' ∧ FilesFrom (.origin w answer) s s' := by
  rw [finish.eq_def] at ran
  split at ran
  · rename_i fd
    obtain ⟨s₁, opened, done⟩ := Option.bind_eq_some_iff.mp ran
    cases done
    obtain ⟨coroutines, free, files⟩ := openSocket_files opened
    refine ⟨callsFrom_left (c := c) ((s.coroutines c).returns .success) ?_ rfl, fun fd' => ?_⟩
    · rw [returns, setCoroutine, coroutines]
    · by_cases same : fd' = fd
      · exact Or.inr (Or.inr (by rw [same]; exact ⟨rfl, free⟩))
      · exact Or.inl (files fd' same)
  · cases ran
  · cases ran
  · cases ran
    exact ⟨callsFrom_left _ rfl rfl, filesFrom_refl rfl⟩
  · cases ran
    exact ⟨callsFrom_left _ rfl rfl, filesFrom_refl rfl⟩

theorem HandleEvent_frame {type : EventType} (ran : s.HandleEvent w fd type = some s') :
    s'.coroutines = s.coroutines ∧ s'.files = s.files := by
  obtain ⟨_, woken, poller, -, rfl⟩ := HandleEvent_some ran
  exact ⟨by rw [coroutines_addTasks, coroutines_setPoller],
    by rw [files_addTasks, files_setPoller]⟩

theorem HandleAllEvent_frame (ran : s.HandleAllEvent w fd = some s') :
    s'.coroutines = s.coroutines ∧ s'.files = s.files := by
  obtain ⟨_, woken, poller, -, rfl⟩ := HandleAllEvent_some ran
  exact ⟨by rw [coroutines_addTasks, coroutines_setPoller],
    by rw [files_addTasks, files_setPoller]⟩

theorem resume_files (ran : s.resume w c = some s') :
    CallsFrom s s' ∧ s'.files = s.files := by
  rw [resume] at ran
  split at ran
  · cases ran
    exact ⟨callsFrom_left _ rfl rfl, rfl⟩
  · rename_i call timer pc
    have was : s.InCall c call := by rw [InCall, pc]; rfl
    split at ran
    · rename_i errno timedOut
      cases ran
      refine ⟨callsFrom_left (c := c) ((s.coroutines c).returns (.failure errno)) ?_ rfl,
        files_cancelTimer timer⟩
      rw [returns, setCoroutine, coroutines_cancelTimer, coroutines_setPhase]
    · split at ran
      · cases ran
        refine ⟨callsFrom_same { s.coroutines c with pc := .probe call } ?_ was rfl,
          files_cancelTimer timer⟩
        rw [setPc, setCoroutine, coroutines_cancelTimer, coroutines_setPhase]
      · cases ran
        refine ⟨callsFrom_same { s.coroutines c with pc := .origin call } ?_ was rfl,
          files_cancelTimer timer⟩
        rw [setPc, setCoroutine, coroutines_cancelTimer, coroutines_setPhase]
  · cases ran

theorem onTimer_files {callback : Callback} (ran : s.onTimer w callback = some s') :
    CallsFrom s s' ∧ s'.files = s.files := by
  rw [onTimer] at ran
  cases was : (s.coroutines callback.co).pc.call? with
  | none =>
      simp only [was] at ran
      cases ran
      exact ⟨callsFrom_refl rfl, rfl⟩
  | some call =>
      simp only [was] at ran
      split at ran
      · cases ran
        exact ⟨callsFrom_refl rfl, rfl⟩
      · obtain ⟨coroutines, files⟩ := HandleEvent_frame ran
        refine ⟨callsFrom_on _ coroutines was fun call' inCall => ?_, files⟩
        rw [Pc.call?_cancel, was] at inCall
        cases inCall
        exact ⟨rfl, rfl⟩

omit [DecidableEq W] in
theorem addTimer_files {addr : Nat} {now : Int} (ran : s.addTimer c addr now = some s') :
    CallsFrom s s' ∧ s'.files = s.files := by
  rw [addTimer] at ran
  split at ran
  · rename_i call pc
    have was : s.InCall c call := by rw [InCall, pc]; rfl
    split at ran
    · cases ran
      exact ⟨callsFrom_same _ rfl was rfl, rfl⟩
    · cases ran
      exact ⟨callsFrom_same _ rfl was rfl, rfl⟩
  · cases ran

theorem addEvent_files {refused : Bool} (ran : s.addEvent w c refused = some s') :
    CallsFrom s s' ∧ s'.files = s.files := by
  rw [addEvent] at ran
  split at ran
  · rename_i call timer pc
    have was : s.InCall c call := by rw [InCall, pc]; rfl
    obtain ⟨⟨added, poller⟩, -, done⟩ := Option.bind_eq_some_iff.mp ran
    cases added with
    | true =>
        cases done
        exact ⟨callsFrom_same _ rfl was rfl, rfl⟩
    | false =>
        simp only [Bool.false_eq_true, if_false] at done
        split at done
        · cases done
          refine ⟨callsFrom_same { s.coroutines c with pc := .probe call } ?_ was rfl,
            files_cancelTimer timer⟩
          rw [setPc, setCoroutine, coroutines_cancelTimer, coroutines_setPoller]
        · cases done
          refine ⟨callsFrom_left (c := c) ((s.coroutines c).returns (.failure .other)) ?_ rfl,
            files_cancelTimer timer⟩
          rw [returns, setCoroutine, coroutines_cancelTimer, coroutines_setPoller]
  · cases ran

omit [DecidableEq W] in
theorem origin_files {answer : Answer} (ran : s.origin c answer = some s') :
    CallsFrom s s' ∧ FilesFrom (.origin w answer) s s' := by
  rw [origin] at ran
  split at ran
  · split at ran
    · exact finish_files ran
    · cases ran
  · rename_i call pc
    have was : s.InCall c call := by rw [InCall, pc]; rfl
    split at ran
    · split at ran
      · cases ran
        exact ⟨callsFrom_same _ rfl was rfl, filesFrom_refl rfl⟩
      · exact finish_files ran
      · cases ran
        exact ⟨callsFrom_refl rfl, filesFrom_refl rfl⟩
      · cases ran
        exact ⟨callsFrom_same _ rfl was rfl, filesFrom_refl rfl⟩
      · exact finish_files ran
    · cases ran
  · cases ran

omit [DecidableEq W] in
theorem closeOrigin_files (ran : s.closeOrigin c = some s') :
    CallsFrom s s' ∧ FilesFrom label s s' := by
  rw [closeOrigin] at ran
  split at ran
  · rename_i fd managed pc
    cases ran
    refine ⟨callsFrom_left _ rfl rfl, fun fd' => ?_⟩
    by_cases same : fd' = fd
    · exact Or.inr (Or.inl (by rw [same]; exact Function.update_self ..))
    · exact Or.inl (Function.update_of_ne same ..)
  · cases ran

/-- What a step of the running coroutine does to calls and files. -/
theorem runStep_files (ran : s.runStep w c label = some s') :
    CallsFrom s s' ∧ FilesFrom label s s' := by
  have keeps : ∀ {t : System W}, CallsFrom s t ∧ t.files = s.files →
      CallsFrom s t ∧ FilesFrom label s t := fun both => ⟨both.1, filesFrom_refl both.2⟩
  cases label with
  | origin _ answer => exact origin_files ran
  | addTimer _ addr now => exact keeps (addTimer_files ran)
  | addEvent _ refused => exact keeps (addEvent_files ran)
  | probe _ error =>
      simp only [runStep, probe] at ran
      split at ran
      · split at ran
        · cases ran
          exact keeps ⟨callsFrom_left _ rfl rfl, rfl⟩
        · cases ran
          exact keeps ⟨callsFrom_left _ rfl rfl, rfl⟩
      · cases ran
  | closeOrigin => exact closeOrigin_files ran
  | leave =>
      cases (inUser_some ran).2
      exact keeps ⟨callsFrom_left _ rfl rfl, rfl⟩
  | begin _ kind fd =>
      cases (inUser_some ran).2
      refine keeps ⟨callsFrom_one (fun c' other => Function.update_of_ne other ..)
        fun call inCall => ?_, rfl⟩
      simp only [InCall, setCoroutine, Function.update_self] at inCall
      obtain ⟨-, user | ⟨began, rfl, file, -, -, -, direct | ⟨origin, -⟩⟩⟩ := begin_cases _ kind fd
        (s.fdmanager.getFdContext fd) (s.files fd) (s.coroutines c)
      · rw [user] at inCall
        cases inCall
      · rw [direct] at inCall
        cases inCall
        exact Or.inr file
      · rw [origin] at inCall
        cases inCall
        exact Or.inr file
  | cancel _ fd type =>
      obtain ⟨coroutines, files⟩ := HandleEvent_frame (inUser_some ran).2
      exact keeps ⟨callsFrom_refl coroutines, files⟩
  | cancelAll _ fd =>
      obtain ⟨coroutines, files⟩ := HandleAllEvent_frame (inUser_some ran).2
      exact keeps ⟨callsFrom_refl coroutines, files⟩
  | close _ fd =>
      have ran := (inUser_some ran).2
      rw [close.eq_def] at ran
      split at ran
      · cases ran
        exact keeps ⟨callsFrom_left _ rfl rfl, rfl⟩
      · obtain ⟨s₁, handled, done⟩ := Option.bind_eq_some_iff.mp ran
        cases done
        obtain ⟨coroutines, files⟩ := HandleAllEvent_frame handled
        refine keeps ⟨callsFrom_left (c := c) { s.coroutines c with pc := .closing fd true } ?_ rfl,
          files⟩
        rw [setPc, setCoroutine, coroutines]
  | socket _ fd =>
      obtain ⟨coroutines, free, files⟩ := openSocket_files (inUser_some ran).2
      refine ⟨callsFrom_refl coroutines, fun fd' => ?_⟩
      by_cases same : fd' = fd
      · exact Or.inr (Or.inr (by rw [same]; exact ⟨rfl, free⟩))
      · exact Or.inl (files fd' same)
  | setTimeout _ fd type timeout =>
      cases (inUser_some ran).2
      exact keeps ⟨callsFrom_refl rfl, rfl⟩
  | setUserNonBlock _ fd flag =>
      cases (inUser_some ran).2
      exact keeps ⟨callsFrom_refl rfl, rfl⟩
  | schedule => cases ran
  | take => cases ran
  | poll => cases ran
  | expire => cases ran
  | report => cases ran

/-- What a step does to calls and files. -/
theorem step_files (ran : s.step label = some s') : CallsFrom s s' ∧ FilesFrom label s s' := by
  have keeps : ∀ {t : System W}, CallsFrom s t ∧ t.files = s.files →
      CallsFrom s t ∧ FilesFrom label s t := fun both => ⟨both.1, filesFrom_refl both.2⟩
  rcases step_cases ran with ⟨w, c, -, -, rfl⟩ | ⟨w, -, ran⟩ | ⟨w, reports, -, ran⟩ |
    ⟨w, now, probe, -, ran⟩ | ⟨w, -, ran⟩ | ⟨c, -, ran⟩
  · refine keeps ⟨callsFrom_left (c := c) { s.coroutines c with pc := .ready } ?_ rfl, ?_⟩
    · rw [coroutines_addTasks, setPc, setCoroutine]
    · rw [files_addTasks, setPc, setCoroutine]
  · rw [take.eq_def] at ran
    split at ran
    · exact keeps (resume_files (s := s.setTasks w _) ran)
    · exact keeps (onTimer_files (s := s.setTasks w _) ran)
    · cases ran
  · rw [poll.eq_def] at ran
    split at ran
    · split at ran
      · cases ran
        exact keeps ⟨callsFrom_refl rfl, rfl⟩
      · cases ran
    · cases ran
  · rw [expire.eq_def] at ran
    split at ran
    · cases ran
      refine keeps ⟨callsFrom_refl ?_, ?_⟩
      · rw [coroutines_setPhase, coroutines_addTasks]
      · rw [files_setPhase, files_addTasks]
    · cases ran
  · rw [report.eq_def] at ran
    split at ran
    · cases ran
      exact keeps ⟨callsFrom_refl rfl, rfl⟩
    · obtain ⟨⟨woken, poller⟩, -, done⟩ := Option.bind_eq_some_iff.mp ran
      cases done
      refine keeps ⟨callsFrom_refl ?_, ?_⟩
      · rw [coroutines_setPhase, coroutines_addTasks, coroutines_setPoller]
      · rw [files_setPhase, files_addTasks, files_setPoller]
    · cases ran
  · exact runStep_files ran

end

/-! ## Runs -/

/-- A call that began on a file has its descriptor on that file, or on none. -/
def OnFile (s : System W) : Prop :=
  ∀ c call file, s.InCall c call → call.file = some file →
    s.files call.fd = some file ∨ s.files call.fd = none

/-- A step that reuses no number keeps calls on their files. -/
theorem OnFile.step [DecidableEq W] (on : s.OnFile) (unused : NumberUnused s label)
    (ran : s.step label = some s') : s'.OnFile := by
  obtain ⟨calls, files⟩ := step_files ran
  intro c call' file inCall' began
  rcases calls c call' inCall' with ⟨call, inCall, sameFd, sameFile⟩ | fresh
  · have before := on c call file inCall (by rw [← sameFile]; exact began)
    rw [← sameFd] at before
    rcases files call'.fd with same | closed | ⟨opened, -⟩
    · rw [same]
      exact before
    · exact Or.inr closed
    · exact absurd sameFd.symm (unused _ opened c call inCall)
  · rw [began] at fresh
    rcases files call'.fd with same | closed | ⟨-, free⟩
    · rw [same]
      exact Or.inl fresh.symm
    · exact Or.inr closed
    · rw [free] at fresh
      cases fresh

theorem onFile_init (files : Nat → Option File) (nextFile : Nat) :
    (init files nextFile : System W).OnFile := by
  intro c call file inCall
  cases inCall

/-- The original function on a descriptor that is closed ends the call. -/
theorem origin_closed {c : Nat} {call : Call W} {answer : Answer} (inCall : s.InCall c call)
    (closed : s.files call.fd = none) (ran : s.origin c answer = some s') :
    (s'.coroutines c).pc = .user ∧ (s'.coroutines c).returned = some (.failure .EBADF) := by
  have returned : ∀ {kind : CallKind}, s.finish c kind (.failure .EBADF) = some s' →
      (s'.coroutines c).pc = .user ∧ (s'.coroutines c).returned = some (.failure .EBADF) := by
    intro kind finished
    cases finished
    rw [returns, coroutines_setCoroutine_self]
    exact ⟨rfl, rfl⟩
  rw [origin] at ran
  split at ran
  · rename_i call' pc
    rw [InCall, pc] at inCall
    cases inCall
    split at ran
    · rename_i honest
      rw [honest.mp closed] at ran
      exact returned ran
    · cases ran
  · rename_i call' pc
    rw [InCall, pc] at inCall
    cases inCall
    split at ran
    · rename_i honest
      rw [honest.mp closed] at ran
      cases kind : call.kind with
      | connect timeout =>
          rw [kind] at ran
          exact returned ran
      | read =>
          rw [kind] at ran
          exact returned ran
      | write =>
          rw [kind] at ran
          exact returned ran
      | accept =>
          rw [kind] at ran
          exact returned ran
    · cases ran
  · cases ran

/-- **Hooked calls stay on their file.** In a run in which `socket` and `accept`
never hand out a number on which a hooked call is in progress, whenever a call
that began on a file uses the original function, its descriptor still denotes
that file; or it is closed, and the call ends with `EBADF`. -/
theorem calls_stay_on_file [DecidableEq W] {files : Nat → Option File} {nextFile : Nat}
    {labels : List (Label W)} {w : W} {c : Nat} {call : Call W} {file : File} {answer : Answer}
    (run : Run (Guarded NumberUnused (Steps step)) (init files nextFile) labels s)
    (running : (s.workers w).phase = .running c) (inCall : s.InCall c call)
    (began : call.file = some file) (ran : s.step (.origin w answer) = some s') :
    s.files call.fd = some file ∨
      s.files call.fd = none ∧ (s'.coroutines c).pc = .user ∧
        (s'.coroutines c).returned = some (.failure .EBADF) := by
  have on : s.OnFile := run.invariant (I := OnFile) (onFile_init files nextFile)
    fun on both => on.step both.1 both.2
  rcases on c call file inCall began with same | closed
  · exact Or.inl same
  · refine Or.inr ⟨closed, origin_closed inCall closed (?_ : s.origin c answer = some s')⟩
    rcases step_cases ran with ⟨_, _, other, _⟩ | ⟨_, other, _⟩ | ⟨_, _, other, _⟩ |
      ⟨_, _, _, other, _⟩ | ⟨_, other, _⟩ | ⟨c', running', ran'⟩
    · cases other
    · cases other
    · cases other
    · cases other
    · cases other
    · cases running.symm.trans running'
      exact ran'

/-! ## Two runs of one worker -/

theorem numberUnused_of_quiet (quiet : handedOut label = none) : NumberUnused s label := by
  intro fd handed
  rw [quiet] at handed
  cases handed

theorem run_of_quiet [DecidableEq W] {labels : List (Label W)}
    (quiet : ∀ label ∈ labels, handedOut label = none) (ran : exec step s labels = some s') :
    Run (Guarded NumberUnused (Steps step)) s labels s' := by
  induction labels generalizing s with
  | nil =>
      cases ran
      exact Run.nil _
  | cons label labels ih =>
      obtain ⟨m, first, rest⟩ := Option.bind_eq_some_iff.mp ran
      exact Run.cons ⟨numberUnused_of_quiet (quiet label List.mem_cons_self), first⟩
        (ih (fun label member => quiet label (List.mem_cons_of_mem _ member)) rest)

/-- A worker in a process that has its first five descriptors in use, with a
coroutine that has opened socket 5. -/
def oneWorker : System Unit := init (fun fd => if fd < 5 then some ⟨fd, false⟩ else none) 5

/-- Coroutine 0 is started. -/
def started : System Unit := (exec step oneWorker [.schedule () 0, .take ()]).get (by decide)

/-- Coroutine 0 opens socket 5. -/
def opened : System Unit := (exec step started [.socket () 5]).get (by decide)

/-- Coroutine 0 is suspended in a read of socket 5, and coroutine 1 closes it. -/
def closed : System Unit :=
  (exec step opened
    [.begin () .read 5, .origin () (.failure .EAGAIN), .addTimer () 0 0, .addEvent () false,
      .schedule () 1, .take (), .close () 5, .closeOrigin ()]).get (by decide)

/-- Coroutine 0 is resumed. -/
def resumed : System Unit := (exec step closed [.leave (), .take ()]).get (by decide)

/-- Coroutine 1 opens another socket first, which gets the number 5 again. -/
def reused : System Unit :=
  (exec step closed [.socket () 5, .leave (), .take ()]).get (by decide)

/-- The call of coroutine 0. -/
def readOf5 : Call Unit where
  kind := .read
  fd := 5
  timeout := -1
  serial := 0
  worker := ()
  file := some ⟨5, true⟩

theorem started_idle (c : Nat) (call : Call Unit) : ¬started.InCall c call := by
  intro inCall
  cases c <;> cases inCall

/-- A read of a socket that was closed under it ends with `EBADF`. -/
theorem read_after_close :
    resumed.files 5 = some ⟨5, true⟩ ∨ resumed.files 5 = none ∧
      (((resumed.step (.origin () (.failure .EBADF))).get (by decide)).coroutines 0).pc = .user ∧
      (((resumed.step (.origin () (.failure .EBADF))).get (by decide)).coroutines 0).returned =
        some (.failure .EBADF) := by
  have start : Run (Guarded NumberUnused (Steps step)) oneWorker _ started :=
    run_of_quiet (by decide) (exec_get _)
  have socket : Run (Guarded NumberUnused (Steps step)) started [.socket () 5] opened :=
    Run.single ⟨fun _ _ c call inCall => absurd inCall (started_idle c call), rfl⟩
  have rest : Run (Guarded NumberUnused (Steps step)) opened _ closed :=
    run_of_quiet (by decide) (exec_get _)
  have last : Run (Guarded NumberUnused (Steps step)) closed _ resumed :=
    run_of_quiet (by decide) (exec_get _)
  exact calls_stay_on_file (((start.append socket).append rest).append last) rfl
    (show resumed.InCall 0 readOf5 from rfl) rfl (Option.some_get _).symm

/-- A read that goes on, on another socket than the one it began on. -/
theorem not_calls_stay_on_file : ∃ labels, Run (Steps step) oneWorker labels reused ∧
    (reused.workers ()).phase = .running 0 ∧ reused.InCall 0 readOf5 ∧
    readOf5.file = some ⟨5, true⟩ ∧ reused.files readOf5.fd = some ⟨6, true⟩ ∧
    (reused.step (.origin () .success)).isSome = true := by
  have start : Run (Steps step) oneWorker _ started := run_of_exec (exec_get _)
  have socket : Run (Steps step) started _ opened := run_of_exec (exec_get _)
  have rest : Run (Steps step) opened _ closed := run_of_exec (exec_get _)
  have last : Run (Steps step) closed _ reused := run_of_exec (exec_get _)
  exact ⟨_, ((start.append socket).append rest).append last, rfl, rfl, rfl, rfl, by decide⟩

end Reyao.System
