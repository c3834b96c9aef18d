import Reyao.AsyncLog

/-!
# No log line is lost

Five buffers rotate between the producers and the backend. `LogSystem.content`
reads all the bytes in their order of arrival: those written, those the backend
holds, those queued and those in the current buffer. Every step keeps the
buffers sound (`LogSystem.Wf`) and adds to the content exactly the line it
brings in.
-/

namespace Reyao

open Lib

/-- The bytes behind a pointer. -/
def contents : BufferUPtr → Bytes
  | none => []
  | some buf => buf.data

/-- The bytes of a row of buffers. -/
def contentsOf (ps : List BufferUPtr) : Bytes := ps.flatMap contents

/-- What the backend's locals are in each phase. -/
def Backend.Ready (thread : Backend) : Prop :=
  match thread.phase with
  | .idle => thread.written = [] ∧ thread.buffers = []
  | .loopTest => thread.buffers = [] ∧ thread.firstBuffer ≠ none
  | .collecting => thread.buffers = [] ∧ thread.firstBuffer ≠ none
  | .writing n => n ≤ thread.buffers.length ∧ thread.buffers ≠ []
  | .finished => thread.buffers = []

namespace LogSystem

/-- The buffers the backend has collected and not yet written. -/
def unwritten (s : LogSystem) : List BufferUPtr :=
  match s.thread.phase with
  | .writing n => s.thread.buffers.drop n
  | _ => s.thread.buffers

/-- Everything that was logged, oldest first. -/
def content (s : LogSystem) : Bytes :=
  s.thread.written.flatten ++ contentsOf s.unwritten ++ contentsOf s.log.buffers ++
    contents s.log.currBuffer

/-- Where buffers are, and which of them hold nothing. -/
structure Wf (s : LogSystem) : Prop where
  curr : s.log.currBuffer ≠ none
  backup : contents s.log.backupBuffer = []
  first : contents s.thread.firstBuffer = []
  second : contents s.thread.secondBuffer = []
  queued : ∀ p ∈ s.log.buffers, p ≠ none
  held : ∀ p ∈ s.thread.buffers, p ≠ none
  ready : s.thread.Ready

end LogSystem

@[simp] theorem contentsOf_nil : contentsOf [] = [] := rfl

@[simp] theorem contentsOf_append (ps qs : List BufferUPtr) :
    contentsOf (ps ++ qs) = contentsOf ps ++ contentsOf qs := List.flatMap_append

@[simp] theorem contentsOf_singleton (p : BufferUPtr) : contentsOf [p] = contents p :=
  List.flatMap_singleton ..

/-- A line that fits is stored as a whole. -/
theorem FixedBuffer.data_append {size : Nat} {buf : FixedBuffer size} {line : Bytes}
    (room : line.length ≤ buf.avail) : (buf.append line).data = buf.data ++ line := by
  have room' : size - buf.data.length ≥ line.length := room
  rw [append, dif_pos room']

/-! ## Producers -/

/-- A line of at most `kBufferSize` bytes goes behind everything that is there, in
the current buffer or in an empty one that takes its place. -/
theorem AsyncLog.append_ok {log : AsyncLog} {line : Bytes} (short : line.length ≤ kBufferSize)
    (curr : log.currBuffer ≠ none) (backup : contents log.backupBuffer = [])
    (queued : ∀ p ∈ log.buffers, p ≠ none) :
    ∃ log', log.append line = .ok log' ∧ log'.currBuffer ≠ none ∧
      contents log'.backupBuffer = [] ∧ (∀ p ∈ log'.buffers, p ≠ none) ∧
      contentsOf log'.buffers ++ contents log'.currBuffer =
        contentsOf log.buffers ++ contents log.currBuffer ++ line := by
  obtain ⟨buf, here⟩ := Option.ne_none_iff_exists'.mp curr
  have pushed : ∀ p ∈ log.buffers ++ [some buf], p ≠ none := by
    intro p member
    rcases List.mem_append.mp member with old | new
    · exact queued p old
    · rw [List.mem_singleton] at new
      rw [new]
      exact Option.some_ne_none buf
  -- a buffer that takes over is empty, so a whole line fits
  have taken : ∀ spare : LogBuffer, spare.data = [] →
      contentsOf (log.buffers ++ [some buf]) ++ contents (some (spare.append line)) =
        contentsOf log.buffers ++ contents log.currBuffer ++ line := by
    intro spare empty
    have room : line.length ≤ spare.avail := by
      rw [FixedBuffer.avail, empty]
      exact short
    rw [contentsOf_append, contentsOf_singleton, here, contents, contents,
      FixedBuffer.data_append room, empty, List.nil_append]
  rw [AsyncLog.append, here]
  simp only
  by_cases room : buf.avail > line.length
  · rw [if_pos room]
    refine ⟨_, rfl, Option.some_ne_none _, backup, queued, ?_⟩
    rw [contents, FixedBuffer.data_append (le_of_lt room), ← List.append_assoc, contents]
  · rw [if_neg room]
    cases spare : log.backupBuffer with
    | none =>
        exact ⟨_, rfl, Option.some_ne_none _, rfl, pushed, here ▸ taken .new rfl⟩
    | some other =>
        rw [spare] at backup
        exact ⟨_, rfl, Option.some_ne_none _, rfl, pushed, here ▸ taken other backup⟩

/-! ## The backend -/

namespace LogSystem

variable {s : LogSystem}

theorem Wf.append (wf : s.Wf) {line : Bytes} (short : line.length ≤ kBufferSize) :
    ∃ s', (LogEvent.append line).exec s = .ok s' ∧ s'.Wf ∧ s'.content = s.content ++ line := by
  obtain ⟨log', done, curr, backup, queued, moved⟩ :=
    AsyncLog.append_ok short wf.curr wf.backup wf.queued
  refine ⟨{ s with log := log' }, ?_,
    ⟨curr, backup, wf.first, wf.second, queued, wf.held, wf.ready⟩, ?_⟩
  · simp only [LogEvent.exec, done]
    rfl
  · change s.thread.written.flatten ++ contentsOf s.unwritten ++ contentsOf log'.buffers ++
      contents log'.currBuffer = s.content ++ line
    rw [List.append_assoc, moved, content]
    simp only [List.append_assoc]

theorem Wf.start (wf : s.Wf) (idle : s.thread.phase = .idle) :
    s.start.Wf ∧ s.start.content = s.content := by
  have ready := wf.ready
  rw [Backend.Ready, idle] at ready
  obtain ⟨nothing, none_held⟩ := ready
  constructor
  · exact ⟨wf.curr, wf.backup, rfl, rfl, wf.queued,
      fun p member => absurd member List.not_mem_nil, ⟨rfl, Option.some_ne_none _⟩⟩
  · rw [content, content, unwritten, unwritten, idle]
    simp only [LogSystem.start, nothing, none_held]

theorem Wf.enter (wf : s.Wf) (here : s.thread.phase = .loopTest) :
    s.enter.Wf ∧ s.enter.content = s.content := by
  have ready := wf.ready
  rw [Backend.Ready, here] at ready
  obtain ⟨none_held, first⟩ := ready
  rw [LogSystem.enter]
  split
  · -- `running_` and `exit_` are no part of the buffers
    constructor
    · refine ⟨?_, ?_, wf.first, wf.second, ?_, wf.held, ⟨none_held, first⟩⟩
      all_goals dsimp only
      all_goals split
      all_goals first | exact wf.curr | exact wf.backup | exact wf.queued
    · rw [content, content, unwritten, unwritten, here]
      dsimp only
      split <;> rfl
  · constructor
    · exact ⟨wf.curr, wf.backup, wf.first, wf.second, wf.queued, wf.held, none_held⟩
    · rw [content, content, unwritten, unwritten, here]

/-- The critical section moves every buffer with bytes to the backend and puts
empty ones in their places. -/
theorem Wf.collect (wf : s.Wf) (here : s.thread.phase = .collecting) :
    s.collect.Wf ∧ s.collect.content = s.content := by
  have ready := wf.ready
  rw [Backend.Ready, here] at ready
  obtain ⟨none_held, first⟩ := ready
  have pushed : ∀ p ∈ s.log.buffers ++ [s.log.currBuffer], p ≠ none := by
    intro p member
    rcases List.mem_append.mp member with old | new
    · exact wf.queued p old
    · rw [List.mem_singleton] at new
      exact new ▸ wf.curr
  have moved : s.thread.written.flatten ++ contentsOf (s.log.buffers ++ [s.log.currBuffer]) ++
      contentsOf s.thread.buffers ++ contents s.thread.firstBuffer = s.content := by
    rw [content, unwritten, here]
    simp only [none_held, wf.first, contentsOf_append, contentsOf_singleton, contentsOf_nil,
      List.append_nil, List.append_assoc]
  have nothing : ∀ p ∈ s.thread.buffers, p ≠ none := wf.held
  have some_held : s.log.buffers ++ [s.log.currBuffer] ≠ [] := List.append_ne_nil_of_right_ne_nil _
    (List.cons_ne_nil _ _)
  rw [LogSystem.collect]
  dsimp only
  split
  · exact ⟨⟨first, wf.second, rfl, rfl, nothing, pushed, ⟨Nat.zero_le _, some_held⟩⟩, moved⟩
  · exact ⟨⟨first, wf.backup, rfl, wf.second, nothing, pushed, ⟨Nat.zero_le _, some_held⟩⟩, moved⟩

/-- Writing a buffer moves its bytes from the backend to the file. -/
theorem Wf.write (wf : s.Wf) {n : Nat} (more : n < s.thread.buffers.length)
    (here : s.thread.phase = .writing n) :
    ∃ s', LogEvent.write.exec s = .ok s' ∧ s'.Wf ∧ s'.content = s.content := by
  have ready := wf.ready
  rw [Backend.Ready, here] at ready
  have cut : s.thread.buffers.drop n =
      s.thread.buffers[n] :: s.thread.buffers.drop (n + 1) := List.drop_eq_getElem_cons more
  have found : s.thread.buffers[n]? = some s.thread.buffers[n] := List.getElem?_eq_getElem more
  obtain ⟨buf, full⟩ := Option.ne_none_iff_exists'.mp (wf.held _ (List.getElem_mem more))
  rw [full] at found cut
  refine ⟨{ s with thread := { s.thread with
      written := s.thread.written ++ [buf.data], phase := .writing (n + 1) } }, ?_,
    ⟨wf.curr, wf.backup, wf.first, wf.second, wf.queued, wf.held, ⟨more, ready.2⟩⟩, ?_⟩
  · simp only [LogEvent.exec, here, Backend.write, found]
    rfl
  · rw [content, content, unwritten, unwritten, here]
    simp only [cut, List.flatten_append, List.flatten_cons, List.flatten_nil, List.append_nil,
      contentsOf, List.flatMap_cons, contents, List.append_assoc]

/-- Written buffers are emptied before they go back into circulation. -/
theorem Wf.recycle (wf : s.Wf) (here : s.thread.phase = .writing s.thread.buffers.length) :
    ∃ s', LogEvent.recycle.exec s = .ok s' ∧ s'.Wf ∧ s'.content = s.content := by
  have ready := wf.ready
  rw [Backend.Ready, here] at ready
  have done : s.unwritten = [] := by
    rw [unwritten, here]
    exact List.drop_length
  have kept : ∀ thread : Backend, thread.written = s.thread.written → thread.buffers = [] →
      thread.phase = .loopTest → ({ s with thread := thread } : LogSystem).content = s.content := by
    intro thread written none_held phase
    rw [content, content, done, unwritten, phase]
    simp only [written, none_held]
  cases held : s.thread.buffers with
  | nil => exact absurd held ready.2
  | cons p rest =>
      have full := wf.held
      rw [held] at full
      obtain ⟨first, rfl⟩ := Option.ne_none_iff_exists'.mp (full p List.mem_cons_self)
      have result : ∃ thread', s.thread.recycle = .ok thread' ∧
          thread'.written = s.thread.written ∧ thread'.buffers = [] ∧
          thread'.phase = .loopTest ∧ thread'.firstBuffer = some first.reset ∧
          contents thread'.secondBuffer = [] := by
        rw [Backend.recycle, held]
        dsimp only
        split
        · cases rest with
          | nil => exact ⟨_, rfl, rfl, rfl, rfl, rfl, rfl⟩
          | cons q rest =>
              obtain ⟨second, rfl⟩ := Option.ne_none_iff_exists'.mp
                (full q (List.mem_cons_of_mem _ List.mem_cons_self))
              exact ⟨_, rfl, rfl, rfl, rfl, rfl, rfl⟩
        · exact ⟨_, rfl, rfl, rfl, rfl, rfl, wf.second⟩
      obtain ⟨thread', ran, written, none_held, phase, firstEq, second⟩ := result
      refine ⟨{ s with thread := thread' }, ?_, ⟨wf.curr, wf.backup, ?_, second, wf.queued, ?_, ?_⟩,
        kept thread' written none_held phase⟩
      · simp only [LogEvent.exec, ran]
        rfl
      · change contents thread'.firstBuffer = []
        rw [firstEq]
        rfl
      · intro p member
        rw [none_held] at member
        cases member
      · change thread'.Ready
        rw [Backend.Ready, phase, firstEq]
        exact ⟨none_held, Option.some_ne_none _⟩

/-! ## Runs -/

theorem wf_init : LogSystem.init.Wf :=
  ⟨Option.some_ne_none _, rfl, rfl, rfl, fun _ member => absurd member List.not_mem_nil,
    fun _ member => absurd member List.not_mem_nil, ⟨rfl, rfl⟩⟩

/-- Every enabled step can be taken, keeps the buffers sound and adds its line. -/
theorem Wf.exec (wf : s.Wf) {e : LogEvent} (enabled : e.Enabled s) :
    ∃ s', e.exec s = .ok s' ∧ s'.Wf ∧ s'.content = s.content ++ e.line := by
  cases e with
  | append line => exact wf.append enabled
  | start =>
      obtain ⟨wf', same⟩ := wf.start enabled
      exact ⟨_, rfl, wf', by rw [same]; exact (List.append_nil _).symm⟩
  | stop =>
      exact ⟨_, rfl, ⟨wf.curr, wf.backup, wf.first, wf.second, wf.queued, wf.held, wf.ready⟩,
        (List.append_nil _).symm⟩
  | enter =>
      obtain ⟨wf', same⟩ := wf.enter enabled
      exact ⟨_, rfl, wf', by rw [same]; exact (List.append_nil _).symm⟩
  | collect =>
      obtain ⟨wf', same⟩ := wf.collect enabled
      exact ⟨_, rfl, wf', by rw [same]; exact (List.append_nil _).symm⟩
  | write =>
      obtain ⟨n, more, here⟩ := enabled
      obtain ⟨s', ran, wf', same⟩ := wf.write more here
      exact ⟨s', ran, wf', by rw [same]; exact (List.append_nil _).symm⟩
  | recycle =>
      obtain ⟨s', ran, wf', same⟩ := wf.recycle enabled
      exact ⟨s', ran, wf', by rw [same]; exact (List.append_nil _).symm⟩

/-- **No line is lost, duplicated, reordered or torn.** Over any interleaving of
appends and backend steps, what was written, then what the backend holds, then
what is queued, then the current buffer, is the appended lines in order. The
current buffer is never null, the buffers to be handed out are null or empty,
and no step ever follows a null pointer. -/
theorem no_line_lost {es : List LogEvent} (run : Run LogStep .init es s) :
    s.thread.written.flatten ++ contentsOf s.unwritten ++ contentsOf s.log.buffers ++
        contents s.log.currBuffer = es.flatMap LogEvent.line ∧
      s.log.currBuffer ≠ none ∧
      (contents s.log.backupBuffer = [] ∧ contents s.thread.firstBuffer = [] ∧
        contents s.thread.secondBuffer = []) ∧
      (∀ e : LogEvent, e.Enabled s → ∃ s', LogStep s e s') := by
  obtain ⟨wf, total⟩ := run.historyInvariant
    (I := fun es s => s.Wf ∧ s.content = es.flatMap LogEvent.line) ⟨wf_init, rfl⟩
    (fun {es s e t} inv step => by
      obtain ⟨wf, total⟩ := inv
      obtain ⟨enabled, done⟩ := step
      obtain ⟨s', ran, wf', added⟩ := wf.exec enabled
      rw [ran] at done
      cases done
      refine ⟨wf', ?_⟩
      rw [added, total, List.flatMap_append, List.flatMap_singleton])
  refine ⟨total, wf.curr, ⟨wf.backup, wf.first, wf.second⟩, fun e enabled => ?_⟩
  obtain ⟨s', ran, -⟩ := wf.exec enabled
  exact ⟨s', enabled, ran⟩

/-- Two lines with a collection between them; the first one is written. -/
def twoLines : List LogEvent :=
  [.start, .append (ascii "one"), .enter, .collect, .append (ascii "two"), .write]

theorem twoLines_kept : ∃ s, Run LogStep .init twoLines s ∧
    s.thread.written.flatten ++ contentsOf s.unwritten ++ contentsOf s.log.buffers ++
      contents s.log.currBuffer = twoLines.flatMap LogEvent.line := by
  obtain ⟨s, run⟩ : ∃ s, Run LogStep .init twoLines s :=
    ⟨_, Run.cons ⟨rfl, rfl⟩ (Run.cons ⟨(by decide : (ascii "one").length ≤ kBufferSize), rfl⟩
      (Run.cons ⟨rfl, rfl⟩ (Run.cons ⟨rfl, rfl⟩
        (Run.cons ⟨(by decide : (ascii "two").length ≤ kBufferSize), rfl⟩
          (Run.single ⟨⟨0, by decide, rfl⟩, rfl⟩)))))⟩
  exact ⟨s, run, (no_line_lost run).1⟩

end LogSystem

end Reyao
