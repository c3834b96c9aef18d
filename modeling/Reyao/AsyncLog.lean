import Reyao.Cxx
import Reyao.Lib.Run

/-!
# The asynchronous log (`fixedbuffer.h`, `asynclog.h`, `asynclog.cc`)

Producers append lines to `currBuffer_` under a mutex; the thread running
`threadFunc` takes the filled buffers over, hands empty ones back and writes what
it took to the log file. A `std::unique_ptr` is an option: `none` is null, and
moving from it leaves `none`.

What the file does with the bytes is not modelled here: `written` records the
calls of `LogFile::append`.
-/

namespace Reyao

open Lib

/-- The filled part of a `FixedBuffer<SIZE>`, which never exceeds the array. -/
structure FixedBuffer (size : Nat) : Type where
  data : Bytes
  fits : data.length ≤ size
  deriving DecidableEq, Repr

namespace FixedBuffer

variable {size : Nat}

/-- A new buffer. -/
def new : FixedBuffer size := ⟨[], Nat.zero_le size⟩

def avail (buf : FixedBuffer size) : Nat := size - buf.data.length

/-- `append(const char* data, size_t len)`: what does not fit is dropped. -/
def append (line : Bytes) (buf : FixedBuffer size) : FixedBuffer size :=
  if enough : size - buf.data.length ≥ line.length then
    ⟨buf.data ++ line, by
      have := buf.fits
      rw [List.length_append]
      omega⟩
  else buf

def reset (_buf : FixedBuffer size) : FixedBuffer size := new

end FixedBuffer

def kBufferSize : Nat := 4096

abbrev LogBuffer : Type := FixedBuffer kBufferSize

/-- `BufferUPtr`. -/
abbrev BufferUPtr : Type := Option LogBuffer

/-- The members producers and backend share. -/
structure AsyncLog : Type where
  running : Bool
  exit : Bool
  currBuffer : BufferUPtr
  backupBuffer : BufferUPtr
  buffers : List BufferUPtr
  deriving DecidableEq, Repr

/-- Where `threadFunc` stands: not started, at the loop test, before its critical
section, with the first `n` collected buffers written, or past the loop. -/
inductive BackendPhase : Type
  | idle
  | loopTest
  | collecting
  | writing (n : Nat)
  | finished
  deriving DecidableEq, Repr

/-- The local variables of `threadFunc`. -/
structure Backend : Type where
  phase : BackendPhase
  firstBuffer : BufferUPtr
  secondBuffer : BufferUPtr
  buffers : List BufferUPtr
  /-- What `logfile.append` was called with. -/
  written : List Bytes
  deriving DecidableEq, Repr

structure LogSystem : Type where
  log : AsyncLog
  thread : Backend
  deriving DecidableEq, Repr

/-- `AsyncLog()`, before its thread is started. -/
def LogSystem.init : LogSystem where
  log := ⟨false, false, some .new, some .new, []⟩
  thread := ⟨.idle, none, none, [], []⟩

/-- `append(const char* logline, size_t len)`. The call of `cond_.notify()` only
ends a wait that may end at any time. -/
def AsyncLog.append (line : Bytes) (log : AsyncLog) : Except Fault AsyncLog :=
  match log.currBuffer with
  | none => .error .outOfBounds
  | some curr =>
      if curr.avail > line.length then
        .ok { log with currBuffer := some (curr.append line) }
      else
        let log := { log with buffers := log.buffers ++ [some curr], currBuffer := none }
        let log := match log.backupBuffer with
          | some backup => { log with currBuffer := some backup, backupBuffer := none }
          | none => { log with currBuffer := some .new }
        match log.currBuffer with
        | none => .error .outOfBounds
        | some curr => .ok { log with currBuffer := some (curr.append line) }

/-- `start()`: the thread sets up its locals. -/
def LogSystem.start (s : LogSystem) : LogSystem where
  log := { s.log with running := true }
  thread := ⟨.loopTest, some .new, some .new, [], []⟩

/-- `stop()`. -/
def AsyncLog.stop (log : AsyncLog) : AsyncLog := { log with exit := true }

/-- The loop test and the check of `exit_`. -/
def LogSystem.enter (s : LogSystem) : LogSystem :=
  if s.log.running then
    { log := if s.log.exit then { s.log with running := false } else s.log
      thread := { s.thread with phase := .collecting } }
  else { s with thread := { s.thread with phase := .finished } }

/-- The critical section, after the wait in it if there was one. -/
def LogSystem.collect (s : LogSystem) : LogSystem :=
  let log := { s.log with
    buffers := s.log.buffers ++ [s.log.currBuffer]
    currBuffer := s.thread.firstBuffer }
  let thread := { s.thread with firstBuffer := none }
  let (log, thread) :=
    if log.backupBuffer.isNone then
      ({ log with backupBuffer := thread.secondBuffer }, { thread with secondBuffer := none })
    else (log, thread)
  { log := { log with buffers := thread.buffers }
    thread := { thread with buffers := log.buffers, phase := .writing 0 } }

/-- `logfile.append(buf->data(), buf->size())` for the collected buffer `n`. -/
def Backend.write (n : Nat) (thread : Backend) : Except Fault Backend :=
  match thread.buffers[n]? with
  | some (some buf) =>
      .ok { thread with written := thread.written ++ [buf.data], phase := .writing (n + 1) }
  | _ => .error .outOfBounds

/-- The reuse of written buffers after the loop over them. -/
def Backend.recycle (thread : Backend) : Except Fault Backend :=
  match thread.buffers with
  | some first :: rest =>
      let thread := { thread with firstBuffer := some first.reset, phase := .loopTest }
      if thread.secondBuffer.isNone then
        match rest with
        | [] => .ok { thread with secondBuffer := some .new, buffers := [] }
        | some second :: _ => .ok { thread with secondBuffer := some second.reset, buffers := [] }
        | none :: _ => .error .outOfBounds
      else .ok { thread with buffers := [] }
  | _ => .error .outOfBounds

/-- A step of a producer, of the owner of the log, or of the backend. -/
inductive LogEvent : Type
  | append (line : Bytes)
  | start
  | stop
  | enter
  | collect
  | write
  | recycle
  deriving DecidableEq, Repr

namespace LogEvent

/-- Which steps can be taken: lines have at most `kBufferSize` bytes, and the
backend goes through its phases. -/
def Enabled (s : LogSystem) : LogEvent → Prop
  | append line => line.length ≤ kBufferSize
  | start => s.thread.phase = .idle
  | stop => True
  | enter => s.thread.phase = .loopTest
  | collect => s.thread.phase = .collecting
  | write => ∃ n < s.thread.buffers.length, s.thread.phase = .writing n
  | recycle => s.thread.phase = .writing s.thread.buffers.length

def exec (s : LogSystem) : LogEvent → Except Fault LogSystem
  | append line => do return { s with log := ← s.log.append line }
  | start => return s.start
  | stop => return { s with log := s.log.stop }
  | enter => return s.enter
  | collect => return s.collect
  | write =>
      match s.thread.phase with
      | .writing n => do return { s with thread := ← s.thread.write n }
      | _ => return s
  | recycle => do return { s with thread := ← s.thread.recycle }

/-- The bytes a step brings in. -/
def line : LogEvent → Bytes
  | append line => line
  | _ => []

end LogEvent

def LogStep (s : LogSystem) (e : LogEvent) (s' : LogSystem) : Prop :=
  e.Enabled s ∧ e.exec s = .ok s'

end Reyao
