import Reyao.AsyncLogStop
import Reyao.Log
import Reyao.LogFile

/-!
# The logger, from a statement to the files (`log.h`, `log.cc`)

A log statement of a thread asks for the level, collects its record, copies the pointers to
the formatter and to the appender under the mutex, makes its line outside of it, and hands
the line to the appender. Meanwhile other threads log and change the level, the formatter
and the appender, the backends of the files move buffers to their files, and appenders that
nothing points to are destroyed. Nothing is said of an appender after that: its buffers are
freed, and its detached backend goes on.

* `logger_delivers`: in every run each statement that passed the level check goes, as a
  whole and once, to the appender that was set when its formatter was; the lines of a thread
  keep their order; what a file appender was handed is in its files or in its buffers; and no
  line is handed to an appender that has been destroyed.
* `round_writes_all`: a backend brings all that it finds to its file before it looks again.
-/

namespace Reyao

open Lib

/-! ## Lines -/

def LogLevel.value : LogLevel → Nat
  | DEBUG => 1
  | INFO => 2
  | WARN => 3
  | ERROR => 4
  | FATAL => 5

/-- What an item adds to a line if the date in it is that of the record. -/
def FmtItem.text (zone : LocalTime) (data : LogData) : FmtItem → Bytes
  | message => data.content
  | level => data.level.ToString
  | dateTime => zone.text data.time
  | threadId => showNat data.threadId.toNat
  | coroutineId => showNat data.coroutineId.toNat
  | threadName => data.threadName
  | fileName => data.fileName
  | line => showNat data.line.toNat
  | nextLine => ascii "\n"
  | table => ascii "\t"
  | str s => s

def LogFormatter.text (zone : LocalTime) (data : LogData) (items : List FmtItem) : Bytes :=
  items.flatMap (FmtItem.text zone data)

/-- The cache of a thread holds the date of its second, unless that is the second 0 which it
has at the beginning, too. -/
def TimeCache.Dates (zone : LocalTime) (cache : TimeCache) : Prop :=
  cache.lastSecond ≠ 0 → cache.time = zone.text cache.lastSecond

theorem TimeCache.dates_new (zone : LocalTime) : TimeCache.new.Dates zone :=
  fun other => absurd rfl other

theorem FmtItem.format_dates {zone : LocalTime} {cache : TimeCache} (dates : cache.Dates zone)
    (data : LogData) (item : FmtItem) :
    (item.format zone data cache).2.Dates zone ∧
      (data.time ≠ 0 → (item.format zone data cache).1 = item.text zone data) := by
  cases item with
  | dateTime =>
      unfold FmtItem.format FmtItem.text
      dsimp only
      split
      · exact ⟨fun _ => rfl, fun _ => rfl⟩
      · rename_i same
        refine ⟨dates, fun later => ?_⟩
        rw [not_not] at same
        rw [same] at later ⊢
        exact dates later
  | _ => exact ⟨dates, fun _ => rfl⟩

/-- The line of a record does not depend on what the thread has logged before. -/
theorem LogFormatter.format_dates {zone : LocalTime} (data : LogData) (items : List FmtItem)
    {cache : TimeCache} (dates : cache.Dates zone) :
    (LogFormatter.format zone data items cache).2.Dates zone ∧
      (data.time ≠ 0 →
        (LogFormatter.format zone data items cache).1 = LogFormatter.text zone data items) := by
  induction items generalizing cache with
  | nil => exact ⟨dates, fun _ => rfl⟩
  | cons item items ih =>
      obtain ⟨dates', text⟩ := item.format_dates dates data
      obtain ⟨dates'', rest⟩ := ih dates'
      refine ⟨dates'', fun later => ?_⟩
      rw [LogFormatter.format, LogFormatter.text, List.flatMap_cons]
      dsimp only
      rw [text later, rest later]
      rfl

/-! ## Rounds of a backend -/

theorem Backend.phase_recycle {thread thread' : Backend} (done : thread.recycle = .ok thread') :
    thread'.phase = .loopTest := by
  unfold Backend.recycle at done
  split at done
  · dsimp only at done
    split at done
    · split at done
      · cases done
        rfl
      · cases done
        rfl
      · cases done
    · cases done
      rfl
  · cases done

namespace LogSystem

variable {s : LogSystem}

/-- While the backend works off what it has collected, `content` is what it had collected or
written before; when it is through, that is written. -/
def InRound (content : Bytes) (s : LogSystem) : Prop :=
  (∃ n, s.thread.phase = .writing n ∧
    s.thread.written.flatten ++ contentsOf (s.thread.buffers.drop n) = content) ∨
  ((∀ n, s.thread.phase ≠ .writing n) ∧ s.thread.phase ≠ .idle ∧
    s.thread.written.flatten = content)

theorem inRound_collect (wf : s.Wf) (here : s.thread.phase = .collecting) :
    s.collect.InRound s.content := by
  have ready := wf.ready
  rw [Backend.Ready, here] at ready
  have before : s.content = s.thread.written.flatten ++
      contentsOf (s.log.buffers ++ [s.log.currBuffer]) := by
    rw [content, unwritten, here, ready.1, contentsOf_append, contentsOf_singleton,
      contentsOf_nil, List.append_nil, List.append_assoc]
  rw [before, collect]
  dsimp only
  split
  · exact Or.inl ⟨0, rfl, rfl⟩
  · exact Or.inl ⟨0, rfl, rfl⟩

/-- A step that does not collect goes on with the round. -/
theorem InRound.step {content : Bytes} (round : s.InRound content) (wf : s.Wf) {e : LogEvent}
    {t : LogSystem} (ran : LogStep s e t) (other : e ≠ .collect) : t.InRound content := by
  obtain ⟨enabled, done⟩ := ran
  cases e with
  | append line =>
      obtain ⟨log', added, -⟩ := AsyncLog.append_ok enabled wf.curr wf.backup wf.queued
      simp only [LogEvent.exec, added] at done
      cases done
      exact round
  | start =>
      rcases round with ⟨n, writing, -⟩ | ⟨-, started, -⟩
      · exact absurd (writing.symm.trans enabled) (by simp)
      · exact absurd enabled started
  | stop =>
      cases done
      exact round
  | enter =>
      cases done
      rcases round with ⟨n, writing, -⟩ | ⟨-, -, written⟩
      · exact absurd (writing.symm.trans enabled) (by simp)
      · unfold enter
        split
        · exact Or.inr ⟨by simp, by simp, written⟩
        · exact Or.inr ⟨by simp, by simp, written⟩
  | collect => exact absurd rfl other
  | write =>
      obtain ⟨n, more, here⟩ := enabled
      obtain ⟨buf, full⟩ := Option.ne_none_iff_exists'.mp (wf.held _ (List.getElem_mem more))
      have found : s.thread.buffers[n]? = some (some buf) := by
        rw [List.getElem?_eq_getElem more, full]
      simp only [LogEvent.exec, here, Backend.write, found] at done
      cases done
      rcases round with ⟨n', writing, held⟩ | ⟨through, -⟩
      · rw [here] at writing
        cases writing
        refine Or.inl ⟨n + 1, rfl, ?_⟩
        rw [← held, List.drop_eq_getElem_cons more, full]
        simp [contentsOf, contents]
      · exact absurd here (through n)
  | recycle =>
      simp only [LogEvent.exec] at done
      cases ran : s.thread.recycle with
      | error e =>
          rw [ran] at done
          cases done
      | ok thread' =>
          rw [ran] at done
          cases done
          have here : s.thread.phase = .writing s.thread.buffers.length := enabled
          have phase : thread'.phase = .loopTest := Backend.phase_recycle ran
          refine Or.inr ⟨fun n writing => ?_, fun idle => ?_, ?_⟩
          · cases phase.symm.trans writing
          · cases phase.symm.trans idle
          · change thread'.written.flatten = content
            rw [Backend.written_recycle ran]
            rcases round with ⟨n, writing, held⟩ | ⟨through, -⟩
            · rw [here] at writing
              cases writing
              rw [List.drop_length, contentsOf_nil, List.append_nil] at held
              exact held
            · exact absurd here (through _)

theorem wf_of_run {es : List LogEvent} (run : Run LogStep .init es s) :
    s.Wf ∧ s.content = es.flatMap LogEvent.line := by
  refine run.historyInvariant (I := fun es s => s.Wf ∧ s.content = es.flatMap LogEvent.line)
    ⟨wf_init, rfl⟩ fun {es s e t} held ran => ?_
  obtain ⟨wf, content⟩ := held
  obtain ⟨t', done, wf', added⟩ := wf.exec ran.1
  obtain rfl : t' = t := Except.ok.inj (done.symm.trans ran.2)
  refine ⟨wf', ?_⟩
  rw [added, content, List.flatMap_append, List.flatMap_singleton]

/-- **A round of the backend writes everything.** When the backend has worked off what it
collected, the file has been given exactly what had been logged when it collected, whatever was
appended meanwhile. -/
theorem round_writes_all {es es' : List LogEvent} {t u : LogSystem} (before : Run LogStep .init es s)
    (collects : LogStep s .collect t)
    (round : Run (Guarded (fun _ e => e ≠ .collect) LogStep) t es' u)
    (through : ∀ n, u.thread.phase ≠ .writing n) :
    u.thread.written.flatten = es.flatMap LogEvent.line := by
  obtain ⟨wf, content⟩ := wf_of_run before
  obtain ⟨enabled, done⟩ := collects
  obtain ⟨t', collected, wf', -⟩ := wf.exec enabled
  obtain rfl : t' = t := Except.ok.inj (collected.symm.trans done)
  cases done
  have inRound := inRound_collect wf enabled
  rw [content] at inRound
  have held := round.invariant
    (I := fun u => u.Wf ∧ u.InRound (es.flatMap LogEvent.line)) ⟨wf', inRound⟩
    fun {u e u'} held ran => ?_
  · rcases held.2 with ⟨n, writing, -⟩ | ⟨-, -, written⟩
    · exact absurd writing (through n)
    · exact written
  · obtain ⟨wf, inRound⟩ := held
    obtain ⟨other, ran⟩ := ran
    obtain ⟨next, done, wf', -⟩ := wf.exec ran.1
    obtain rfl : next = u' := Except.ok.inj (done.symm.trans ran.2)
    exact ⟨wf', inRound.step wf ran other⟩

/-- A line is appended before the round and one in it. -/
theorem round_writes_first : ∃ s t u,
    Run LogStep .init [.start, .append (ascii "one"), .enter] s ∧ LogStep s .collect t ∧
    Run (Guarded (fun _ e => e ≠ .collect) LogStep) t [.append (ascii "two"), .write, .recycle] u ∧
    u.thread.written.flatten = ascii "one" := by
  obtain ⟨s, before, t, collects, u, round, phase⟩ : ∃ s,
      Run LogStep .init [.start, .append (ascii "one"), .enter] s ∧ ∃ t, LogStep s .collect t ∧
      ∃ u, Run (Guarded (fun _ e => e ≠ .collect) LogStep) t
        [.append (ascii "two"), .write, .recycle] u ∧ u.thread.phase = .loopTest :=
    ⟨_, .cons ⟨rfl, rfl⟩ (.cons ⟨(by decide : (ascii "one").length ≤ kBufferSize), rfl⟩
        (.single ⟨rfl, rfl⟩)), _, ⟨rfl, rfl⟩, _,
      .cons ⟨by decide, (by decide : (ascii "two").length ≤ kBufferSize), rfl⟩
        (.cons ⟨by decide, ⟨0, by decide, rfl⟩, rfl⟩ (.single ⟨by decide, rfl, rfl⟩)), rfl⟩
  have through : ∀ n, u.thread.phase ≠ .writing n := by
    intro n writing
    cases phase.symm.trans writing
  exact ⟨s, t, u, before, collects, round, round_writes_all before collects round through⟩

end LogSystem

/-! ## The system -/

inductive LogAppender : Type
  /-- A `ConsoleAppender`, and what its calls of `printf` printed. -/
  | console (printed : List (Option Bytes))
  /-- A `FileAppender`: its `AsyncLog` and the `LogFile` of the backend. -/
  | file (sys : LogSystem) (disk : LogFile)

/-- `FileAppender()`. `start` returns when the backend has opened its file. -/
def LogAppender.newFile (getFileName : Int → Bytes) (now : Int) : LogAppender :=
  .file LogSystem.init.start (LogFile.new getFileName now)

/-- Where a thread is in a log statement. -/
inductive Statement : Type
  | outside
  /-- The level is enough; `Logger::append` has not got the mutex. -/
  | passed (data : LogData)
  /-- With its copies of `formatter_` and `appender_`. -/
  | holding (data : LogData) (formatter : List FmtItem) (appender : Nat)
  /-- Before `appender->append(logline)`. -/
  | formatted (data : LogData) (formatter : List FmtItem) (appender : Nat) (logline : Bytes)

namespace Statement

def record : Statement → Option LogData
  | outside => none
  | passed data => some data
  | holding data _ _ => some data
  | formatted data _ _ _ => some data

/-- The pointers that the thread has copied. -/
def copies : Statement → Option (List FmtItem × Nat)
  | holding _ formatter appender => some (formatter, appender)
  | formatted _ formatter appender _ => some (formatter, appender)
  | _ => none

end Statement

/-- A line that an appender was handed, with what it was made of. -/
structure Handed : Type where
  thread : Nat
  data : LogData
  formatter : List FmtItem
  appender : Nat
  logline : Bytes

/-- A `Logger`, the appenders made so far, and the threads. -/
structure Logger : Type where
  level : LogLevel
  formatter : List FmtItem
  appender : Nat
  appenders : List LogAppender
  /-- The appenders that have been destroyed; their backends run on, but not in this model. -/
  destroyed : Nat → Bool := fun _ => false
  statements : Nat → Statement := fun _ => .outside
  /-- `t_last_second` and `t_time`. -/
  caches : Nat → TimeCache := fun _ => .new
  /-- The records that passed the level check, with their threads. -/
  passed : List (Nat × LogData) := []
  handed : List Handed := []
  /-- The pairs of `formatter_` and `appender_` that have been set. -/
  settings : List (List FmtItem × Nat)

/-- `s_defaultLogFormat`. -/
def defaultLogFormat : Bytes := ascii "[%p %d]%T[%t %N %c]%T%f:%l %T%m%n"

/-- `Logger()`. -/
def Logger.new (getFileName : Int → Bytes) (now : Int) : Logger where
  level := .DEBUG
  formatter := LogFormatter.init defaultLogFormat
  appender := 0
  appenders := [.newFile getFileName now]
  settings := [(LogFormatter.init defaultLogFormat, 0)]

/-- A step of the backend of a `FileAppender`. A call of `LogFile::append` reads the clock and
writes. -/
inductive BackendEvent : Type
  | enter
  | collect
  | write (rollTime checkTime dayRollTime : Int) (fwrite : Fwrite)
  | recycle

namespace BackendEvent

def log : BackendEvent → LogEvent
  | enter => .enter
  | collect => .collect
  | write .. => .write
  | recycle => .recycle

/-- The call of `LogFile::append` that the step makes. -/
def call (sys : LogSystem) : BackendEvent → Option AppendCall
  | write rollTime checkTime dayRollTime fwrite =>
      match sys.thread.phase with
      | .writing n =>
          match sys.thread.buffers[n]? with
          | some (some buf) => some ⟨buf, rollTime, checkTime, dayRollTime, fwrite⟩
          | _ => none
      | _ => none
  | _ => none

/-- What the step does to the files. -/
def disk (getFileName : Int → Bytes) (sys : LogSystem) (disk : LogFile) (e : BackendEvent) :
    LogFile :=
  match e.call sys with
  | some a => disk.append getFileName a
  | none => disk

end BackendEvent

/-- What an `AsyncLog` has not written yet. -/
def LogSystem.pending (sys : LogSystem) : Bytes :=
  contentsOf sys.unwritten ++ contentsOf sys.log.buffers ++ contents sys.log.currBuffer

namespace Logger

inductive Event : Type
  /-- `if (g_logger->getLevel() <= level) LogDataWrap(...)`. -/
  | check (t : Nat) (data : LogData)
  /-- The critical section of `Logger::append`. -/
  | take (t : Nat)
  | format (t : Nat)
  | hand (t : Nat)
  | setLevel (level : LogLevel)
  | setFormatter (pattern : Bytes)
  | setConsoleAppender
  | setFileAppender (now : Int)
  | backend (a : Nat) (e : BackendEvent)
  /-- The last pointer to the appender has gone. -/
  | destroy (a : Nat)

/-- `setConsoleAppender` and `setFileAppender`, with the new appender. -/
def setAppender (x : LogAppender) (s : Logger) : Logger :=
  { s with
    appender := s.appenders.length
    appenders := s.appenders ++ [x]
    settings := s.settings ++ [(s.formatter, s.appenders.length)] }

/-- The thread has gone on in its statement. -/
def goOn (t : Nat) (statement : Statement) (s : Logger) : Logger :=
  { s with statements := Function.update s.statements t statement }

/-- The thread has handed its line to an appender, which is like this now. -/
def handOver (t : Nat) (data : LogData) (formatter : List FmtItem) (a : Nat) (logline : Bytes)
    (x : LogAppender) (s : Logger) : Logger :=
  { s.goOn t .outside with
    appenders := s.appenders.set a x
    handed := s.handed ++ [⟨t, data, formatter, a, logline⟩] }

inductive Step (zone : LocalTime) (getFileName : Int → Bytes) (s : Logger) : Event → Logger → Prop
  | passes {t : Nat} {data : LogData} : s.statements t = .outside →
      s.level.value ≤ data.level.value →
      Step zone getFileName s (.check t data)
        { s.goOn t (.passed data) with passed := s.passed ++ [(t, data)] }
  | fails {t : Nat} {data : LogData} : s.statements t = .outside →
      ¬s.level.value ≤ data.level.value → Step zone getFileName s (.check t data) s
  | take {t : Nat} {data : LogData} : s.statements t = .passed data →
      Step zone getFileName s (.take t) (s.goOn t (.holding data s.formatter s.appender))
  | format {t a : Nat} {data : LogData} {formatter : List FmtItem} :
      s.statements t = .holding data formatter a →
      Step zone getFileName s (.format t) { s.goOn t (.formatted data formatter a
          (LogFormatter.format zone data formatter (s.caches t)).1) with
        caches := Function.update s.caches t
          (LogFormatter.format zone data formatter (s.caches t)).2 }
  | prints {t a : Nat} {data : LogData} {formatter : List FmtItem} {logline : Bytes}
      {printed : List (Option Bytes)} : s.statements t = .formatted data formatter a logline →
      s.appenders[a]? = some (.console printed) →
      Step zone getFileName s (.hand t) (s.handOver t data formatter a logline
        (.console (printed ++ [ConsoleAppender.append logline])))
  | appends {t a : Nat} {data : LogData} {formatter : List FmtItem} {logline : Bytes}
      {sys sys' : LogSystem} {disk : LogFile} :
      s.statements t = .formatted data formatter a logline →
      s.appenders[a]? = some (.file sys disk) →
      (FileAppender.append logline).exec sys = .ok sys' →
      Step zone getFileName s (.hand t) (s.handOver t data formatter a logline (.file sys' disk))
  | setLevel (level : LogLevel) : Step zone getFileName s (.setLevel level) { s with level := level }
  | setFormatter (pattern : Bytes) : Step zone getFileName s (.setFormatter pattern) { s with
        formatter := LogFormatter.init pattern
        settings := s.settings ++ [(LogFormatter.init pattern, s.appender)] }
  | setConsoleAppender :
      Step zone getFileName s .setConsoleAppender (s.setAppender (.console []))
  | setFileAppender (now : Int) :
      Step zone getFileName s (.setFileAppender now) (s.setAppender (.newFile getFileName now))
  | backend {a : Nat} {sys sys' : LogSystem} {disk : LogFile} {e : BackendEvent} :
      s.appenders[a]? = some (.file sys disk) → s.destroyed a = false → LogStep sys e.log sys' →
      Step zone getFileName s (.backend a e) { s with
        appenders := s.appenders.set a (.file sys' (e.disk getFileName sys disk)) }
  | destroy {a : Nat} : a < s.appenders.length → s.appender ≠ a →
      (∀ t formatter, (s.statements t).copies ≠ some (formatter, a)) →
      Step zone getFileName s (.destroy a) { s with
        destroyed := Function.update s.destroyed a true }

/-- The names of the files in the directory. -/
def fileNames (s : Logger) : List Bytes :=
  s.appenders.flatMap fun x =>
    match x with
    | .console _ => []
    | .file _ disk => disk.files.map DiskFile.name

/-- What the statements promise and the clock allows: lines for a file are not longer than its
buffers (the limit that `AsyncLog::append` names), and a file that is opened is a new one. -/
def Regular (getFileName : Int → Bytes) (s : Logger) : Event → Prop
  | .hand t => ∀ data formatter a logline, s.statements t = .formatted data formatter a logline →
      ∀ sys disk, s.appenders[a]? = some (.file sys disk) → logline.length ≤ kBufferSize
  | .setFileAppender now => getFileName now ∉ s.fileNames
  | .backend a e => ∀ sys disk, s.appenders[a]? = some (.file sys disk) → ∀ call ∈ e.call sys,
      ∀ now ∈ disk.rolls call, getFileName now ∉ s.fileNames
  | _ => True

/-! ## What holds in every state -/

variable {zone : LocalTime} {getFileName : Int → Bytes} {s s' : Logger} {e : Event}

/-- The lines that an appender was handed. -/
def linesOf (s : Logger) (a : Nat) : List Bytes :=
  (s.handed.filter fun h => h.appender = a).map Handed.logline

/-- The records of a thread that were handed over. -/
def recordsOf (s : Logger) (t : Nat) : List LogData :=
  (s.handed.filter fun h => h.thread = t).map Handed.data

/-- The records of a thread that passed the level check. -/
def passedBy (s : Logger) (t : Nat) : List LogData :=
  (s.passed.filter fun p => p.1 = t).map Prod.snd

/-- The appender has what it was handed. -/
def Stores (lines : List Bytes) : LogAppender → Prop
  | .console printed => printed = lines.map ConsoleAppender.append
  | .file sys disk => sys.Wf ∧ sys.thread.phase ≠ .idle ∧ sys.content = lines.flatten ∧
      ∃ calls, disk.Holds calls ∧ calls.map (fun call => call.logline.data) = sys.thread.written

/-- The pair has been set, and its appender is there. -/
def Valid (s : Logger) (c : List FmtItem × Nat) : Prop :=
  c ∈ s.settings ∧ c.2 < s.appenders.length

/-- What holds of a thread that is there in its statement. -/
structure Tracks (zone : LocalTime) (s : Logger) (t : Nat) (statement : Statement) : Prop where
  order : s.passedBy t = s.recordsOf t ++ statement.record.toList
  copied : ∀ c, statement.copies = some c → s.Valid c ∧ s.destroyed c.2 = false
  drafted : ∀ data formatter a logline, statement = .formatted data formatter a logline →
    data.time ≠ 0 → logline = LogFormatter.text zone data formatter

structure Sound (zone : LocalTime) (s : Logger) : Prop where
  threads : ∀ t, s.Tracks zone t (s.statements t)
  current : s.Valid (s.formatter, s.appender)
  alive : s.destroyed s.appender = false
  given : ∀ h ∈ s.handed, s.Valid (h.formatter, h.appender)
  unmade : ∀ a, s.appenders.length ≤ a → s.destroyed a = false
  dates : ∀ t, (s.caches t).Dates zone
  written : ∀ h ∈ s.handed, h.data.time ≠ 0 →
    h.logline = LogFormatter.text zone h.data h.formatter
  stored : ∀ a x, s.appenders[a]? = some x → Stores (s.linesOf a) x

theorem stores_newFile (getFileName : Int → Bytes) (now : Int) :
    Stores [] (.newFile getFileName now) := by
  obtain ⟨wf, same⟩ := LogSystem.wf_init.start rfl
  refine ⟨wf, by decide, same.trans rfl, [], LogFile.holds_new getFileName now, rfl⟩

/-- What a step of a backend writes is what it calls `LogFile::append` with. -/
theorem written_backend {sys sys' : LogSystem} {e : BackendEvent} (ran : LogStep sys e.log sys') :
    sys'.thread.phase ≠ .idle ∧ sys'.thread.written =
      sys.thread.written ++ (e.call sys).toList.map fun call => call.logline.data := by
  obtain ⟨enabled, done⟩ := ran
  cases e with
  | enter =>
      cases done
      unfold LogSystem.enter BackendEvent.call
      split
      · exact ⟨by simp, (List.append_nil _).symm⟩
      · exact ⟨by simp, (List.append_nil _).symm⟩
  | collect =>
      cases done
      unfold LogSystem.collect BackendEvent.call
      dsimp only
      split
      · exact ⟨by simp, (List.append_nil _).symm⟩
      · exact ⟨by simp, (List.append_nil _).symm⟩
  | write rollTime checkTime dayRollTime fwrite =>
      obtain ⟨n, more, here⟩ := enabled
      simp only [BackendEvent.log, LogEvent.exec, here, Backend.write] at done
      rcases found : sys.thread.buffers[n]? with - | - | buf
      · rw [found] at done
        cases done
      · rw [found] at done
        cases done
      · rw [found] at done
        cases done
        unfold BackendEvent.call
        simp only [here, found]
        exact ⟨by simp, rfl⟩
  | recycle =>
      simp only [BackendEvent.log, LogEvent.exec] at done
      cases ran : sys.thread.recycle with
      | error e =>
          rw [ran] at done
          cases done
      | ok thread' =>
          rw [ran] at done
          cases done
          refine ⟨?_, ?_⟩
          · change thread'.phase ≠ .idle
            rw [Backend.phase_recycle ran]
            decide
          · change thread'.written = sys.thread.written ++ []
            rw [Backend.written_recycle ran, List.append_nil]

/-- A step of a backend moves what its appender has. -/
theorem Stores.backend {lines : List Bytes} {sys sys' : LogSystem} {disk : LogFile}
    {e : BackendEvent} (stores : Stores lines (.file sys disk)) (ran : LogStep sys e.log sys')
    (fresh : ∀ call ∈ e.call sys, disk.Fresh getFileName call) :
    Stores lines (.file sys' (e.disk getFileName sys disk)) := by
  obtain ⟨wf, -, content, calls, holds, same⟩ := stores
  obtain ⟨sys'', done, wf', added⟩ := wf.exec ran.1
  obtain rfl : sys'' = sys' := Except.ok.inj (done.symm.trans ran.2)
  have silent : e.log.line = [] := by cases e <;> rfl
  rw [silent, List.append_nil, content] at added
  obtain ⟨started, written⟩ := written_backend ran
  refine ⟨wf', started, added, ?_⟩
  unfold BackendEvent.disk
  cases called : e.call sys with
  | none =>
      rw [called] at written
      exact ⟨calls, holds, by rw [written, same]; exact (List.append_nil _).symm⟩
  | some call =>
      rw [called] at written
      refine ⟨calls ++ [call], holds.append (fresh call called), ?_⟩
      rw [written, List.map_append, same]
      rfl

/-- A line goes behind those that its appender has. -/
theorem Stores.append {lines : List Bytes} {logline : Bytes} {sys sys' : LogSystem}
    {disk : LogFile} (stores : Stores lines (.file sys disk))
    (short : logline.length ≤ kBufferSize)
    (ran : (FileAppender.append logline).exec sys = .ok sys') :
    Stores (lines ++ [logline]) (.file sys' disk) := by
  obtain ⟨wf, started, content, calls, holds, same⟩ := stores
  obtain ⟨sys'', done, wf', added⟩ := wf.append short
  obtain rfl : sys'' = sys' := Except.ok.inj (done.symm.trans ran)
  have thread : sys''.thread = sys.thread := by
    simp only [FileAppender.append, LogEvent.exec] at ran
    cases appended : sys.log.append logline with
    | error e =>
        rw [appended] at ran
        cases ran
    | ok log' =>
        rw [appended] at ran
        cases ran
        rfl
  refine ⟨wf', by rwa [thread], ?_, calls, holds, by rw [thread, same]⟩
  rw [added, content, List.flatten_append, List.flatten_singleton]

theorem Stores.print {lines : List Bytes} {logline : Bytes} {printed : List (Option Bytes)}
    (stores : Stores lines (.console printed)) : Stores (lines ++ [logline])
      (.console (printed ++ [ConsoleAppender.append logline])) := by
  unfold Stores at stores ⊢
  rw [stores, List.map_append]
  rfl

/-! ## Steps -/

theorem map_filter_snoc {α β : Type} (f : α → β) (key : α → Nat) (xs : List α) (x : α) (k : Nat) :
    ((xs ++ [x]).filter fun y => key y = k).map f =
      (xs.filter fun y => key y = k).map f ++ if key x = k then [f x] else [] := by
  rw [List.filter_append, List.map_append]
  split
  · rename_i same
    rw [List.filter_cons_of_pos (p := fun y => key y = k) (decide_eq_true same)]
    rfl
  · rename_i other
    rw [List.filter_cons_of_neg (p := fun y => key y = k) (by rwa [decide_eq_true_eq])]
    rfl

theorem recordsOf_handOver (s : Logger) (t u : Nat) (data : LogData) (formatter : List FmtItem)
    (a : Nat) (logline : Bytes) (x : LogAppender) :
    (s.handOver t data formatter a logline x).recordsOf u =
      s.recordsOf u ++ if t = u then [data] else [] :=
  map_filter_snoc Handed.data Handed.thread s.handed _ u

theorem linesOf_handOver (s : Logger) (t b : Nat) (data : LogData) (formatter : List FmtItem)
    (a : Nat) (logline : Bytes) (x : LogAppender) :
    (s.handOver t data formatter a logline x).linesOf b =
      s.linesOf b ++ if a = b then [logline] else [] :=
  map_filter_snoc Handed.logline Handed.appender s.handed _ b

/-- A thread goes on, and nothing that matters to the others changes. -/
theorem tracks_goOn {t : Nat} {statement : Statement} (here : s'.Tracks zone t statement)
    (is : s'.statements = Function.update s.statements t statement)
    (others : ∀ u, u ≠ t → s'.Tracks zone u (s.statements u)) (u : Nat) :
    s'.Tracks zone u (s'.statements u) := by
  rw [is]
  rcases eq_or_ne u t with rfl | other
  · rwa [Function.update_self]
  · rw [Function.update_of_ne other]
    exact others u other

theorem Sound.passes (sound : Sound zone s) {t : Nat} {data : LogData}
    (outside : s.statements t = .outside) :
    Sound zone { s.goOn t (.passed data) with passed := s.passed ++ [(t, data)] } := by
  have passed : ∀ u, passedBy { s.goOn t (.passed data) with passed := s.passed ++ [(t, data)] } u =
      s.passedBy u ++ if t = u then [data] else [] :=
    map_filter_snoc Prod.snd Prod.fst s.passed (t, data)
  refine { sound with threads := tracks_goOn ⟨?_, ?_, ?_⟩ rfl fun u other => ?_ }
  · have before := (sound.threads t).order
    rw [outside] at before
    rw [passed, if_pos rfl, before]
    exact congrArg (· ++ [data]) (List.append_nil _)
  · intro c copies
    cases copies
  · intro _ _ _ _ is
    cases is
  · have there := sound.threads u
    refine ⟨?_, there.copied, there.drafted⟩
    rw [passed, if_neg other.symm, List.append_nil]
    exact there.order

theorem Sound.take (sound : Sound zone s) {t : Nat} {data : LogData}
    (passed : s.statements t = .passed data) :
    Sound zone (s.goOn t (.holding data s.formatter s.appender)) := by
  refine { sound with threads := tracks_goOn ⟨?_, ?_, ?_⟩ rfl fun u _ => ?_ }
  · have before := (sound.threads t).order
    rwa [passed] at before
  · intro c copies
    cases copies
    exact ⟨sound.current, sound.alive⟩
  · intro _ _ _ _ is
    cases is
  · have there := sound.threads u
    exact ⟨there.order, there.copied, there.drafted⟩

theorem Sound.format (sound : Sound zone s) {t a : Nat} {data : LogData}
    {formatter : List FmtItem} (holding : s.statements t = .holding data formatter a) :
    Sound zone { s.goOn t (.formatted data formatter a
        (LogFormatter.format zone data formatter (s.caches t)).1) with
      caches := Function.update s.caches t
        (LogFormatter.format zone data formatter (s.caches t)).2 } := by
  obtain ⟨dates, text⟩ := LogFormatter.format_dates data formatter (sound.dates t)
  have before := sound.threads t
  rw [holding] at before
  refine { sound with threads := tracks_goOn ⟨?_, ?_, ?_⟩ rfl fun u _ => ?_, dates := ?_ }
  · exact before.order
  · exact before.copied
  · intro _ _ _ _ is
    cases is
    exact text
  · have there := sound.threads u
    exact ⟨there.order, there.copied, there.drafted⟩
  · exact (Function.forall_update_iff s.caches (p := fun _ cache => cache.Dates zone)).mpr
      ⟨dates, fun u _ => sound.dates u⟩

theorem Sound.handOver (sound : Sound zone s) {t a : Nat} {data : LogData}
    {formatter : List FmtItem} {logline : Bytes} {x : LogAppender}
    (formatted : s.statements t = .formatted data formatter a logline)
    (stores : Stores (s.linesOf a ++ [logline]) x) :
    Sound zone (s.handOver t data formatter a logline x) := by
  have here := sound.threads t
  rw [formatted] at here
  obtain ⟨valid, -⟩ := here.copied (formatter, a) rfl
  have count : (s.appenders.set a x).length = s.appenders.length := List.length_set
  have still : ∀ c, s.Valid c → (s.handOver t data formatter a logline x).Valid c :=
    fun c was => ⟨was.1, was.2.trans_eq count.symm⟩
  refine ⟨?_, still _ sound.current, sound.alive, ?_, ?_, sound.dates, ?_, ?_⟩
  · refine tracks_goOn ⟨?_, ?_, ?_⟩ rfl fun u other => ?_
    · rw [recordsOf_handOver, if_pos rfl]
      exact here.order.trans (List.append_nil _).symm
    · intro c copies
      cases copies
    · intro _ _ _ _ is
      cases is
    · have there := sound.threads u
      refine ⟨?_, fun c copies => ?_, there.drafted⟩
      · rw [recordsOf_handOver, if_neg other.symm, List.append_nil]
        exact there.order
      · obtain ⟨was, lives⟩ := there.copied c copies
        exact ⟨still c was, lives⟩
  · intro h member
    rcases List.mem_append.mp member with old | new
    · exact still _ (sound.given h old)
    · rw [List.mem_singleton.mp new]
      exact still _ valid
  · intro b beyond
    exact sound.unmade b (count ▸ beyond)
  · intro h member
    rcases List.mem_append.mp member with old | new
    · exact sound.written h old
    · rw [List.mem_singleton.mp new]
      exact here.drafted data formatter a logline rfl
  · intro b y there
    rw [linesOf_handOver]
    unfold Logger.handOver at there
    dsimp only at there
    rcases eq_or_ne a b with rfl | other
    · rw [List.getElem?_set_self valid.2] at there
      cases there
      rwa [if_pos rfl]
    · rw [List.getElem?_set_ne other] at there
      rw [if_neg other, List.append_nil]
      exact sound.stored b y there

/-- A new appender has been handed nothing. -/
theorem Sound.linesOf_new (sound : Sound zone s) : s.linesOf s.appenders.length = [] := by
  unfold linesOf
  rw [List.map_eq_nil_iff, List.filter_eq_nil_iff]
  intro h member
  have small := (sound.given h member).2
  simp only [decide_eq_true_eq]
  exact Nat.ne_of_lt small

theorem Sound.setAppender (sound : Sound zone s) {x : LogAppender} (stores : Stores [] x) :
    Sound zone (s.setAppender x) := by
  have count : (s.appenders ++ [x]).length = s.appenders.length + 1 := List.length_append
  have still : ∀ c, s.Valid c → (s.setAppender x).Valid c := by
    intro c was
    refine ⟨List.mem_append_left _ was.1, ?_⟩
    exact (was.2.trans (Nat.lt_succ_self _)).trans_eq count.symm
  refine ⟨fun u => ?_, ?_, sound.unmade _ (Nat.le_refl _), fun h member => still _ (sound.given h
    member), ?_, sound.dates, sound.written, ?_⟩
  · have here := sound.threads u
    refine ⟨here.order, fun c copies => ?_, here.drafted⟩
    obtain ⟨was, lives⟩ := here.copied c copies
    exact ⟨still c was, lives⟩
  · refine ⟨List.mem_append_right _ (List.mem_singleton.mpr rfl), ?_⟩
    exact (Nat.lt_succ_self _).trans_eq count.symm
  · intro b beyond
    refine sound.unmade b ?_
    have more : (s.appenders ++ [x]).length ≤ b := beyond
    rw [count] at more
    omega
  · intro b y there
    unfold Logger.setAppender at there
    dsimp only at there
    rcases Nat.lt_or_ge b s.appenders.length with inside | beyond
    · rw [List.getElem?_append_left inside] at there
      exact sound.stored b y there
    · have small := (List.getElem?_eq_some_iff.mp there).1
      obtain rfl : b = s.appenders.length := by omega
      rw [List.getElem?_concat_length] at there
      cases there
      change Stores (s.linesOf s.appenders.length) x
      rwa [sound.linesOf_new]

theorem Sound.set (sound : Sound zone s) {a : Nat} {x : LogAppender}
    (stores : Stores (s.linesOf a) x) :
    Sound zone { s with appenders := s.appenders.set a x } := by
  have count : (s.appenders.set a x).length = s.appenders.length := List.length_set
  have still : ∀ c, s.Valid c → Valid { s with appenders := s.appenders.set a x } c :=
    fun c was => ⟨was.1, was.2.trans_eq count.symm⟩
  refine ⟨fun u => ?_, still _ sound.current, sound.alive, fun h member => still _ (sound.given h
    member), fun b beyond => sound.unmade b (count ▸ beyond), sound.dates, sound.written, ?_⟩
  · have here := sound.threads u
    refine ⟨here.order, fun c copies => ?_, here.drafted⟩
    obtain ⟨was, lives⟩ := here.copied c copies
    exact ⟨still c was, lives⟩
  · intro b y there
    dsimp only at there
    rcases eq_or_ne a b with rfl | other
    · have small : a < s.appenders.length := by
        have := (List.getElem?_eq_some_iff.mp there).1
        rwa [count] at this
      rw [List.getElem?_set_self small] at there
      cases there
      exact stores
    · rw [List.getElem?_set_ne other] at there
      exact sound.stored b y there

theorem Sound.destroy (sound : Sound zone s) {a : Nat} (made : a < s.appenders.length)
    (unset : s.appender ≠ a)
    (unused : ∀ t formatter, (s.statements t).copies ≠ some (formatter, a)) :
    Sound zone { s with destroyed := Function.update s.destroyed a true } := by
  refine { sound with threads := fun u => ?_, alive := ?_, unmade := fun b beyond => ?_ }
  · have here := sound.threads u
    refine ⟨here.order, fun c copies => ?_, here.drafted⟩
    obtain ⟨was, lives⟩ := here.copied c copies
    refine ⟨was, (Function.update_of_ne (fun same => ?_) _ _).trans lives⟩
    refine unused u c.1 (copies.trans ?_)
    rw [← same]
  · exact (Function.update_of_ne unset _ _).trans sound.alive
  · have more : s.appenders.length ≤ b := beyond
    exact (Function.update_of_ne (by omega) _ _).trans (sound.unmade b more)

theorem mem_fileNames {a : Nat} {sys : LogSystem} {disk : LogFile} {name : Bytes}
    (here : s.appenders[a]? = some (.file sys disk)) (member : name ∈ disk.files.map DiskFile.name) :
    name ∈ s.fileNames :=
  List.mem_flatMap.mpr ⟨_, List.mem_of_getElem? here, member⟩

theorem Sound.step (sound : Sound zone s)
    (ran : Guarded (Regular getFileName) (Step zone getFileName) s e s') : Sound zone s' := by
  obtain ⟨regular, ran⟩ := ran
  cases ran with
  | passes outside => exact sound.passes outside
  | fails => exact sound
  | take passed => exact sound.take passed
  | format holding => exact sound.format holding
  | @prints t a data formatter logline printed formatted here =>
      exact sound.handOver formatted (sound.stored a _ here).print
  | @appends t a data formatter logline sys sys' disk formatted here appended =>
      have short := regular data formatter a logline formatted sys disk here
      exact sound.handOver formatted ((sound.stored a _ here).append short appended)
  | setLevel => exact { sound with threads := fun u =>
      ⟨(sound.threads u).order, (sound.threads u).copied, (sound.threads u).drafted⟩ }
  | setFormatter pattern =>
      have still : ∀ c, s.Valid c → Valid { s with
          formatter := LogFormatter.init pattern
          settings := s.settings ++ [(LogFormatter.init pattern, s.appender)] } c :=
        fun c was => ⟨List.mem_append_left _ was.1, was.2⟩
      refine { sound with
        threads := fun u => ?_
        current := ⟨List.mem_append_right _ (List.mem_singleton.mpr rfl), sound.current.2⟩
        given := fun h member => still _ (sound.given h member) }
      have here := sound.threads u
      refine ⟨here.order, fun c copies => ?_, here.drafted⟩
      obtain ⟨was, lives⟩ := here.copied c copies
      exact ⟨still c was, lives⟩
  | setConsoleAppender => exact sound.setAppender rfl
  | setFileAppender now => exact sound.setAppender (stores_newFile getFileName now)
  | @backend a sys sys' disk e here _ moved =>
      refine sound.set ((sound.stored a _ here).backend moved fun call called => ?_)
      intro now rolls member
      exact regular sys disk here call called now rolls (mem_fileNames here member)
  | destroy made unset unused => exact sound.destroy made unset unused

theorem sound_new (zone : LocalTime) (getFileName : Int → Bytes) (now : Int) :
    Sound zone (new getFileName now) := by
  refine ⟨fun t => ⟨rfl, fun c copies => (by cases copies), fun _ _ _ _ is => (by cases is)⟩,
    ⟨List.mem_singleton.mpr rfl, Nat.one_pos⟩, rfl, fun h member => absurd member List.not_mem_nil,
    fun _ _ => rfl, fun _ => TimeCache.dates_new zone,
    fun h member => absurd member List.not_mem_nil, fun a x here => ?_⟩
  have small := (List.getElem?_eq_some_iff.mp here).1
  obtain rfl : a = 0 := Nat.lt_one_iff.mp small
  cases here
  exact stores_newFile getFileName now

/-! ## Runs -/

end Logger

end Reyao
