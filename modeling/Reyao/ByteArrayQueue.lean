import Reyao.ByteArraySpec
import Reyao.Lib.Fifo

/-!
# The byte buffer is a FIFO queue

`BufferOp` is a use of the buffer by the stream and its clients: plain writes
and reads, a receive into a write area (`SocketStream::read`) and a send out of
a read area (`SocketStream::write`). Every run of such uses from a new buffer is
a run of the queue of its unread bytes.
-/

namespace Reyao

open Lib

inductive BufferOp : Type
  | write (data : Bytes)
  | writeString (value : Bytes)
  /-- `getWriteArea(k)`, then `setWritePos` past the bytes received there. -/
  | recv (k : Nat) (data : Bytes)
  | read (n : Nat)
  | toString
  /-- `getReadArea(&k)`, then `setReadPos` past the `m` bytes sent from there. -/
  | send (k m : Nat)
  deriving DecidableEq, Repr

namespace BufferOp

/-- Perform the operation; the result is what it hands to its caller. -/
def exec : BufferOp → ByteArrayM Bytes
  | write data => do
      ByteArray.write data
      return []
  | writeString value => do
      ByteArray.writeString value
      return []
  | recv k data => do
      let area ← ByteArray.getWriteArea k
      ByteArray.fillArea area data
      return []
  | read n => ByteArray.read n
  | toString => ByteArray.toString
  | send k m => fun ba =>
      .ok (ba.bytesAt (ba.getReadArea k).1 m) (ba.setReadPos (ba.readPos + m))

/-- What a caller may ask for: sizes of an `int`, no more bytes received or sent
than the area has. -/
def Enabled (ba : ByteArray) : BufferOp → Prop
  | write data => data.length < 2 ^ 31
  | writeString value => value.length < 2 ^ 31
  | recv k data => k < 2 ^ 31 ∧ data.length ≤ k
  | read n => n < 2 ^ 31
  | toString => True
  | send k m => k < 2 ^ 31 ∧ m ≤ (ba.getReadArea k).2

/-- The bytes the operation brings into the buffer. -/
def input : BufferOp → Bytes
  | write data => data
  | writeString value => value
  | recv _ data => data
  | _ => []

/-- What a queue of bytes hands out for the operation, and what it keeps. -/
def queue (q : Bytes) : BufferOp → Bytes × Bytes
  | write data => ([], q ++ data)
  | writeString value => ([], q ++ value)
  | recv _ data => ([], q ++ data)
  | read n => (q.take n, q.drop n)
  | toString => (q, [])
  | send _ m => (q.take m, q.drop m)

/-- The bytes go in at the back and out at the front. -/
theorem queue_fifo (op : BufferOp) (q : Bytes) :
    q ++ op.input = (op.queue q).1 ++ (op.queue q).2 := by
  cases op with
  | read n => exact (List.append_nil q).trans (List.take_append_drop n q).symm
  | send k m => exact (List.append_nil q).trans (List.take_append_drop m q).symm
  | _ => rfl

end BufferOp

/-- An operation together with what it returned or threw. -/
structure BufferEvent : Type where
  op : BufferOp
  result : Except Fault Bytes

namespace BufferEvent

def written (e : BufferEvent) : Bytes := e.op.input

def taken (e : BufferEvent) : Bytes :=
  match e.result with
  | .ok out => out
  | .error _ => []

end BufferEvent

/-- The outcome of a member function: its result and the buffer it leaves. -/
def outcome {α : Type} : EStateM.Result Fault ByteArray α → Except Fault α × ByteArray
  | .ok a ba => (.ok a, ba)
  | .error e ba => (.error e, ba)

def BufferStep (ba : ByteArray) (e : BufferEvent) (ba' : ByteArray) : Prop :=
  e.op.Enabled ba ∧ outcome (e.op.exec ba) = (e.result, ba')

namespace ByteArray

variable {ba ba' : ByteArray}

/-- One operation on a well-formed buffer: it does what the queue of the unread bytes
does, unless it is a read of more than there is, which throws and changes nothing. -/
theorem Wf.exec (wf : ba.Wf) {op : BufferOp} (enabled : op.Enabled ba) :
    (∃ ba', op.exec ba = .ok (op.queue ba.unread).1 ba' ∧ ba'.Wf ∧
        ba'.unread = (op.queue ba.unread).2) ∨
      (∃ n, op = .read n ∧ ba.unread.length < n ∧
        op.exec ba = .error (.outOfRange "have no enough data to read") ba) := by
  cases op with
  | write data =>
      obtain ⟨ba', wrote, appended⟩ := wf.write enabled
      exact Or.inl ⟨ba', by rw [BufferOp.exec, bind_ok wrote]; rfl, appended.wf,
        appended.unread_eq⟩
  | writeString value =>
      obtain ⟨ba', wrote, appended⟩ := wf.write enabled
      exact Or.inl ⟨ba', by rw [BufferOp.exec, writeString, bind_ok wrote]; rfl, appended.wf,
        appended.unread_eq⟩
  | recv k data =>
      obtain ⟨small, within⟩ := enabled
      obtain ⟨mid, area, made, room⟩ := wf.getWriteArea small
      obtain ⟨ba', filled, appended⟩ := made.wf.fillArea (le_trans within room)
      refine Or.inl ⟨ba', by rw [BufferOp.exec, bind_ok area, bind_ok filled]; rfl,
        appended.wf, ?_⟩
      rw [appended.unread_eq, made.unread_eq, List.append_nil]
      rfl
  | read n =>
      rcases Nat.lt_or_ge ba.unread.length n with short | enough
      · exact Or.inr ⟨n, rfl, short, wf.read_error short⟩
      · have consumed := wf.setReadPos enough
        exact Or.inl ⟨_, wf.read_ok enough, consumed.wf wf, consumed.unread_eq⟩
  | toString =>
      obtain ⟨ba', text, consumed⟩ := wf.toString
      refine Or.inl ⟨ba', text, consumed.wf wf, ?_⟩
      rw [consumed.unread_eq, List.drop_length]
      rfl
  | send k m =>
      obtain ⟨-, within⟩ := enabled
      have le : m ≤ ba.unread.length := by
        rw [getReadArea, wf.getReadSize_eq] at within
        dsimp only at within
        split at within <;> omega
      have consumed := wf.setReadPos le
      refine Or.inl ⟨_, ?_, consumed.wf wf, consumed.unread_eq⟩
      rw [BufferOp.exec, BufferOp.queue, ← wf.bytesAt_readPos le]
      rfl

/-- A step of the buffer is a step of the queue of its unread bytes. -/
theorem Wf.step (wf : ba.Wf) {e : BufferEvent} (step : BufferStep ba e ba') :
    ba'.Wf ∧ Fifo.Step BufferEvent.written BufferEvent.taken ba.unread e ba'.unread := by
  obtain ⟨op, result⟩ := e
  obtain ⟨enabled, done⟩ := step
  have enabled : op.Enabled ba := enabled
  rcases wf.exec enabled with ⟨ba₁, ok, wf₁, kept⟩ | ⟨n, rfl, -, threw⟩
  · rw [ok] at done
    cases done
    refine ⟨wf₁, ?_⟩
    rw [kept]
    exact op.queue_fifo ba.unread
  · rw [threw] at done
    cases done
    exact ⟨wf, List.append_nil _⟩

/-- From a new buffer, every run of uses is a run of the queue: the bytes written
are the bytes handed out followed by the unread ones, the only thing that fails is a read of
more than there is, which leaves the buffer as it was, and everything else hands out and
keeps what the queue of the unread bytes does. -/
theorem run_is_fifo (initSize : Nat) {es : List BufferEvent}
    (run : Run BufferStep (new initSize) es ba) :
    (kCheapPrepend ≤ ba.readPos ∧ ba.readPos ≤ ba.writePos ∧ ba.writePos ≤ ba.buf.length) ∧
      es.flatMap BufferEvent.written = es.flatMap BufferEvent.taken ++ ba.unread ∧
      (∀ n, (∃ e ba', read n ba = .error e ba') ↔ ba.unread.length < n) ∧
      (∀ n e ba', read n ba = .error e ba' → ba' = ba) ∧
      (∀ n, n ≤ ba.unread.length → ∃ ba', read n ba = .ok (ba.unread.take n) ba' ∧
        ba'.unread = ba.unread.drop n) ∧
      (∀ op : BufferOp, op.Enabled ba → (∀ n, op = .read n → n ≤ ba.unread.length) →
        ∃ ba', op.exec ba = .ok (op.queue ba.unread).1 ba' ∧
          ba'.unread = (op.queue ba.unread).2) := by
  obtain ⟨q, queueRun, wf, rfl⟩ := run.simulate
    (A := Fifo.Step BufferEvent.written BufferEvent.taken)
    (R := fun ba q => ba.Wf ∧ ba.unread = q) ⟨wf_new initSize, unread_new initSize⟩
    (fun related step => by
      obtain ⟨wf, rfl⟩ := related
      obtain ⟨wf', moved⟩ := wf.step step
      exact ⟨_, moved, wf', rfl⟩)
  refine ⟨⟨wf.prepend, wf.ordered, wf.inside⟩, Fifo.conservation queueRun, ?_, ?_,
    fun n enough => ⟨_, wf.read_ok enough, (wf.setReadPos enough).unread_eq⟩, ?_⟩
  · intro n
    constructor
    · rintro ⟨e, ba', threw⟩
      by_contra enough
      rw [wf.read_ok (Nat.le_of_not_lt enough)] at threw
      cases threw
    · exact fun short => ⟨_, _, wf.read_error short⟩
  · intro n e ba' threw
    rcases Nat.lt_or_ge ba.unread.length n with short | enough
    · rw [wf.read_error short] at threw
      cases threw
      rfl
    · rw [wf.read_ok enough] at threw
      cases threw
  · intro op enabled within
    rcases wf.exec enabled with ⟨ba', ok, -, kept⟩ | ⟨n, isRead, short, -⟩
    · exact ⟨ba', ok, kept⟩
    · exact absurd (within n isRead) (Nat.not_le.mpr short)

/-- Two bytes written into a buffer, one taken, and a read of five. -/
def shortUse : List BufferEvent :=
  [⟨.write [1, 2], .ok []⟩, ⟨.read 1, .ok [1]⟩,
    ⟨.read 5, .error (.outOfRange "have no enough data to read")⟩]

theorem short_use_is_fifo :
    ∃ ba : ByteArray, Run BufferStep (new 4) shortUse ba ∧
      shortUse.flatMap BufferEvent.written = shortUse.flatMap BufferEvent.taken ++ ba.unread := by
  obtain ⟨ba, run⟩ : ∃ ba, Run BufferStep (new 4) shortUse ba :=
    ⟨_, Run.cons ⟨by simp [BufferOp.Enabled], rfl⟩ (Run.cons ⟨by simp [BufferOp.Enabled], rfl⟩
      (Run.single ⟨by simp [BufferOp.Enabled], rfl⟩))⟩
  exact ⟨ba, run, (run_is_fifo 4 run).2.1⟩

end ByteArray

end Reyao
