import Reyao.ByteArrayQueue
import Reyao.ByteArrayTyped

/-!
# The prepend area

`ArrayOp` has the public operations of the buffer, `writePrepend` and `reset` among
them. Those two leave the read position inside the prepend area, and a write from
there fails the assertion of `addCapacity` unless it grows the vector. `addCapacity` also takes
its size as an `int`. An operation does what it should exactly when it is `Roomy`.
-/

namespace Reyao

open Lib

/-- What a typed write call is given; a string may have any length. -/
inductive Written : Type
  | int (type : IntType) (value : Int) (inRange : type.InRange value)
  | float (bits : UInt32)
  | double (bits : UInt64)
  | string16 (s : Bytes)
  | string32 (s : Bytes)
  | string64 (s : Bytes)

namespace Written

def write (host : ByteOrder) : Written → ByteArrayM Unit
  | int type value _ => type.write host value
  | float bits => ByteArray.writeFloat host bits
  | double bits => ByteArray.writeDouble host bits
  | string16 s => ByteArray.writeString16 host s
  | string32 s => ByteArray.writeString32 host s
  | string64 s => ByteArray.writeString64 host s

/-- The number that is written, or the length of the string: its width and its pattern. -/
def word : Written → Nat × Nat
  | int type value _ => (type.width, pattern type.width value)
  | float bits => (4, bits.toNat)
  | double bits => (8, bits.toNat)
  | string16 s => (2, s.length % 2 ^ 16)
  | string32 s => (4, s.length % 2 ^ 32)
  | string64 s => (8, s.length)

/-- The bytes behind it. -/
def chars : Written → Bytes
  | string16 s | string32 s | string64 s => s
  | _ => []

end Written

inductive ArrayOp : Type
  | buffer (op : BufferOp)
  /-- A typed write. -/
  | put (v : Written)
  /-- A typed read. -/
  | get (t : ValueType)
  | writePrepend (data : Bytes)
  | reset
  | setEndian (endian : Int)

/-- The program does not go on after this. -/
def Fault.ends : Fault → Bool
  | .assertFailed => true
  | .outOfBounds => true
  | _ => false

namespace ArrayOp

/-- Perform the operation; the result is what it hands to its caller. -/
def exec (host : ByteOrder) : ArrayOp → ByteArrayM Datum
  | buffer op => return .string (← op.exec)
  | put v => do
      v.write host
      return .string []
  | get t => t.read host
  | writePrepend data => do
      ByteArray.writePrepend data
      return .string []
  | reset => do
      modify ByteArray.reset
      return .string []
  | setEndian endian => do
      modify (ByteArray.setEndian host endian)
      return .string []

/-- What a caller may do: no more bytes received or sent than the area has, and no more
put in front than there is room for. -/
def Enabled (ba : ByteArray) : ArrayOp → Prop
  | buffer (.recv k data) => data.length ≤ k
  | buffer (.send k m) => m ≤ (ba.getReadArea k).2
  | writePrepend data => data.length ≤ ba.readPos
  | _ => True

instance (ba : ByteArray) : (op : ArrayOp) → Decidable (op.Enabled ba)
  | buffer (.recv k data) => inferInstanceAs (Decidable (data.length ≤ k))
  | buffer (.send k m) => inferInstanceAs (Decidable (m ≤ (ba.getReadArea k).2))
  | writePrepend data => inferInstanceAs (Decidable (data.length ≤ ba.readPos))
  | buffer (.write _) | buffer (.writeString _) | buffer (.read _) | buffer .toString | put _
  | get _ | reset | setEndian _ => inferInstanceAs (Decidable True)

/-- `write(data)` as one call of `addCapacity`, unless `data` is empty. -/
def whole (data : Bytes) : List (Nat × Bytes) :=
  if data = [] then [] else [(data.length, data)]

/-- The calls of `addCapacity` that a writer makes, each with the bytes that are copied
behind it. -/
def puts (order : ByteOrder) : ArrayOp → List (Nat × Bytes)
  | buffer (.write data) => whole data
  | buffer (.writeString value) => whole value
  | buffer (.recv k data) => [(k, data)]
  | put v => whole (order.store v.word.1 v.word.2) ++ whole v.chars
  | _ => []

/-- The bytes that a writer puts behind the unread ones. -/
def appends (order : ByteOrder) : ArrayOp → Option Bytes
  | buffer (.write data) => some data
  | buffer (.writeString value) => some value
  | buffer (.recv _ data) => some data
  | put v => some (order.store v.word.1 v.word.2 ++ v.chars)
  | _ => none

/-- What a sequence of operations returns or throws, up to the end of the program. -/
def answers (host : ByteOrder) : List ArrayOp → ByteArray → List (Except Fault Datum)
  | [], _ => []
  | op :: ops, ba =>
      match op.exec host ba with
      | .ok d ba' => .ok d :: answers host ops ba'
      | .error e ba' => .error e :: if e.ends then [] else answers host ops ba'

/-- The operation does what it should: it does not fail the assertion, a prepend goes
in front of the unread bytes and a write behind them, and `reset` makes the buffer as
good as new. -/
structure Correct (host : ByteOrder) (ba : ByteArray) (op : ArrayOp) : Prop where
  asserts : ∀ ba', op.exec host ba ≠ .error .assertFailed ba'
  prepended : ∀ {data}, op = .writePrepend data →
    ∃ d ba', op.exec host ba = .ok d ba' ∧ ba'.unread = data ++ ba.unread
  appended : ∀ {data}, op.appends ba.endian = some data →
    ∃ d ba', op.exec host ba = .ok d ba' ∧ ba'.unread = ba.unread ++ data
  renewed : op = .reset → ∀ later, answers host later ba.reset = answers host later .fresh

/-- `addCapacity(n)` grows the vector, where there is room for `free` bytes behind the unread
ones and in front of them. The size is an `int`, and a `size_t` when it is compared. -/
def Grows (free n : Nat) : Prop := free < sizeAdd kCheapPrepend (toInt n)

instance (free n : Nat) : Decidable (Grows free n) :=
  inferInstanceAs (Decidable (free < sizeAdd kCheapPrepend (toInt n)))

/-- Each call of `addCapacity` makes room for the bytes that are copied behind it, where the
read position is `low`: the vector grows by enough, or the read position is behind the prepend
area and the vector has the room. -/
def Takes (free low : Nat) : List (Nat × Bytes) → Prop
  | [] => True
  | (n, data) :: rest =>
      (Grows free n ∧ data.length ≤ toInt n ∧
          Takes (low + ((toInt n).toNat - data.length)) low rest) ∨
        (¬Grows free n ∧ (kCheapPrepend ≤ low ∧ data.length + kCheapPrepend ≤ free) ∧
          Takes (free - data.length) kCheapPrepend rest)

/-- The operation is no `reset`, and finds the room it asks for. -/
def Roomy (ba : ByteArray) (op : ArrayOp) : Prop :=
  op ≠ .reset ∧ Takes (ba.getWriteSize + ba.readPos) ba.readPos (op.puts ba.endian)

end ArrayOp

/-- A step of the buffer that the program survives. -/
def ArrayStep (host : ByteOrder) (ba : ByteArray) (op : ArrayOp) (ba' : ByteArray) : Prop :=
  op.Enabled ba ∧ ((∃ d, op.exec host ba = .ok d ba') ∨
    ∃ e, op.exec host ba = .error e ba' ∧ e.ends = false)

/-! ## Readers -/

/-- A call that returns or throws, but does not fail an assertion, and leaves the
positions in order. -/
inductive Harmless {α : Type} : EStateM.Result Fault ByteArray α → Prop
  | ok {a : α} {ba : ByteArray} : ba.Bounded → Harmless (.ok a ba)
  | error {e : Fault} {ba : ByteArray} : e ≠ .assertFailed → ba.Bounded → Harmless (.error e ba)

theorem Harmless.bind {α β : Type} {x : ByteArrayM α} {f : α → ByteArrayM β} {ba : ByteArray}
    (first : Harmless (x ba)) (second : ∀ {a ba'}, ba'.Bounded → Harmless (f a ba')) :
    Harmless ((x >>= f) ba) := by
  cases ran : x ba with
  | ok a ba' =>
      rw [ran] at first
      cases first with
      | ok bounded =>
          rw [bind_ok ran]
          exact second bounded
  | error e ba' =>
      rw [ran] at first
      cases first with
      | error other bounded =>
          rw [bind_error ran]
          exact .error other bounded

theorem Harmless.map {α β : Type} {x : ByteArrayM α} {f : α → β} {ba : ByteArray}
    (first : Harmless (x ba)) : Harmless ((do return f (← x) : ByteArrayM β) ba) :=
  first.bind fun bounded => .ok bounded

namespace ByteArray

variable {ba : ByteArray}

theorem Bounded.harmless_read (bounded : ba.Bounded) (n : Nat) : Harmless (read n ba) := by
  rcases Nat.lt_or_ge ba.unread.length n with short | enough
  · rw [bounded.read_error short]
    exact .error (by decide) bounded
  · rw [bounded.read_ok enough]
    exact .ok (bounded.setReadPos enough).bounded

theorem Bounded.harmless_readWord (bounded : ba.Bounded) (host : ByteOrder) (w : Nat) :
    Harmless (ByteArray.readWord host w ba) :=
  (bounded.harmless_read w).bind fun bounded => .ok bounded

theorem Bounded.harmless_readChars (bounded : ba.Bounded) (len : Nat) :
    Harmless (readChars len ba) := by
  unfold readChars
  split
  · exact .error (by decide) bounded
  · exact bounded.harmless_read len

/-- A typed read is harmless. -/
theorem Bounded.harmless_readValue (bounded : ba.Bounded) (host : ByteOrder) (t : ValueType) :
    Harmless (t.read host ba) := by
  have word : ∀ w, Harmless (ByteArray.readWord host w ba) := bounded.harmless_readWord host
  have chars : ∀ w, Harmless ((do readChars (← ByteArray.readWord host w) : ByteArrayM Bytes) ba) :=
    fun w => (word w).bind fun bounded => bounded.harmless_readChars _
  cases t with
  | int type =>
      refine Harmless.map ?_
      cases type with
      | int8 => exact (bounded.harmless_read 1).map
      | uint8 => exact (bounded.harmless_read 1).map.map
      | int16 => exact (word 2).map
      | uint16 => exact (word 2).map
      | int32 => exact (word 4).map
      | uint32 => exact (word 4).map
      | int64 => exact (word 8).map
      | uint64 => exact (word 8).map
  | float => exact (word 4).map.map
  | double => exact (word 8).map.map
  | string16 => exact (chars 2).map
  | string32 => exact (chars 4).map
  | string64 => exact (chars 8).map

/-! ## Writers -/

/-- A call of `addCapacity(n)`, and the bytes copied behind it. -/
def putOne (n : Nat) (data : Bytes) : ByteArrayM Unit := do
  addCapacity (toInt n)
  fillArea (← get).writePos data

def putAll : List (Nat × Bytes) → ByteArrayM Unit
  | [] => return
  | (n, data) :: rest => do
      putOne n data
      putAll rest

theorem putAll_append (xs ys : List (Nat × Bytes)) :
    putAll (xs ++ ys) = (do putAll xs; putAll ys) := by
  induction xs with
  | nil => exact (pure_bind _ _).symm
  | cons x xs ih =>
      rw [List.cons_append, putAll, putAll, ih, bind_assoc]

theorem putAll_single (n : Nat) (data : Bytes) : putAll [(n, data)] = putOne n data := by
  rw [putAll, putAll]
  exact bind_pure _

theorem putAll_whole (data : Bytes) : putAll (ArrayOp.whole data) = ByteArray.write data := by
  unfold ByteArray.write
  by_cases empty : data = []
  · rw [ArrayOp.whole, if_pos empty, if_pos (List.length_eq_zero_iff.mpr empty)]
    rfl
  · rw [ArrayOp.whole, if_neg empty, if_neg (fun none => empty (List.length_eq_zero_iff.mp none)),
      putAll_single]
    rfl

/-- Bytes that do not fit behind the write position. -/
theorem fillArea_error {data : Bytes} (full : ba.buf.length < ba.writePos + data.length) :
    fillArea ba.writePos data ba = .error .outOfBounds ba := by
  have copies : copyIn ba.writePos data ba = .error .outOfBounds ba :=
    if_neg (Nat.not_le.mpr full)
  exact bind_error copies

/-- A call that has the room puts its bytes behind the unread ones. -/
theorem Bounded.putOne_grows (bounded : ba.Bounded) {n k : Nat} (size : toInt n = k)
    (grows : ba.getWriteSize + ba.readPos < kCheapPrepend + k) {data : Bytes}
    (room : data.length ≤ k) :
    ∃ ba', putOne n data ba = .ok () ba' ∧ ba'.Bounded ∧ ba'.unread = ba.unread ++ data ∧
      ba'.endian = ba.endian ∧ ba'.readPos = ba.readPos ∧
      ba'.getWriteSize = k - data.length := by
  obtain ⟨mid, grown, bounded', unread, order, same, left⟩ := bounded.addCapacity_grow grows
  obtain ⟨ba', filled, bounded'', unread', order', same', left'⟩ :=
    bounded'.fillArea (left ▸ room)
  refine ⟨ba', ?_, bounded'', ?_, order'.trans order, same'.trans same, by omega⟩
  · rw [putOne, size]
    exact (bind_ok grown).trans filled
  · rw [unread', unread]

theorem Wf.putOne_slides (wf : ba.Wf) {n : Nat}
    (slides : ¬ArrayOp.Grows (ba.getWriteSize + ba.readPos) n) {data : Bytes}
    (room : data.length + kCheapPrepend ≤ ba.getWriteSize + ba.readPos) :
    ∃ ba', putOne n data ba = .ok () ba' ∧ ba'.Bounded ∧ ba'.unread = ba.unread ++ data ∧
      ba'.endian = ba.endian ∧ ba'.readPos = kCheapPrepend ∧
      ba'.getWriteSize + ba'.readPos = ba.getWriteSize + ba.readPos - data.length := by
  obtain ⟨mid, slid, appended, left⟩ := wf.addCapacity_slides slides
  have front : mid.readPos = kCheapPrepend := by
    rw [ArrayOp.Grows] at slides
    rw [ByteArray.addCapacity, if_neg slides, if_pos wf.prepend] at slid
    cases slid
    rfl
  have fits : data.length ≤ mid.getWriteSize := by omega
  obtain ⟨ba', filled, bounded', unread', order', same', left'⟩ :=
    appended.wf.toBounded.fillArea fits
  refine ⟨ba', (bind_ok slid).trans filled, bounded', ?_, order'.trans appended.endian_eq,
    same'.trans front, by omega⟩
  rw [unread', appended.unread_eq, List.append_nil]

/-- Where the vector grows by too little it ends before the bytes do. -/
theorem putOne_grows_error {n : Nat} {data : Bytes}
    (grows : ArrayOp.Grows (ba.getWriteSize + ba.readPos) n)
    (more : toInt n < data.length) : ∃ e ba', putOne n data ba = .error e ba' := by
  rw [ArrayOp.Grows] at grows
  rw [putOne]
  generalize toInt n = size at grows more ⊢
  cases made : ByteArray.addCapacity size ba with
  | error e ba' => exact ⟨e, ba', bind_error made⟩
  | ok u mid =>
      have ends : mid.buf.length < mid.writePos + data.length := by
        rw [ByteArray.addCapacity, if_pos grows] at made
        split at made
        · cases made
          rw [List.length_append, List.length_take, List.length_replicate]
          change _ < ba.writePos + data.length
          omega
        · cases made
      exact ⟨_, _, (bind_ok made).trans (fillArea_error ends)⟩

/-- Where it does not grow, the read position is in the prepend area or the room is short. -/
theorem Bounded.putOne_slides_error (bounded : ba.Bounded) {n : Nat} {data : Bytes}
    (slides : ¬ArrayOp.Grows (ba.getWriteSize + ba.readPos) n)
    (short : ¬(kCheapPrepend ≤ ba.readPos ∧
      data.length + kCheapPrepend ≤ ba.getWriteSize + ba.readPos)) :
    ∃ e ba', putOne n data ba = .error e ba' := by
  by_cases low : kCheapPrepend ≤ ba.readPos
  · obtain ⟨mid, slid, appended, left⟩ := (bounded.wf low).addCapacity_slides slides
    have write := appended.wf.getWriteSize_eq
    have inside := appended.wf.inside
    have ends : mid.buf.length < mid.writePos + data.length := by omega
    exact ⟨_, _, (bind_ok slid).trans (fillArea_error ends)⟩
  · refine ⟨.assertFailed, ba, bind_error ?_⟩
    rw [ArrayOp.Grows] at slides
    rw [ByteArray.addCapacity, if_neg slides, if_neg low]

/-- Calls that all have the room put their bytes behind the unread ones, and others throw or
end the program. -/
def Decided (ba : ByteArray) (calls : List (Nat × Bytes)) : Prop :=
  ArrayOp.Takes (ba.getWriteSize + ba.readPos) ba.readPos calls ∧
      (∃ ba', putAll calls ba = .ok () ba' ∧ ba'.Bounded ∧
        ba'.unread = ba.unread ++ calls.flatMap Prod.snd) ∨
    ¬ArrayOp.Takes (ba.getWriteSize + ba.readPos) ba.readPos calls ∧
      ∃ e ba', putAll calls ba = .error e ba'

theorem Decided.cons {mid : ByteArray} {n : Nat} {data : Bytes} {calls : List (Nat × Bytes)}
    (decided : mid.Decided calls) (done : putOne n data ba = .ok () mid)
    (unread : mid.unread = ba.unread ++ data)
    (rest : ArrayOp.Takes (ba.getWriteSize + ba.readPos) ba.readPos ((n, data) :: calls) ↔
      ArrayOp.Takes (mid.getWriteSize + mid.readPos) mid.readPos calls) :
    ba.Decided ((n, data) :: calls) := by
  rcases decided with ⟨takes, ba', others, bounded, unread'⟩ | ⟨cramped, e, ba', fails⟩
  · refine Or.inl ⟨rest.mpr takes, ba', (bind_ok done).trans others, bounded, ?_⟩
    rw [unread', unread, List.flatMap_cons, List.append_assoc]
  · exact Or.inr ⟨fun takes => cramped (rest.mp takes), e, ba', (bind_ok done).trans fails⟩

theorem Bounded.decided (bounded : ba.Bounded) (calls : List (Nat × Bytes)) :
    ba.Decided calls := by
  induction calls generalizing ba with
  | nil => exact Or.inl ⟨trivial, ba, rfl, bounded, (List.append_nil _).symm⟩
  | cons call calls ih =>
      obtain ⟨n, data⟩ := call
      by_cases grows : ArrayOp.Grows (ba.getWriteSize + ba.readPos) n
      · by_cases room : (data.length : Int) ≤ toInt n
        · obtain ⟨k, size⟩ := Int.eq_ofNat_of_zero_le (le_trans (Int.natCast_nonneg _) room)
          have full := grows
          rw [ArrayOp.Grows, size, sizeAdd_natCast] at full
          obtain ⟨mid, done, bounded', unread, -, same, left⟩ :=
            bounded.putOne_grows size full (Int.ofNat_le.mp (size ▸ room))
          refine (ih bounded').cons done unread ?_
          rw [ArrayOp.Takes, or_iff_left (fun slides => slides.1 grows), and_iff_right grows,
            and_iff_right room, left, same, size, Int.toNat_natCast, Nat.add_comm ba.readPos]
        · obtain ⟨e, ba', fails⟩ := putOne_grows_error grows (Int.not_le.mp room)
          refine Or.inr ⟨?_, e, ba', bind_error fails⟩
          rintro (⟨-, enough, -⟩ | ⟨slides, -⟩)
          · exact room enough
          · exact slides grows
      · by_cases room : kCheapPrepend ≤ ba.readPos ∧
            data.length + kCheapPrepend ≤ ba.getWriteSize + ba.readPos
        · obtain ⟨mid, done, bounded', unread, -, same, left⟩ :=
            (bounded.wf room.1).putOne_slides grows room.2
          refine (ih bounded').cons done unread ?_
          rw [ArrayOp.Takes, or_iff_right (fun yes => grows yes.1), and_iff_right grows,
            and_iff_right room, left, same]
        · obtain ⟨e, ba', fails⟩ := bounded.putOne_slides_error grows room
          refine Or.inr ⟨?_, e, ba', bind_error fails⟩
          rintro (⟨yes, -⟩ | ⟨-, enough, -⟩)
          · exact grows yes
          · exact room enough

/-- A typed write is that of a word, and of the characters of a string. -/
theorem write_eq_writeWord (host : ByteOrder) (v : Written) :
    v.write host = (do writeWord host v.word.1 v.word.2; ByteArray.write v.chars) := by
  have alone : ∀ w n, writeWord host w n = (do writeWord host w n; ByteArray.write []) :=
    fun w n => (bind_pure (writeWord host w n)).symm
  cases v with
  | int type value inRange =>
      refine Eq.trans ?_ (alone _ _)
      exact funext (IntType.write_eq host inRange)
  | float bits =>
      refine Eq.trans ?_ (alone _ _)
      rw [Written.write, writeFloat, writeInt32, pattern_signed (UInt32.toNat_lt bits)]
      rfl
  | double bits =>
      refine Eq.trans ?_ (alone _ _)
      rw [Written.write, writeDouble, writeInt64, pattern_signed (UInt64.toNat_lt bits)]
      rfl
  | string16 s => rfl
  | string32 s => rfl
  | string64 s => rfl

theorem whole_bytes (data : Bytes) : (ArrayOp.whole data).flatMap Prod.snd = data := by
  rw [ArrayOp.whole]
  split
  · rename_i empty
    rw [empty]
    rfl
  · exact List.append_nil data

theorem puts_bytes {order : ByteOrder} {op : ArrayOp} {data : Bytes}
    (writes : op.appends order = some data) : (op.puts order).flatMap Prod.snd = data := by
  cases op with
  | buffer op =>
      cases op with
      | write text => cases writes; exact whole_bytes _
      | writeString text => cases writes; exact whole_bytes _
      | recv k received => cases writes; exact List.append_nil _
      | _ => cases writes
  | put v =>
      cases writes
      rw [ArrayOp.puts, List.flatMap_append, whole_bytes, whole_bytes]
  | _ => cases writes

/-- A writer is its calls of `addCapacity`, each with its bytes. -/
theorem exec_eq_putAll (host : ByteOrder) {op : ArrayOp} {data : Bytes}
    (writes : op.appends ba.endian = some data) :
    op.exec host ba = (do putAll (op.puts ba.endian); return .string [] : ByteArrayM Datum) ba := by
  cases op with
  | buffer op =>
      cases op with
      | write text =>
          rw [ArrayOp.puts, putAll_whole]
          simp only [ArrayOp.exec, BufferOp.exec, bind_assoc, pure_bind]
      | writeString text =>
          rw [ArrayOp.puts, putAll_whole]
          simp only [ArrayOp.exec, BufferOp.exec, writeString, bind_assoc, pure_bind]
      | recv k received =>
          rw [ArrayOp.puts, putAll_single]
          simp only [ArrayOp.exec, BufferOp.exec, putOne, getWriteArea, bind_assoc, pure_bind]
      | _ => cases writes
  | put v =>
      have word : writeWord host v.word.1 v.word.2 ba =
          ByteArray.write (ba.endian.store v.word.1 v.word.2) ba := by
        rw [writeWord, ByteOrder.store_in_order]
      have swapped : ∀ f : Unit → ByteArrayM Datum, (writeWord host v.word.1 v.word.2 >>= f) ba =
          (ByteArray.write (ba.endian.store v.word.1 v.word.2) >>= f) ba := by
        intro f
        change EStateM.bind _ _ _ = EStateM.bind _ _ _
        rw [EStateM.bind, EStateM.bind, word]
      rw [ArrayOp.puts, putAll_append, putAll_whole, putAll_whole, ArrayOp.exec,
        write_eq_writeWord]
      simp only [bind_assoc]
      exact swapped _
  | _ => cases writes

/-- A writer with room puts its bytes behind the unread ones, and one without throws or ends
the program. -/
theorem Bounded.exec_cases (bounded : ba.Bounded) (host : ByteOrder) {op : ArrayOp} {data : Bytes}
    (writes : op.appends ba.endian = some data) :
    ArrayOp.Takes (ba.getWriteSize + ba.readPos) ba.readPos (op.puts ba.endian) ∧
        (∃ d ba', op.exec host ba = .ok d ba' ∧ ba'.Bounded ∧ ba'.unread = ba.unread ++ data) ∨
      ¬ArrayOp.Takes (ba.getWriteSize + ba.readPos) ba.readPos (op.puts ba.endian) ∧
        ∃ e ba', op.exec host ba = .error e ba' := by
  rw [exec_eq_putAll host writes, ← puts_bytes writes]
  rcases bounded.decided (op.puts ba.endian) with
    ⟨takes, ba', done, bounded', unread⟩ | ⟨cramped, e, ba', fails⟩
  · exact Or.inl ⟨takes, _, ba', bind_ok done, bounded', unread⟩
  · exact Or.inr ⟨cramped, e, ba', bind_error fails⟩

/-- Only writers ask for room. -/
theorem takes_of_reader {order : ByteOrder} {op : ArrayOp} (reads : op.appends order = none)
    (free low : Nat) : ArrayOp.Takes free low (op.puts order) := by
  cases op with
  | buffer op =>
      cases op with
      | write | writeString | recv => cases reads
      | _ => trivial
  | put v => cases reads
  | _ => trivial

theorem Bounded.exec_prepends (bounded : ba.Bounded) (host : ByteOrder) {data : Bytes}
    (fits : data.length ≤ ba.readPos) :
    ∃ d ba', (ArrayOp.writePrepend data).exec host ba = .ok d ba' ∧ ba'.Bounded ∧
      ba'.unread = data ++ ba.unread := by
  obtain ⟨ba', done, bounded', unread, -⟩ := bounded.writePrepend fits
  exact ⟨_, ba', bind_ok done, bounded', unread⟩

/-- With room, no operation but `reset` does harm. -/
theorem Bounded.harmless_exec (bounded : ba.Bounded) (host : ByteOrder) {op : ArrayOp}
    (enabled : op.Enabled ba) (roomy : op.Roomy ba) : Harmless (op.exec host ba) := by
  have writer : ∀ {data}, op.appends ba.endian = some data → Harmless (op.exec host ba) := by
    intro data writes
    rcases bounded.exec_cases host writes with ⟨-, d, ba', done, bounded', -⟩ | ⟨cramped, -⟩
    · rw [done]
      exact .ok bounded'
    · exact absurd roomy.2 cramped
  cases op with
  | buffer op =>
      cases op with
      | write text => exact writer rfl
      | writeString text => exact writer rfl
      | recv k received => exact writer rfl
      | read n => exact (bounded.harmless_read n).map
      | toString =>
          obtain ⟨ba', text, consumed⟩ := bounded.toString
          have done : (ArrayOp.buffer .toString).exec host ba = .ok (.string ba.unread) ba' :=
            bind_ok text
          rw [done]
          exact .ok consumed.bounded
      | send k m =>
          have le : m ≤ ba.unread.length := by
            have within := enabled
            change m ≤ (ba.getReadArea k).2 at within
            rw [getReadArea, bounded.getReadSize_eq] at within
            dsimp only at within
            split at within <;> omega
          have sent : (BufferOp.send k m).exec ba = .ok (ba.bytesAt (ba.getReadArea k).1 m)
              (ba.setReadPos (ba.readPos + m)) := rfl
          have done : (ArrayOp.buffer (.send k m)).exec host ba = .ok _ _ := bind_ok sent
          rw [done]
          exact .ok (bounded.setReadPos le).bounded
  | put v => exact writer rfl
  | get t => exact bounded.harmless_readValue host t
  | writePrepend data =>
      obtain ⟨d, ba', done, bounded', -⟩ := bounded.exec_prepends host enabled
      rw [done]
      exact .ok bounded'
  | reset => exact absurd rfl roomy.1
  | setEndian endian => exact .ok ⟨bounded.ordered, bounded.inside⟩

/-! ## Runs -/

theorem Bounded.arrayStep (bounded : ba.Bounded) {host : ByteOrder} {op : ArrayOp}
    {ba' : ByteArray} (step : Guarded (fun ba op => op.Roomy ba) (ArrayStep host) ba op ba') :
    ba'.Bounded := by
  obtain ⟨roomy, enabled, done⟩ := step
  have harmless := bounded.harmless_exec host enabled roomy
  rcases done with ⟨d, done⟩ | ⟨e, done, -⟩
  · rw [done] at harmless
    cases harmless with
    | ok bounded' => exact bounded'
  · rw [done] at harmless
    cases harmless with
    | error _ bounded' => exact bounded'

/-- After `reset` there is no room for a byte. -/
theorem reset_cramped (ba : ByteArray) : ¬ba.reset.MakesRoom 1 := by
  have size : ba.reset.buf.length = 1024 := by
    simp only [reset, kInitSize, List.length_append, List.length_take, List.length_replicate]
    omega
  have room : ba.reset.getWriteSize = 1024 := by
    rw [getWriteSize, size]
    rfl
  have low : ba.reset.readPos = 0 := rfl
  rw [MakesRoom, room, low]
  decide

/-- A write of one byte without room fails the assertion. -/
theorem exec_asserts (host : ByteOrder) (byte : UInt8) (cramped : ¬ba.MakesRoom 1) :
    (ArrayOp.buffer (.write [byte])).exec host ba = .error .assertFailed ba := by
  have small : [byte].length < 2 ^ 31 := by
    rw [List.length_singleton]
    decide
  exact bind_error (bind_error (write_asserts small (List.cons_ne_nil _ _) cramped))

/-- A buffer that was reset does not answer as a new one does. -/
theorem reset_not_renewed (host : ByteOrder) (ba : ByteArray) :
    ArrayOp.answers host [.buffer (.write [0])] ba.reset ≠
      ArrayOp.answers host [.buffer (.write [0])] fresh := by
  have fails := exec_asserts host 0 ba.reset_cramped
  have wf : fresh.Wf := wf_new kInitSize
  have small : ([0] : Bytes).length < 2 ^ 31 := by decide
  obtain ⟨ba', wrote, -⟩ := wf.write small
  have works : (ArrayOp.buffer (.write [0])).exec host fresh = .ok (.string []) ba' :=
    bind_ok (bind_ok wrote)
  intro same
  rw [ArrayOp.answers, ArrayOp.answers, fails, works] at same
  cases same

/-- **When the operations of the buffer are correct.** After every run of operations
that are no `reset` and find room, the next operation does what it should if and only
if it too is no `reset` and finds room. -/
theorem array_op_correct_iff (host : ByteOrder) (initSize : Nat) {ops : List ArrayOp}
    (run : Run (Guarded (fun ba op => op.Roomy ba) (ArrayStep host)) (new initSize) ops ba)
    {op : ArrayOp} (enabled : op.Enabled ba) : op.Correct host ba ↔ op.Roomy ba := by
  have bounded : ba.Bounded :=
    run.invariant (wf_new initSize).toBounded fun bounded step => bounded.arrayStep step
  constructor
  · intro correct
    refine ⟨fun reset => reset_not_renewed host ba (correct.renewed reset _), ?_⟩
    cases writes : op.appends ba.endian with
    | none => exact takes_of_reader writes _ _
    | some data =>
        rcases bounded.exec_cases host writes with ⟨takes, -⟩ | ⟨-, e, ba', fails⟩
        · exact takes
        · obtain ⟨d, ba'', done, -⟩ := correct.appended writes
          cases fails.symm.trans done
  · intro roomy
    refine ⟨fun ba' fails => ?_, fun {data} prepends => ?_, fun {data} writes => ?_, ?_⟩
    · have harmless := bounded.harmless_exec host enabled roomy
      rw [fails] at harmless
      cases harmless with
      | error other _ => exact other rfl
    · subst prepends
      obtain ⟨d, ba', done, -, unread⟩ := bounded.exec_prepends host enabled
      exact ⟨d, ba', done, unread⟩
    · rcases bounded.exec_cases host writes with ⟨-, d, ba', done, -, unread⟩ | ⟨cramped, -⟩
      · exact ⟨d, ba', done, unread⟩
      · exact absurd roomy.2 cramped
    · intro reset
      exact absurd reset roomy.1

/-- The buffer of `ByteArray(8)` with four bytes put in front. -/
def prepended : ByteArray :=
  { new 8 with readPos := 4, buf := [0, 0, 0, 0, 1, 2, 3, 4] ++ List.replicate 8 0 }

/-- Four bytes can be put in front of an empty buffer, and then twelve behind them. -/
theorem prepended_write_correct :
    (ArrayOp.buffer (.write (List.replicate 12 7))).Correct .little prepended := by
  have first : Guarded (fun ba op => op.Roomy ba) (ArrayStep .little) (new 8)
      (.writePrepend [1, 2, 3, 4]) prepended :=
    ⟨⟨ArrayOp.noConfusion, trivial⟩, by decide, Or.inl ⟨_, rfl⟩⟩
  have enabled : (ArrayOp.buffer (.write (List.replicate 12 7))).Enabled prepended := trivial
  refine (array_op_correct_iff .little 8 (Run.single first) enabled).mpr ?_
  exact ⟨ArrayOp.noConfusion, Or.inl ⟨by decide, by decide, trivial⟩⟩

/-- A byte written after `reset`, and one written after four were put in front. -/
theorem not_array_ops_correct :
    (∃ ba, ArrayStep .little fresh .reset ba ∧
      (ArrayOp.buffer (.write [7])).exec .little ba = .error .assertFailed ba) ∧
    ArrayStep .little (new 8) (.writePrepend [1, 2, 3, 4]) prepended ∧
    (ArrayOp.buffer (.write [7])).exec .little prepended = .error .assertFailed prepended := by
  refine ⟨⟨fresh.reset, ⟨trivial, Or.inl ⟨_, rfl⟩⟩, exec_asserts .little 7 (reset_cramped fresh)⟩,
    ⟨by decide, Or.inl ⟨_, rfl⟩⟩, exec_asserts .little 7 ?_⟩
  unfold MakesRoom
  decide

end ByteArray

end Reyao
