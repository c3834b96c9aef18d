import Reyao.ByteArrayTyped

/-!
# Reads that find too little

A read of a number that finds too little throws and changes nothing. A read of a string is a
read of its length and a read of its bytes, and the second does not give back what the first
has taken: such a read fails without a trace exactly when the length itself is not there.
-/

namespace Reyao

namespace ValueType

/-- The size of the first read of the call. -/
def firstRead : ValueType → Nat
  | int type => type.width
  | float => 4
  | double => 8
  | string16 => 2
  | string32 => 4
  | string64 => 8

/-- The call reads a length first. -/
def isString : ValueType → Bool
  | int _ | float | double => false
  | string16 | string32 | string64 => true

/-- The bytes begin with a whole value, in a buffer of the given order. -/
def Complete (order : ByteOrder) (bytes : Bytes) (t : ValueType) : Prop :=
  t.firstRead ≤ bytes.length ∧ (t.isString = true →
    t.firstRead + order.load (bytes.take t.firstRead) ≤ bytes.length)

instance (order : ByteOrder) (bytes : Bytes) (t : ValueType) :
    Decidable (t.Complete order bytes) :=
  inferInstanceAs (Decidable (_ ∧ (_ → _)))

/-- The call throws `out_of_range` and leaves the buffer as it was. -/
def FailsAtomically (host : ByteOrder) (ba : ByteArray) (t : ValueType) : Prop :=
  ∃ what, t.read host ba = .error (.outOfRange what) ba

end ValueType

namespace ByteArray

variable {ba : ByteArray} {host : ByteOrder}

theorem Bounded.readWord_short (bounded : ba.Bounded) {w : Nat} (short : ba.unread.length < w) :
    ByteArray.readWord host w ba = .error (.outOfRange "have no enough data to read") ba :=
  bind_error (bounded.read_error short)

/-- A first read that finds too little ends the call. -/
theorem Bounded.readValue_short (bounded : ba.Bounded) (host : ByteOrder) {t : ValueType}
    (short : ba.unread.length < t.firstRead) : t.FailsAtomically host ba := by
  refine ⟨"have no enough data to read", ?_⟩
  have word : ∀ {w}, ba.unread.length < w →
      ByteArray.readWord host w ba = .error (.outOfRange "have no enough data to read") ba :=
    fun short => bounded.readWord_short short
  cases t with
  | int type =>
      refine bind_error ?_
      cases type with
      | int8 => exact bind_error (bounded.read_error short)
      | uint8 => exact bind_error (bind_error (bounded.read_error short))
      | int16 => exact bind_error (word short)
      | uint16 => exact bind_error (word short)
      | int32 => exact bind_error (word short)
      | uint32 => exact bind_error (word short)
      | int64 => exact bind_error (word short)
      | uint64 => exact bind_error (word short)
  | float => exact bind_error (bind_error (word short))
  | double => exact bind_error (bind_error (word short))
  | string16 => exact bind_error (bind_error (word short))
  | string32 => exact bind_error (bind_error (word short))
  | string64 => exact bind_error (bind_error (word short))

/-- A string whose bytes are not all there: the length has been taken. -/
theorem Bounded.readCounted_short (bounded : ba.Bounded) (host : ByteOrder) {w : Nat}
    (counted : w ≤ ba.unread.length)
    (short : ba.unread.length < w + ba.endian.load (ba.unread.take w)) :
    ∃ e, (do readChars (← ByteArray.readWord host w) : ByteArrayM Bytes) ba =
      .error e (ba.setReadPos (ba.readPos + w)) := by
  have consumed := bounded.setReadPos counted
  have missing : (ba.setReadPos (ba.readPos + w)).unread.length <
      ba.endian.load (ba.unread.take w) := by
    rw [consumed.unread_eq, List.length_drop]
    omega
  rw [bind_ok (bounded.readWord host counted)]
  unfold readChars
  split
  · exact ⟨_, rfl⟩
  · exact ⟨_, consumed.bounded.read_error missing⟩

/-- The read position has moved. -/
theorem readPos_moved {α : Type} {x : ByteArrayM α} {e : Fault} {w : Nat} (some_bytes : w ≠ 0)
    (failed : x ba = .error e (ba.setReadPos (ba.readPos + w))) (e' : Fault) :
    x ba ≠ .error e' ba := by
  intro same
  rw [failed] at same
  injection same with _ moved
  have pos := congrArg ByteArray.readPos moved
  change ba.readPos + w = ba.readPos at pos
  omega

/-- **When a read that finds too little changes nothing.** For every buffer with its
positions in order and every typed read: the call throws `out_of_range` and leaves the
buffer as it was whenever the unread bytes do not begin with a whole value, if and only if it
is not a read of a string that finds the length without the bytes. -/
theorem failed_read_atomic_iff (bounded : ba.Bounded) (host : ByteOrder) (t : ValueType) :
    (¬t.Complete ba.endian ba.unread → t.FailsAtomically host ba) ↔
      ¬(t.isString = true ∧ t.firstRead ≤ ba.unread.length ∧
        ba.unread.length < t.firstRead + ba.endian.load (ba.unread.take t.firstRead)) := by
  constructor
  · rintro atomic ⟨string, counted, short⟩
    have incomplete : ¬t.Complete ba.endian ba.unread :=
      fun complete => absurd (complete.2 string) (Nat.not_le.mpr short)
    obtain ⟨what, failed⟩ := atomic incomplete
    cases t with
    | int => cases string
    | float => cases string
    | double => cases string
    | string16 =>
        obtain ⟨e, moved⟩ := bounded.readCounted_short host counted short
        exact readPos_moved (by decide) (bind_error moved) _ failed
    | string32 =>
        obtain ⟨e, moved⟩ := bounded.readCounted_short host counted short
        exact readPos_moved (by decide) (bind_error moved) _ failed
    | string64 =>
        obtain ⟨e, moved⟩ := bounded.readCounted_short host counted short
        exact readPos_moved (by decide) (bind_error moved) _ failed
  · intro meets incomplete
    refine bounded.readValue_short host ?_
    by_contra enough
    have counted := Nat.not_lt.mp enough
    refine incomplete ⟨counted, fun string => ?_⟩
    by_contra short
    exact meets ⟨string, counted, Nat.not_le.mp short⟩

/-- A buffer with these bytes unread. -/
def holding (bytes : Bytes) : ByteArray :=
  { new 0 with buf := List.replicate 8 0 ++ bytes, writePos := 8 + bytes.length }

theorem bounded_holding (bytes : Bytes) : (holding bytes).Bounded := by
  refine ⟨Nat.le_add_right _ _, ?_⟩
  rw [holding, List.length_append, List.length_replicate]

/-- Three bytes are too few for a `uint32_t`, and stay. -/
theorem readUint32_atomic : ¬(ValueType.int .uint32).Complete .big [0, 5, 97] ∧
    (ValueType.int .uint32).FailsAtomically .little (holding [0, 5, 97]) := by
  refine ⟨by decide, (failed_read_atomic_iff (bounded_holding _) .little _).mpr ?_ ?_⟩
  · rintro ⟨string, -⟩
    cases string
  · decide

/-- The length 5 before a single byte: it has been read when the call throws. With the length
`2^64 - 1` it is not `out_of_range` that is thrown. -/
theorem not_failed_reads_atomic :
    (ValueType.string16.read .little (holding [0, 5, 97]) =
        .error (.outOfRange "have no enough data to read")
          ((holding [0, 5, 97]).setReadPos 10) ∧
      ¬ValueType.string16.Complete .big [0, 5, 97] ∧
      ¬ValueType.string16.FailsAtomically .little (holding [0, 5, 97])) ∧
    ValueType.string64.read .little (holding (List.replicate 8 255)) =
      .error (.lengthError "basic_string::_M_replace_aux")
        ((holding (List.replicate 8 255)).setReadPos 16) := by
  have moved : ValueType.string16.read .little (holding [0, 5, 97]) =
      .error (.outOfRange "have no enough data to read")
        ((holding [0, 5, 97]).setReadPos ((holding [0, 5, 97]).readPos + 2)) := rfl
  refine ⟨⟨moved, by decide, fun ⟨what, failed⟩ => ?_⟩, rfl⟩
  exact readPos_moved (by decide) moved _ failed

end ByteArray

end Reyao
