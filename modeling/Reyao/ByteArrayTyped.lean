import Reyao.ByteArraySpec

/-!
# Typed values in the byte buffer

`Value` is what one typed write call puts into a buffer and `ValueType` which typed
read call is made. A value is in the buffer as its image in the order of the buffer
(`Value.image`), whatever the order of the host; a string is its length and its
bytes.
-/

namespace Reyao

open Lib

/-- The integer types of the typed calls. -/
inductive IntType : Type
  | int8
  | uint8
  | int16
  | uint16
  | int32
  | uint32
  | int64
  | uint64
  deriving DecidableEq, Repr

namespace IntType

/-- `sizeof`. -/
def width : IntType → Nat
  | int8 | uint8 => 1
  | int16 | uint16 => 2
  | int32 | uint32 => 4
  | int64 | uint64 => 8

def isSigned : IntType → Bool
  | int8 | int16 | int32 | int64 => true
  | uint8 | uint16 | uint32 | uint64 => false

/-- The values of the type. -/
def InRange (t : IntType) (i : Int) : Prop :=
  if t.isSigned then -(256 ^ t.width : Int) ≤ 2 * i ∧ 2 * i < 256 ^ t.width
  else 0 ≤ i ∧ i < 256 ^ t.width

/-- The value of the type that a pattern of bits stands for. -/
def ofPattern (t : IntType) (n : Nat) : Int := if t.isSigned then signed t.width n else n

/-- The write call of the type. -/
def write (host : ByteOrder) (i : Int) : IntType → ByteArrayM Unit
  | int8 => ByteArray.writeInt8 host i
  | uint8 => ByteArray.writeUint8 host i.toNat
  | int16 => ByteArray.writeInt16 host i
  | uint16 => ByteArray.writeUint16 host i.toNat
  | int32 => ByteArray.writeInt32 host i
  | uint32 => ByteArray.writeUint32 host i.toNat
  | int64 => ByteArray.writeInt64 host i
  | uint64 => ByteArray.writeUint64 host i.toNat

/-- The read call of the type. -/
def read (host : ByteOrder) : IntType → ByteArrayM Int
  | int8 => ByteArray.readInt8
  | uint8 => return (← ByteArray.readUint8 : Nat)
  | int16 => ByteArray.readInt16 host
  | uint16 => return (← ByteArray.readUint16 host : Nat)
  | int32 => ByteArray.readInt32 host
  | uint32 => return (← ByteArray.readUint32 host : Nat)
  | int64 => ByteArray.readInt64 host
  | uint64 => return (← ByteArray.readUint64 host : Nat)

end IntType

/-- What a typed write call is given. -/
inductive Value : Type
  | int (type : IntType) (value : Int) (inRange : type.InRange value)
  /-- A `float`, by its bits. -/
  | float (bits : UInt32)
  /-- A `double`, by its bits. -/
  | double (bits : UInt64)
  | string16 (s : Bytes) (short : s.length < 2 ^ 16)
  | string32 (s : Bytes) (short : s.length < 2 ^ 31)
  | string64 (s : Bytes) (short : s.length < 2 ^ 31)

/-- The typed read calls. -/
inductive ValueType : Type
  | int (type : IntType)
  | float
  | double
  | string16
  | string32
  | string64
  deriving DecidableEq, Repr

/-- What a typed read call returns. -/
inductive Datum : Type
  | int (value : Int)
  | float (bits : UInt32)
  | double (bits : UInt64)
  | string (s : Bytes)
  deriving DecidableEq, Repr

namespace Value

def write (host : ByteOrder) : Value → ByteArrayM Unit
  | int type value _ => type.write host value
  | float bits => ByteArray.writeFloat host bits
  | double bits => ByteArray.writeDouble host bits
  | string16 s _ => ByteArray.writeString16 host s
  | string32 s _ => ByteArray.writeString32 host s
  | string64 s _ => ByteArray.writeString64 host s

/-- The read call that matches. -/
def type : Value → ValueType
  | int type _ _ => .int type
  | float _ => .float
  | double _ => .double
  | string16 _ _ => .string16
  | string32 _ _ => .string32
  | string64 _ _ => .string64

/-- The value itself, as the matching read call returns it. -/
def datum : Value → Datum
  | int _ value _ => .int value
  | float bits => .float bits
  | double bits => .double bits
  | string16 s _ => .string s
  | string32 s _ => .string s
  | string64 s _ => .string s

/-- The bytes of the value in a buffer of the given order. -/
def image (order : ByteOrder) : Value → Bytes
  | int type value _ => order.store type.width (pattern type.width value)
  | float bits => order.store 4 bits.toNat
  | double bits => order.store 8 bits.toNat
  | string16 s _ => order.store 2 s.length ++ s
  | string32 s _ => order.store 4 s.length ++ s
  | string64 s _ => order.store 8 s.length ++ s

/-- The size of the first write of the call. -/
def firstWrite : Value → Nat
  | int type _ _ => type.width
  | float _ => 4
  | double _ => 8
  | string16 _ _ => 2
  | string32 _ _ => 4
  | string64 _ _ => 8

end Value

namespace ValueType

def read (host : ByteOrder) : ValueType → ByteArrayM Datum
  | int type => return .int (← type.read host)
  | float => return .float (← ByteArray.readFloat host)
  | double => return .double (← ByteArray.readDouble host)
  | string16 => return .string (← ByteArray.readString16 host)
  | string32 => return .string (← ByteArray.readString32 host)
  | string64 => return .string (← ByteArray.readString64 host)

end ValueType

/-! ## Patterns -/

theorem pattern_lt (w : Nat) (i : Int) : pattern w i < 256 ^ w := by
  have pos : (0 : Int) < (256 ^ w : Nat) := Int.natCast_pos.mpr (Nat.pow_pos (by decide))
  have nonneg := Int.emod_nonneg i pos.ne'
  have small := Int.emod_lt_of_pos i pos
  rw [pattern]
  omega

/-- The pattern of a value is the value modulo the size of the type. -/
theorem pattern_emod (w : Nat) (i : Int) : (pattern w i : Int) = i % (256 ^ w : Nat) := by
  have pos : (0 : Int) < (256 ^ w : Nat) := Int.natCast_pos.mpr (Nat.pow_pos (by decide))
  rw [pattern, Int.toNat_of_nonneg (Int.emod_nonneg i pos.ne')]

theorem pattern_signed {w n : Nat} (small : n < 256 ^ w) : pattern w (signed w n) = n := by
  have value : ((pattern w (signed w n) : Nat) : Int) = n := by
    rw [pattern_emod, signed, Int.bmod_emod, ← Int.natCast_mod, Nat.mod_eq_of_lt small]
  exact_mod_cast value

namespace IntType

theorem width_lt (t : IntType) : t.width < 2 ^ 31 := by
  cases t <;> decide

theorem width_ne_zero (t : IntType) : t.width ≠ 0 := by
  cases t <;> decide

theorem ofPattern_signed {t : IntType} (sign : t.isSigned = true) (n : Nat) :
    t.ofPattern n = signed t.width n := if_pos sign

/-- What is read back has the value modulo the size of the type. -/
theorem ofPattern_emod (t : IntType) (n : Nat) :
    t.ofPattern n % (256 ^ t.width : Nat) = n % (256 ^ t.width : Nat) := by
  rw [ofPattern]
  split
  · exact Int.bmod_emod
  · rfl

/-- A value is read back as it was written. -/
theorem ofPattern_pattern {t : IntType} {i : Int} (inRange : t.InRange i) :
    t.ofPattern (pattern t.width i) = i := by
  rw [InRange] at inRange
  rw [ofPattern]
  obtain ⟨half, size⟩ : ∃ half : Nat, 256 ^ t.width = 2 * half := by
    obtain ⟨k, width⟩ := Nat.exists_eq_succ_of_ne_zero t.width_ne_zero
    refine ⟨128 * 256 ^ k, ?_⟩
    rw [width, Nat.pow_succ]
    omega
  have cast : (256 ^ t.width : Int) = 2 * half := by exact_mod_cast size
  split at inRange
  · rename_i sign
    rw [if_pos sign, signed, pattern_emod, Int.emod_bmod, size]
    apply Int.bmod_eq_of_le_mul_two
    · push_cast
      omega
    · push_cast
      omega
  · rename_i sign
    rw [if_neg sign, pattern_emod, Int.emod_eq_of_lt inRange.1]
    push_cast
    exact inRange.2

/-- The value of a pattern is a value of the type. -/
theorem inRange_ofPattern (t : IntType) {n : Nat} (small : n < 256 ^ t.width) :
    t.InRange (t.ofPattern n) := by
  have pos : 0 < 256 ^ t.width := Nat.pow_pos (by decide)
  have cast : (256 ^ t.width : Int) = (256 ^ t.width : Nat) := by push_cast; rfl
  rw [InRange, ofPattern, cast]
  split
  · rw [signed]
    have low := Int.le_bmod (x := n) pos
    have high := Int.bmod_lt (x := n) pos
    omega
  · omega

end IntType

/-- An unsigned value is its own pattern. -/
theorem pattern_of_nonneg {w : Nat} {i : Int} (nonneg : 0 ≤ i) (small : i < 256 ^ w) :
    pattern w i = i.toNat := by
  rw [pattern, Int.emod_eq_of_lt nonneg (by push_cast; exact small)]

/-- A single byte has no order. -/
theorem ByteOrder.store_one (order host : ByteOrder) (n : Nat) :
    host.store 1 n = order.store 1 n := by
  cases order <;> cases host <;> rfl

theorem ByteOrder.load_one (order : ByteOrder) {bs : Bytes} (single : bs.length = 1) :
    order.load bs = ofLeBytes bs := by
  obtain ⟨b, rfl⟩ := List.length_eq_one_iff.mp single
  cases order <;> rfl

theorem Value.firstWrite_lt (v : Value) : v.firstWrite < 2 ^ 31 := by
  cases v with
  | int type _ _ => exact type.width_lt
  | _ =>
      rw [firstWrite]
      decide

theorem Value.firstWrite_ne_zero (v : Value) : v.firstWrite ≠ 0 := by
  cases v with
  | int type _ _ => exact type.width_ne_zero
  | _ => exact Nat.succ_ne_zero _

/-! ## Writes -/

/-- An integer is written as the word of its pattern. -/
theorem IntType.write_eq (host : ByteOrder) {t : IntType} {i : Int} (inRange : t.InRange i)
    (ba : ByteArray) :
    t.write host i ba = ByteArray.writeWord host t.width (pattern t.width i) ba := by
  have single : ∀ n, ByteArray.write (host.store 1 n) ba = ByteArray.writeWord host 1 n ba := by
    intro n
    rw [ByteArray.writeWord, ByteOrder.store_in_order, ByteOrder.store_one ba.endian host]
  cases t with
  | int8 => exact single _
  | uint8 =>
      obtain ⟨nonneg, small⟩ := inRange
      rw [pattern_of_nonneg nonneg small]
      exact single _
  | int16 => rfl
  | uint16 =>
      obtain ⟨nonneg, small⟩ := inRange
      rw [pattern_of_nonneg nonneg small]
      rfl
  | int32 => rfl
  | uint32 =>
      obtain ⟨nonneg, small⟩ := inRange
      rw [pattern_of_nonneg nonneg small]
      rfl
  | int64 => rfl
  | uint64 =>
      obtain ⟨nonneg, small⟩ := inRange
      rw [pattern_of_nonneg nonneg small]
      rfl

namespace ByteArray

variable {ba ba' : ByteArray} {host : ByteOrder}

theorem Bounded.writeWord (bounded : ba.Bounded) (host : ByteOrder) {w : Nat}
    (small : w < 2 ^ 31) (nonzero : w ≠ 0) (room : ba.MakesRoom w) (n : Nat) :
    ∃ ba', writeWord host w n ba = .ok () ba' ∧ ba.Extended (ba.endian.store w n) ba' := by
  have length := ByteOrder.length_store ba.endian w n
  rw [ByteArray.writeWord, ByteOrder.store_in_order]
  apply bounded.write
  · rw [length]
    exact small
  · intro empty
    rw [empty] at length
    exact nonzero length.symm
  · rw [length]
    exact room

/-- A write after another one. -/
theorem Extended.write {front data : Bytes} (extended : ba.Extended front ba')
    (small : data.length < 2 ^ 31) :
    ∃ ba'', ByteArray.write data ba' = .ok () ba'' ∧ ba.Extended (front ++ data) ba'' := by
  by_cases empty : data = []
  · rw [empty, List.append_nil]
    exact ⟨ba', rfl, extended⟩
  · obtain ⟨ba'', wrote, more⟩ := extended.bounded.write small empty (extended.room _)
    exact ⟨ba'', wrote, extended.trans more⟩

/-- A string is written as its length and its bytes. -/
theorem Bounded.writeCounted (bounded : ba.Bounded) {w : Nat} (width : w < 2 ^ 31) (nonzero : w ≠ 0)
    (room : ba.MakesRoom w) {s : Bytes} (small : s.length < 2 ^ 31) :
    ∃ ba', (do ByteArray.writeWord host w s.length; ByteArray.write s : ByteArrayM Unit) ba =
        .ok () ba' ∧
      ba.Extended (ba.endian.store w s.length ++ s) ba' := by
  obtain ⟨mid, counted, extended⟩ := bounded.writeWord host width nonzero room s.length
  obtain ⟨ba', wrote, whole⟩ := extended.write small
  exact ⟨ba', (bind_ok counted).trans wrote, whole⟩

/-- A typed write puts the image of its value behind the unread bytes. -/
theorem Bounded.writeValue (bounded : ba.Bounded) (host : ByteOrder) (v : Value)
    (room : ba.MakesRoom v.firstWrite) :
    ∃ ba', v.write host ba = .ok () ba' ∧ ba.Extended (v.image ba.endian) ba' := by
  cases v with
  | int type value inRange =>
      rw [Value.write, IntType.write_eq host inRange]
      exact bounded.writeWord host type.width_lt type.width_ne_zero room _
  | float bits =>
      rw [Value.write, writeFloat, writeInt32, pattern_signed (UInt32.toNat_lt bits)]
      exact bounded.writeWord host (Value.firstWrite_lt _) (Value.firstWrite_ne_zero _) room _
  | double bits =>
      rw [Value.write, writeDouble, writeInt64, pattern_signed (UInt64.toNat_lt bits)]
      exact bounded.writeWord host (Value.firstWrite_lt _) (Value.firstWrite_ne_zero _) room _
  | string16 s short =>
      rw [Value.write, writeString16, Nat.mod_eq_of_lt short]
      exact bounded.writeCounted (Value.firstWrite_lt _) (Value.firstWrite_ne_zero _) room (by omega)
  | string32 s short =>
      rw [Value.write, writeString32, Nat.mod_eq_of_lt (by omega)]
      exact bounded.writeCounted (Value.firstWrite_lt _) (Value.firstWrite_ne_zero _) room short
  | string64 s short =>
      exact bounded.writeCounted (Value.firstWrite_lt _) (Value.firstWrite_ne_zero _) room short

/-! ## Reads -/

theorem setReadPos_setReadPos (a b : Nat) :
    (ba.setReadPos a).setReadPos b = ba.setReadPos b := rfl

theorem Bounded.readInt (bounded : ba.Bounded) (host : ByteOrder) (t : IntType)
    (le : t.width ≤ ba.unread.length) :
    t.read host ba = .ok (t.ofPattern (ba.endian.load (ba.unread.take t.width)))
      (ba.setReadPos (ba.readPos + t.width)) := by
  cases t with
  | int8 =>
      have byte : ba.endian.load (ba.unread.take 1) = ofLeBytes (ba.unread.take 1) :=
        ByteOrder.load_one _ (List.length_take_of_le le)
      rw [IntType.ofPattern_signed (t := .int8) rfl, IntType.width, byte]
      exact bind_ok (bounded.read_ok le)
  | uint8 =>
      have byte : ba.endian.load (ba.unread.take 1) = ofLeBytes (ba.unread.take 1) :=
        ByteOrder.load_one _ (List.length_take_of_le le)
      rw [IntType.width, byte]
      exact bind_ok (bind_ok (bounded.read_ok le))
  | int16 =>
      rw [IntType.ofPattern_signed (t := .int16) rfl]
      exact bind_ok (bounded.readWord host le)
  | uint16 => exact bind_ok (bounded.readWord host le)
  | int32 =>
      rw [IntType.ofPattern_signed (t := .int32) rfl]
      exact bind_ok (bounded.readWord host le)
  | uint32 => exact bind_ok (bounded.readWord host le)
  | int64 =>
      rw [IntType.ofPattern_signed (t := .int64) rfl]
      exact bind_ok (bounded.readWord host le)
  | uint64 => exact bind_ok (bounded.readWord host le)

/-- A word that stands at the front of the unread bytes is read back. -/
theorem Bounded.readWord_front (bounded : ba.Bounded) (host : ByteOrder) {w n : Nat} {rest : Bytes}
    (front : ba.unread = ba.endian.store w n ++ rest) (small : n < 256 ^ w) :
    ByteArray.readWord host w ba = .ok n (ba.setReadPos (ba.readPos + w)) := by
  have length := ByteOrder.length_store ba.endian w n
  have le : w ≤ ba.unread.length := by
    rw [front, List.length_append, length]
    exact Nat.le_add_right _ _
  rw [bounded.readWord host le, front, List.take_left' length, ByteOrder.load_store,
    Nat.mod_eq_of_lt small]

/-- A length at the front of the unread bytes says how many of the bytes behind it are
read. -/
theorem Bounded.readPrefixed (bounded : ba.Bounded) (host : ByteOrder) {w n : Nat} {rest : Bytes}
    (front : ba.unread = ba.endian.store w n ++ rest) (counts : n < 256 ^ w)
    (enough : n ≤ rest.length) (short : n < 2 ^ 31) :
    (do ByteArray.readChars (← ByteArray.readWord host w) : ByteArrayM Bytes) ba =
      .ok (rest.take n) (ba.setReadPos (ba.readPos + (w + n))) := by
  have length := ByteOrder.length_store ba.endian w n
  have le : w ≤ ba.unread.length := by
    rw [front, List.length_append, length]
    exact Nat.le_add_right _ _
  have consumed := bounded.setReadPos le
  have unread : (ba.setReadPos (ba.readPos + w)).unread = rest := by
    rw [consumed.unread_eq, front, List.drop_left' length]
  rw [bind_ok (bounded.readWord_front host front counts)]
  unfold ByteArray.readChars
  rw [if_neg (by rw [maxSize]; omega)]
  change ByteArray.read n (ba.setReadPos (ba.readPos + w)) = _
  rw [consumed.bounded.read_ok (by rw [unread]; exact enough), unread, setReadPos_setReadPos]
  change EStateM.Result.ok _ (ba.setReadPos (ba.readPos + w + n)) = _
  rw [Nat.add_assoc]

/-- A string that stands at the front of the unread bytes is read back. -/
theorem Bounded.readCounted (bounded : ba.Bounded) (host : ByteOrder) {w : Nat} {s rest : Bytes}
    (front : ba.unread = ba.endian.store w s.length ++ s ++ rest) (counts : s.length < 256 ^ w)
    (short : s.length < 2 ^ 31) :
    (do ByteArray.readChars (← ByteArray.readWord host w) : ByteArrayM Bytes) ba =
      .ok s (ba.setReadPos (ba.readPos + (w + s.length))) := by
  rw [List.append_assoc] at front
  have enough : s.length ≤ (s ++ rest).length := by
    rw [List.length_append]
    exact Nat.le_add_right _ _
  rw [bounded.readPrefixed host front counts enough short, List.take_left]

end ByteArray

namespace Value

/-- The read call may be made for the value: it is the matching one, or that of the
other signedness. -/
def Fits (t : ValueType) (v : Value) : Prop :=
  t = v.type ∨ ∃ t' type value inRange, t = .int t' ∧ v = .int type value inRange ∧
    t'.width = type.width

/-- What the read call makes of the value. -/
def readAs (t : ValueType) (v : Value) : Datum :=
  match t, v with
  | .int t', int type value _ => .int (t'.ofPattern (pattern type.width value))
  | _, v => v.datum

/-- The matching call returns the value. -/
theorem readAs_type (v : Value) : v.readAs v.type = v.datum := by
  cases v with
  | int type value inRange =>
      exact congrArg Datum.int (IntType.ofPattern_pattern inRange)
  | _ => rfl

end Value

/-- A value at the front of the unread bytes is read back. -/
theorem ByteArray.Bounded.readValue {ba : ByteArray} (bounded : ba.Bounded) (host : ByteOrder)
    {t : ValueType} {v : Value} {rest : Bytes} (fits : v.Fits t)
    (front : ba.unread = v.image ba.endian ++ rest) :
    t.read host ba = .ok (v.readAs t)
      (ba.setReadPos (ba.readPos + (v.image ba.endian).length)) := by
  -- integers of either signedness
  have ints : ∀ (t' type : IntType) (value : Int), t'.width = type.width →
      ba.unread = ba.endian.store type.width (pattern type.width value) ++ rest →
      (ValueType.int t').read host ba = .ok (.int (t'.ofPattern (pattern type.width value)))
        (ba.setReadPos (ba.readPos + (ba.endian.store type.width
          (pattern type.width value)).length)) := by
    intro t' type value width front
    have length := ByteOrder.length_store ba.endian type.width (pattern type.width value)
    have le : t'.width ≤ ba.unread.length := by
      rw [front, List.length_append, length, width]
      exact Nat.le_add_right _ _
    have back : ba.endian.load (ba.unread.take t'.width) = pattern type.width value := by
      rw [front, width, List.take_left' length, ByteOrder.load_store,
        Nat.mod_eq_of_lt (pattern_lt _ _)]
    have done := bounded.readInt host t' le
    rw [back, width] at done
    rw [length]
    exact bind_ok done
  have words : ∀ {w n : Nat}, (ba.endian.store w n).length = w :=
    fun {w n} => ByteOrder.length_store ba.endian w n
  rcases fits with rfl | ⟨t', type, value, inRange, rfl, rfl, width⟩
  · cases v with
    | int type value inRange => exact ints type type value rfl front
    | float bits =>
        have done := bounded.readWord_front host front (UInt32.toNat_lt bits)
        have read : ByteArray.readFloat host ba = .ok bits (ba.setReadPos (ba.readPos + 4)) := by
          unfold ByteArray.readFloat
          refine (bind_ok done).trans ?_
          rw [UInt32.ofNat_toNat]
          rfl
        rw [Value.image, words]
        exact bind_ok read
    | double bits =>
        have done := bounded.readWord_front host front (UInt64.toNat_lt bits)
        have read : ByteArray.readDouble host ba = .ok bits (ba.setReadPos (ba.readPos + 8)) := by
          unfold ByteArray.readDouble
          refine (bind_ok done).trans ?_
          rw [UInt64.ofNat_toNat]
          rfl
        rw [Value.image, words]
        exact bind_ok read
    | string16 s short =>
        have done := bounded.readCounted host front short (by omega)
        rw [Value.image, List.length_append, words]
        exact bind_ok done
    | string32 s short =>
        have done := bounded.readCounted host front (by omega) short
        rw [Value.image, List.length_append, words]
        exact bind_ok done
    | string64 s short =>
        have done := bounded.readCounted host front (by omega) short
        rw [Value.image, List.length_append, words]
        exact bind_ok done
  · exact ints t' type value width front

end Reyao
