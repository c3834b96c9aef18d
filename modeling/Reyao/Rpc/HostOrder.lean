import Mathlib.Data.List.Palindrome
import Reyao.ByteArrayTyped
import Reyao.Rpc.Receive

/-!
# Frames between hosts of either byte order

The typed members of `ByteArray` compare the order of the buffer with the order of
the host, so what they store is the same on every host. `byteSwapOnLittleEndian` is
chosen by a preprocessor test against `BIG_ORDER`, which is no macro: it swaps on
every host, and a big-endian host puts the length of a frame in front of it least
significant byte first. `host_order_iff` says which words and which frames come
through all the same.
-/

namespace Reyao.Rpc

open Lib Reyao.ByteArray

variable {pb : Protobuf} {msg : Message} {writer reader : ByteOrder} {value : Int}

/-! ## Words -/

/-- The four bytes of an `int32_t` are the same from either end. -/
def Mirrored (value : Int) : Prop := (leBytes 4 (pattern 4 value)).Palindrome

instance (value : Int) : Decidable (Mirrored value) :=
  inferInstanceAs (Decidable (List.Palindrome _))

/-- The word that `prependLen` stores is in network order on a little-endian host, and on a
big-endian one if its bytes are the same either way. -/
theorem store_other_eq_iff (host : ByteOrder) (value : Int) :
    host.other.store 4 (pattern 4 value) = ByteOrder.big.store 4 (pattern 4 value) ↔
      host = .little ∨ Mirrored value := by
  cases host with
  | little => exact iff_of_true rfl (Or.inl rfl)
  | big =>
      have plain : ByteOrder.big.other.store 4 (pattern 4 value) =
          leBytes 4 (pattern 4 value) := rfl
      rw [Mirrored, List.Palindrome.iff_reverse_eq, plain, ByteOrder.store, eq_comm]
      exact (or_iff_right (by decide)).symm

/-- Four bytes read as a value exactly when they are its image. -/
theorem signed_load_eq_iff (int32 : IntType.int32.InRange value) {bs : Bytes}
    (width : bs.length = 4) :
    signed 4 (ByteOrder.big.load bs) = value ↔
      bs = ByteOrder.big.store 4 (pattern 4 value) := by
  constructor
  · intro same
    have bound := ByteOrder.big.load_lt bs
    rw [width] at bound
    rw [← same, pattern_signed bound, ByteOrder.store_load width]
  · intro image
    have back := IntType.ofPattern_pattern int32
    rw [IntType.ofPattern_signed rfl] at back
    rw [image, ByteOrder.load_store, Nat.mod_eq_of_lt (pattern_lt 4 value)]
    exact back

/-- `readInt32` of a buffer whose next four bytes are known. -/
theorem readInt32_eq_iff (reader : ByteOrder) (int32 : IntType.int32.InRange value)
    {ba : ByteArray} (bounded : ba.Bounded) (order : ba.endian = .big) {bs rest : Bytes}
    (width : bs.length = 4) (bytes : ba.unread = bs ++ rest) :
    (∃ left, readInt32 reader ba = .ok value left) ↔
      bs = ByteOrder.big.store 4 (pattern 4 value) := by
  have long : 4 ≤ ba.unread.length := by
    rw [bytes, List.length_append]
    omega
  have read := bounded.readInt32 reader long
  rw [order, bytes, List.take_left' width] at read
  rw [read, ← signed_load_eq_iff int32 width]
  constructor
  · rintro ⟨left, result⟩
    exact (EStateM.Result.ok.inj result).1
  · intro same
    rw [same]
    exact ⟨_, rfl⟩

/-- `writeInt32` stores a value most significant byte first on every host. -/
theorem writeInt32_ok (writer : ByteOrder) (value : Int) {out : ByteArray}
    (bounded : out.Bounded) (order : out.endian = .big) (room : out.MakesRoom 4) :
    ∃ out', writeInt32 writer value out = .ok () out' ∧ out'.Bounded ∧ out'.endian = .big ∧
      out'.unread = out.unread ++ ByteOrder.big.store 4 (pattern 4 value) := by
  obtain ⟨out', wrote, extended⟩ :=
    bounded.writeWord writer (w := 4) (by decide) (by decide) room (pattern 4 value)
  rw [order] at extended
  exact ⟨out', wrote, extended.bounded, extended.endian_eq.trans order, extended.unread_eq⟩

/-! ## Frames -/

/-- What `receive` asks of the bytes it has collected: the length word is within the
limits, as many bytes as it says are there, and they parse to the message. -/
def Decodes (pb : Protobuf) (reader : ByteOrder) (ba : ByteArray) (msg : Message) : Prop :=
  ∃ len ba' ba'', readInt32 reader ba = .ok len ba' ∧ kMinMessageLen ≤ len ∧
    len ≤ kMaxMessageLen ∧ toSize len ≤ ba'.getReadSize ∧
    Parse pb reader len noError ba' = .ok (some msg, noError) ba''

/-- What decodes to a message begins with the frame of the message, whichever the order of
the host. -/
theorem decodes_iff (reader : ByteOrder) {ba : ByteArray} (bounded : ba.Bounded)
    (order : ba.endian = .big) (long : 4 ≤ ba.unread.length) :
    Decodes pb reader ba msg ↔
      msg.Valid pb ∧ ((body msg).length : Int) ≤ kMaxMessageLen ∧ frame msg <+: ba.unread := by
  constructor
  · rintro ⟨len, ba', ba'', read, least, most, whole, parsed⟩
    have taken := bounded.readInt32 reader long
    rw [order] at taken
    obtain ⟨value, rfl⟩ := EStateM.Result.ok.inj (taken.symm.trans read)
    have con := bounded.setReadPos long
    obtain ⟨n, rfl⟩ : ∃ n : Nat, len = n := ⟨len.toNat, by
      rw [kMinMessageLen, kHeaderLen] at least
      omega⟩
    rw [toSize_natCast (by rw [kMaxMessageLen] at most; omega), con.bounded.getReadSize_eq] at whole
    obtain ⟨_, computed⟩ :=
      Parse_eq pb reader noError con.bounded (con.endian_eq.trans order) least whole
    obtain ⟨result, -⟩ := EStateM.Result.ok.inj (computed.symm.trans parsed)
    obtain ⟨msg', same, -, valid, bytes⟩ := body_of_parseFrame whole result rfl
    cases same
    have size : (body msg).length = n := by
      rw [bytes, List.length_take]
      omega
    have width : (ba.unread.take 4).length = 4 := by
      rw [List.length_take]
      omega
    refine ⟨valid, by rw [size]; exact most, ?_⟩
    rw [frame, size, word_of_wordValue width value, bytes, con.unread_eq, ← List.take_add]
    exact List.take_prefix _ _
  · rintro ⟨valid, fits, rest, bytes⟩
    have small : (body msg).length < 2 ^ 31 := by
      rw [kMaxMessageLen] at fits
      omega
    obtain ⟨ba', ba'', read, bounded', left, parsed⟩ :=
      decode_frame reader valid small bounded order bytes.symm
    have name_pos : 0 < msg.typeName.length := List.length_pos_iff.mpr valid.typeName_ne_nil
    have sizes := length_body msg
    refine ⟨_, ba', ba'', read, ?_, fits, ?_, parsed⟩
    · rw [kMinMessageLen, kHeaderLen]
      omega
    · rw [toSize_natCast (by omega), bounded'.getReadSize_eq, left, List.length_append]
      exact Nat.le_add_right _ _

/-- The bytes sent are the frame when the length word is in network order. -/
theorem sentBytes_eq_frame_iff (writer : ByteOrder) (small : (body msg).length < 2 ^ 31) :
    sentBytes writer msg = frame msg ↔
      writer = .little ∨ Mirrored ((body msg).length : Int) := by
  have length : pattern 4 ((body msg).length : Int) = (body msg).length :=
    pattern_natCast (by omega)
  rw [sentBytes, frame, List.append_cancel_right_eq, ← store_other_eq_iff, length, word]

/-- **When the order of the host does not show.** An `int32_t` is stored by the prepend of
`serializeToByteArray` in the four bytes of `writeInt32`, and read back from them by any
host, exactly when the storing host is little-endian or the bytes of the value are the same
from either end. A frame is decoded to its message by any host exactly when its writer is
little-endian or its length is such a value; `receive` needs the reads besides to end as
they have to on one host. -/
theorem host_order_iff (pb : Protobuf) (writer reader : ByteOrder) :
    (∀ (value : Int) (ba out : ByteArray), IntType.int32.InRange value →
      ba.Bounded → ba.endian = .big → 4 ≤ ba.readPos →
      out.Bounded → out.endian = .big → out.MakesRoom 4 →
      ∃ front back ba' out', front.length = 4 ∧ back.length = 4 ∧
        prependLen writer value ba = .ok () ba' ∧ ba'.unread = front ++ ba.unread ∧
        writeInt32 writer value out = .ok () out' ∧ out'.unread = out.unread ++ back ∧
        (front = back ↔ writer = .little ∨ Mirrored value) ∧
        ((∃ left, readInt32 reader ba' = .ok value left) ↔
          writer = .little ∨ Mirrored value) ∧
        ∃ left, readInt32 reader (out'.setReadPos (out'.readPos + out.unread.length)) =
          .ok value left) ∧
    ∀ msg : Message, msg.Valid pb → ((body msg).length : Int) ≤ kMaxMessageLen →
      ∃ mid sent, mid.unread = body msg ∧
        prependLen writer (body msg).length mid = .ok () sent ∧
        serializeToByteArray writer msg fresh = .ok () sent ∧
        (Decodes pb reader sent msg ↔ writer = .little ∨ Mirrored (body msg).length) ∧
        ∀ reads : List (Read 4096), bytesOf reads = sent.unread →
          ((∃ err ba', receive pb reader (.ofReads reads) = .ok (err, some msg) ba' ∧
              err.errcode = .kNoError) ↔
            (writer = .little ∨ Mirrored (body msg).length) ∧ 10 < (bytesOf reads).length ∧
              ∃ front last, reads = front ++ [last] ∧ (bytesOf front).length ≤ 10) := by
  constructor
  · intro value ba out int32 bounded order room bounded' order' room'
    obtain ⟨ba', prepended, boundedFront, unread, orderFront⟩ :=
      prependLen_ok writer value bounded room
    obtain ⟨out', wrote, boundedBack, orderBack, unread'⟩ :=
      writeInt32_ok writer value bounded' order' room'
    have width : ∀ host : ByteOrder, (host.store 4 (pattern 4 value)).length = 4 :=
      fun host => ByteOrder.length_store host 4 _
    have con := boundedBack.setReadPos (n := out.unread.length) (by
      rw [unread', List.length_append]
      exact Nat.le_add_right _ _)
    refine ⟨_, _, ba', out', width _, width _, prepended, unread, wrote, unread',
      store_other_eq_iff writer value, ?_, ?_⟩
    · rw [readInt32_eq_iff reader int32 boundedFront (orderFront.trans order) (width _) unread]
      exact store_other_eq_iff writer value
    · have left : (out'.setReadPos (out'.readPos + out.unread.length)).unread =
          ByteOrder.big.store 4 (pattern 4 value) ++ [] := by
        rw [con.unread_eq, unread', List.drop_left, List.append_nil]
      exact (readInt32_eq_iff reader int32 con.bounded (con.endian_eq.trans orderBack)
        (width .big) left).mpr rfl
  · intro msg valid fits
    have small : (body msg).length < 2 ^ 31 := by
      rw [kMaxMessageLen] at fits
      omega
    have size := length_sentBytes writer msg
    have total := length_frame msg
    obtain ⟨mid, sent, unread, prepended, serialized, bounded, order, bytes⟩ :=
      serialize_sends writer small
    refine ⟨mid, sent, unread, prepended, serialized, ?_, ?_⟩
    · rw [decodes_iff reader bounded order (by rw [bytes]; omega), bytes,
        ← sentBytes_eq_frame_iff writer small]
      constructor
      · rintro ⟨-, -, begins⟩
        exact (begins.eq_of_length size.symm).symm
      · intro same
        exact ⟨valid, fits, by rw [same]⟩
    · intro reads cut
      rw [receive_frame_iff reader valid fits (by rw [cut, bytes, size]),
        ← sentBytes_eq_frame_iff writer small, cut, bytes]

theorem one_inRange : IntType.int32.InRange 1 := ⟨by decide, by decide⟩

/-- One and `hello` from a little-endian host on a big-endian one. -/
theorem hello_crosses_hosts :
    (∃ stored ba' out', prependLen .little 1 fresh = .ok () ba' ∧
      ba'.unread = stored ++ fresh.unread ∧ writeInt32 .little 1 fresh = .ok () out' ∧
      out'.unread = fresh.unread ++ stored ∧ ∃ left, readInt32 .big ba' = .ok 1 left) ∧
    ∃ sent, serializeToByteArray .little hello fresh = .ok () sent ∧
      Decodes helloTypes .big sent hello ∧
      ∃ err ba', receive helloTypes .big (.ofReads lateCut) = .ok (err, some hello) ba' ∧
        err.errcode = .kNoError := by
  have wf := wf_new kInitSize
  constructor
  · obtain ⟨front, back, ba', out', -, -, prepended, unread, wrote, unread', same, read, -⟩ :=
      (host_order_iff helloTypes .little .big).1 1 fresh fresh one_inRange wf.toBounded rfl
        (by decide) wf.toBounded rfl (wf.makesRoom 4)
    rw [← same.mpr (Or.inl rfl)] at unread'
    exact ⟨front, ba', out', prepended, unread, wrote, unread', read.mpr (Or.inl rfl)⟩
  · obtain ⟨-, sent, -, -, serialized, decodes, received⟩ :=
      (host_order_iff helloTypes .little .big).2 hello hello_valid (by decide)
    obtain ⟨sent', serialized', -, -, unread⟩ :=
      serialize_fresh (show (body hello).length < 2 ^ 31 by decide)
    obtain ⟨-, rfl⟩ := EStateM.Result.ok.inj (serialized.symm.trans serialized')
    have cut : bytesOf lateCut = sent.unread := by
      rw [unread]
      rfl
    exact ⟨sent, serialized, decodes.mpr (Or.inl rfl),
      (received lateCut cut).mpr ⟨Or.inl rfl, by decide, [_], _, rfl, by decide⟩⟩

/-- What a big-endian host sends for `hello`, in one read. -/
def bigHostRead : List (Read 4096) := [⟨sentBytes .big hello, by decide, by decide⟩]

/-- A big-endian host prepends one with its bytes reversed, and the frame of `hello` is
refused for a length of fourteen reversed. -/
theorem big_host_not_understood :
    (∃ ba' out', prependLen .big 1 fresh = .ok () ba' ∧ ba'.unread = [1, 0, 0, 0] ∧
      writeInt32 .big 1 fresh = .ok () out' ∧ out'.unread = [0, 0, 0, 1] ∧
      ¬ ∃ left, readInt32 .big ba' = .ok 1 left) ∧
    ∃ sent, serializeToByteArray .big hello fresh = .ok () sent ∧
      bytesOf bigHostRead = sent.unread ∧ ¬ Decodes helloTypes .little sent hello ∧
      ∃ ba', receive helloTypes .little (.ofReads bigHostRead) =
        .ok (⟨.kInvalidLength, ascii "invalid length len= 234881024"⟩, none) ba' := by
  have wf := wf_new kInitSize
  constructor
  · obtain ⟨ba', prepended, bounded, unread, order⟩ :=
      prependLen_ok .big 1 wf.toBounded (by decide)
    obtain ⟨out', wrote, -, -, unread'⟩ := writeInt32_ok .big 1 wf.toBounded rfl (wf.makesRoom 4)
    refine ⟨ba', out', prepended, unread.trans (by rw [unread_new]; rfl), wrote,
      unread'.trans (by rw [unread_new]; rfl), ?_⟩
    rw [readInt32_eq_iff .big one_inRange bounded order (ByteOrder.length_store _ 4 _) unread]
    decide
  · obtain ⟨-, sent, -, -, serialized, bounded, order, bytes⟩ :=
      serialize_sends .big (show (body hello).length < 2 ^ 31 by decide)
    refine ⟨sent, serialized, bytes.symm ▸ rfl, ?_, ?_⟩
    · rw [decodes_iff .little bounded order (by rw [bytes]; decide), bytes]
      rintro ⟨-, -, begins⟩
      exact absurd begins (by decide)
    · obtain ⟨ba', received⟩ := receive_eq helloTypes .little bigHostRead
      have answer : receiveBytes helloTypes bigHostRead [] =
          (⟨.kInvalidLength, ascii "invalid length len= 234881024"⟩, none) := by
        decide +kernel
      exact ⟨ba', received.trans (by rw [answer])⟩

end Reyao.Rpc
