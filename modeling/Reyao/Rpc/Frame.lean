import Reyao.Rpc.Codec

/-!
# Frames and what the codec makes of them

`frame msg` is the byte string of a framed message and `parseFrame` the decoder
as a function of the unread bytes. `serializeToByteArray` leaves `frame msg` in
a new buffer, and `Parse` answers as `parseFrame` does; the two directions of
the round trip are then facts about byte strings.
-/

namespace Reyao.Rpc

open Lib Reyao.ByteArray

/-- A length word: four bytes, most significant first. -/
def word (n : Nat) : Bytes := ByteOrder.big.store 4 n

/-- The frame of a message without its leading length. -/
def body (msg : Message) : Bytes :=
  word (msg.typeName.length + 1) ++ (msg.typeName ++ 0 :: msg.payload)

def frame (msg : Message) : Bytes := word (body msg).length ++ body msg

/-- The number a length word denotes as an `int32_t`. -/
def wordValue (bs : Bytes) : Int := signed 4 (ByteOrder.big.load bs)

@[simp] theorem length_word (n : Nat) : (word n).length = 4 := ByteOrder.length_store .big 4 n

@[simp] theorem length_body (msg : Message) :
    (body msg).length = 4 + msg.typeName.length + 1 + msg.payload.length := by
  rw [body, List.length_append, length_word, List.length_append, List.length_cons]
  omega

@[simp] theorem length_frame (msg : Message) : (frame msg).length = 4 + (body msg).length := by
  rw [frame, List.length_append, length_word]

theorem wordValue_word {n : Nat} (small : n < 2 ^ 31) : wordValue (word n) = n := by
  rw [wordValue, word, ByteOrder.load_store, Nat.mod_eq_of_lt (by omega), signed_of_lt small]

/-- A non-negative length has one spelling. -/
theorem word_of_wordValue {bs : Bytes} {n : Nat} (width : bs.length = 4)
    (value : wordValue bs = n) : word n = bs := by
  have bound := ByteOrder.big.load_lt bs
  rw [width] at bound
  rw [word, ← eq_of_signed_eq bound value, ByteOrder.store_load width]

/-! ## The encoder -/

/-- The end of `serializeToByteArray` for any `int32_t`: the value goes in front of the
unread bytes as the frame's length word. -/
def prependLen (host : ByteOrder) (value : Int) : ByteArrayM Unit :=
  writePrepend (host.store 4 (byteSwapOnLittleEndian host 4 (pattern 4 value)))

theorem prependLen_ok (host : ByteOrder) (value : Int) {ba : ByteArray} (bounded : ba.Bounded)
    (room : 4 ≤ ba.readPos) :
    ∃ ba', prependLen host value ba = .ok () ba' ∧ ba'.Bounded ∧
      ba'.unread = host.other.store 4 (pattern 4 value) ++ ba.unread ∧
      ba'.endian = ba.endian := by
  rw [prependLen, ByteOrder.store_byteSwapOnLittleEndian]
  exact bounded.writePrepend (by rw [ByteOrder.length_store]; exact room)

/-- On a host of either order, serialising into a new buffer puts the body of the
frame there and its length in front; in particular the assertion on its size
holds. -/
theorem serialize_prepends (host : ByteOrder) {msg : Message}
    (small : (body msg).length < 2 ^ 31) :
    ∃ mid, mid.Bounded ∧ mid.endian = .big ∧ mid.unread = body msg ∧ 4 ≤ mid.readPos ∧
      serializeToByteArray host msg fresh = prependLen host (body msg).length mid := by
  have sizes := length_body msg
  have nameLen : toInt ((msg.typeName.length : Int) + 1) = (msg.typeName.length + 1 : Nat) :=
    toInt_of_lt (n := msg.typeName.length + 1) (by omega)
  have byteSize : toInt (msg.payload.length : Int) = (msg.payload.length : Nat) :=
    toInt_of_lt (by omega)
  have area : toSize (msg.payload.length : Int) = msg.payload.length :=
    toSize_natCast (by omega)
  obtain ⟨ba₁, write₁, app₁⟩ :=
    (wf_new kInitSize).writeWord host (w := 4) (by decide) (msg.typeName.length + 1)
  obtain ⟨ba₂, write₂, app₂⟩ := app₁.wf.write (show msg.typeName.length < 2 ^ 31 by omega)
  obtain ⟨ba₃, write₃, app₃⟩ := app₂.wf.write (show ([0] : Bytes).length < 2 ^ 31 by decide)
  obtain ⟨ba₄, made, app₄, room⟩ := app₃.wf.getWriteArea (k := msg.payload.length) (by omega)
  obtain ⟨ba₅, filled, app₅⟩ := app₄.wf.fillArea room
  have whole := (((app₁.trans app₂).trans app₃).trans app₄).trans app₅
  have unread₅ : ba₅.unread = body msg := by
    rw [whole.unread_eq, unread_new, body, List.nil_append]
    simp only [List.append_assoc, List.append_nil, List.singleton_append]
    rfl
  have readPos₅ : 4 ≤ ba₅.readPos := le_trans (by decide) whole.wf.prepend
  have size₅ : ba₅.getReadSize = (body msg).length := by
    rw [whole.wf.getReadSize_eq, unread₅]
  refine ⟨ba₅, whole.wf.toBounded, whole.endian_eq, unread₅, readPos₅, ?_⟩
  have asserted : sizeAdd (sizeAdd 4 (msg.typeName.length + 1 : Nat)) (msg.payload.length : Int) =
      (body msg).length := by
    rw [sizeAdd_natCast, sizeAdd_natCast, sizes]
    omega
  obtain ⟨⟨⟩, mid, copied, moved⟩ := bind_eq_ok filled
  rw [serializeToByteArray]
  simp only [nameLen, byteSize, area]
  rw [bind_ok (by rw [writeInt32, pattern_natCast (by omega)]; exact write₁), bind_ok write₂,
    bind_ok write₃, bind_ok made, bind_ok copied]
  simp only [sizeAdd_natCast]
  rw [bind_ok moved, get_bind,
    size₅, if_pos (by rw [← asserted, sizeAdd_natCast, sizeAdd_natCast]), toInt_of_lt small]
  rfl

/-- What a host sends for a message: the length goes out in the order of `prependLen`. -/
def sentBytes (host : ByteOrder) (msg : Message) : Bytes :=
  host.other.store 4 (body msg).length ++ body msg

theorem length_sentBytes (host : ByteOrder) (msg : Message) :
    (sentBytes host msg).length = (frame msg).length := by
  rw [sentBytes, List.length_append, ByteOrder.length_store, length_frame]

theorem serialize_sends (host : ByteOrder) {msg : Message} (small : (body msg).length < 2 ^ 31) :
    ∃ mid sent, mid.unread = body msg ∧ prependLen host (body msg).length mid = .ok () sent ∧
      serializeToByteArray host msg fresh = .ok () sent ∧ sent.Bounded ∧ sent.endian = .big ∧
      sent.unread = sentBytes host msg := by
  obtain ⟨mid, bounded, order, unread, room, serialized⟩ := serialize_prepends host small
  obtain ⟨sent, prepended, bounded', unread', order'⟩ :=
    prependLen_ok host (body msg).length bounded room
  refine ⟨mid, sent, unread, prepended, serialized.trans prepended, bounded',
    order'.trans order, ?_⟩
  rw [unread', unread, pattern_natCast (by omega), sentBytes]

/-- On a little-endian host, what is sent is the frame of the message. -/
theorem serialize_fresh {msg : Message} (small : (body msg).length < 2 ^ 31) :
    ∃ ba, serializeToByteArray .little msg fresh = .ok () ba ∧ ba.Bounded ∧
      ba.endian = .big ∧ ba.unread = frame msg := by
  obtain ⟨-, sent, -, -, serialized, bounded, order, bytes⟩ := serialize_sends .little small
  exact ⟨sent, serialized, bounded, order, bytes⟩

/-! ## The decoder -/

/-- `Parse` as a function of the unread bytes. -/
def parseFrame (pb : Protobuf) (len : Int) (errMsg : ErrMsg) (q : Bytes) :
    Option Message × ErrMsg :=
  let nameLen := wordValue (q.take 4)
  if nameLen < 2 ∨ nameLen > len - kHeaderLen then
    (none, ⟨.kInvalidNameLength, ascii "invalid name length = " ++ showInt nameLen⟩)
  else
    let name := (q.drop 4).take (nameLen - 1).toNat
    let rest := (q.drop 4).drop (nameLen - 1).toNat
    if rest.take 1 ≠ [0] then (none, ⟨.kParseError, ascii "invalid type name"⟩)
    else if pb.registered name then
      let parsed := pb.parseFromArray name
        ((rest.drop 1).take (len - kHeaderLen - nameLen).toNat)
      if parsed.1 then (some ⟨name, parsed.2⟩, errMsg)
      else (some ⟨name, parsed.2⟩,
        ⟨.kParseError, ascii "message " ++ name ++ ascii " parse error"⟩)
    else (none, ⟨.kUnknownMessageType, ascii "type name = " ++ name⟩)

/-- A byte read as a signed character is zero exactly when it is NUL. -/
theorem signed_byte_eq_zero (b : UInt8) : signed 1 (ofLeBytes [b]) = 0 ↔ b = 0 := by
  have byte : b.toNat < 256 := b.toNat_lt
  have value : ofLeBytes [b] = b.toNat := by
    rw [ofLeBytes, ofLeBytes, Nat.mul_zero, Nat.add_zero]
  have zero : b = 0 ↔ b.toNat = 0 := by
    rw [← UInt8.toNat_inj]
    rfl
  rw [value, signed, Int.bmod_def, zero]
  omega

/-- `readInt8` of a non-empty buffer: zero exactly when the next byte is NUL. -/
theorem readInt8_eq {ba : ByteArray} (bounded : ba.Bounded) (some_byte : 1 ≤ ba.unread.length) :
    ∃ v, readInt8 ba = .ok v (ba.setReadPos (ba.readPos + 1)) ∧
      (v ≠ 0 ↔ ba.unread.take 1 ≠ [0]) := by
  obtain ⟨b, rest, split⟩ : ∃ b rest, ba.unread = b :: rest := by
    cases unread : ba.unread with
    | nil => rw [unread] at some_byte; cases some_byte
    | cons b rest => exact ⟨b, rest, rfl⟩
  refine ⟨signed 1 (ofLeBytes [b]), ?_, ?_⟩
  · rw [readInt8, bind_ok (bounded.read_ok some_byte), split]
    rfl
  · rw [split, ne_eq, signed_byte_eq_zero, List.take_one]
    simp

/-- `Parse` of a frame that is wholly in the buffer returns what `parseFrame`
says; it neither throws nor reads past the unread bytes. -/
theorem Parse_eq (pb : Protobuf) (host : ByteOrder) (errMsg : ErrMsg) {ba : ByteArray} {len : Nat}
    (bounded : ba.Bounded) (order : ba.endian = .big) (long : kMinMessageLen ≤ len)
    (whole : len ≤ ba.unread.length) :
    ∃ ba', Parse pb host len errMsg ba = .ok (parseFrame pb len errMsg ba.unread) ba' := by
  have long' : 6 ≤ len := by
    have : (6 : Int) ≤ len := long
    omega
  have read₁ : readInt32 host ba =
      .ok (wordValue (ba.unread.take 4)) (ba.setReadPos (ba.readPos + 4)) := by
    have read := bounded.readInt32 host (show 4 ≤ ba.unread.length by omega)
    rwa [order] at read
  have con₁ := bounded.setReadPos (show 4 ≤ ba.unread.length by omega)
  have size₁ : (ba.unread.drop 4).length = ba.unread.length - 4 := List.length_drop
  rw [Parse, bind_ok read₁]
  simp only [parseFrame]
  generalize wordValue (ba.unread.take 4) = nameLen
  by_cases bad : nameLen < 2 ∨ nameLen > len - kHeaderLen
  · rw [if_pos bad, if_pos bad]
    exact ⟨_, rfl⟩
  · have inside : 2 ≤ nameLen ∧ nameLen ≤ len - 4 := by
      rw [kHeaderLen] at bad
      omega
    rw [if_neg bad, if_neg bad]
    generalize ba.setReadPos (ba.readPos + 4) = ba₁ at con₁
    rw [← con₁.unread_eq] at size₁ ⊢
    have con₂ := con₁.bounded.setReadPos
      (show (nameLen - 1).toNat ≤ ba₁.unread.length by omega)
    have name := con₁.bounded.bytesAt_readPos
      (show (nameLen - 1).toNat ≤ ba₁.unread.length by omega)
    rw [get_bind]
    simp only [name]
    rw [bind_ok (show (set (ba₁.setReadPos (ba₁.readPos + (nameLen - 1).toNat)) :
      ByteArrayM PUnit) ba₁ = .ok ⟨⟩ _ from rfl)]
    have size₂ : (ba₁.unread.drop (nameLen - 1).toNat).length =
        ba₁.unread.length - (nameLen - 1).toNat := List.length_drop
    generalize ba₁.setReadPos (ba₁.readPos + (nameLen - 1).toNat) = ba₂ at con₂
    rw [← con₂.unread_eq] at size₂ ⊢
    obtain ⟨v, read₃, nul⟩ := readInt8_eq con₂.bounded (by omega)
    have con₃ := con₂.bounded.setReadPos (show 1 ≤ ba₂.unread.length by omega)
    rw [bind_ok read₃]
    by_cases terminated : v ≠ 0
    · rw [if_pos terminated, if_pos (nul.mp terminated)]
      exact ⟨_, rfl⟩
    · rw [if_neg terminated, if_neg (fun no => terminated (nul.mpr no))]
      by_cases known : pb.registered (ba₁.unread.take (nameLen - 1).toNat) = true
      · rw [if_pos known, if_pos known]
        generalize ba₂.setReadPos (ba₂.readPos + 1) = ba₃ at con₃
        have payload := con₃.bounded.bytesAt_readPos
          (show (len - kHeaderLen - nameLen).toNat ≤ ba₃.unread.length by
            rw [con₃.unread_eq, List.length_drop, kHeaderLen]
            omega)
        rw [get_bind]
        simp only [payload, con₃.unread_eq]
        by_cases parsed : (pb.parseFromArray (ba₁.unread.take (nameLen - 1).toNat)
            ((ba₂.unread.drop 1).take (len - kHeaderLen - nameLen).toNat)).1 = true
        · rw [if_pos parsed, if_pos parsed]
          exact ⟨_, rfl⟩
        · rw [if_neg parsed, if_neg parsed]
          exact ⟨_, rfl⟩
      · rw [if_neg known, if_neg known]
        exact ⟨_, rfl⟩

end Reyao.Rpc
