import Reyao.Rpc.Frame

/-!
# The frame codec round trip

What the encoder writes the decoder reads back, and a frame the decoder accepts
is the frame of what it returns: no frame has a second spelling.
-/

namespace Reyao.Rpc

open Lib Reyao.ByteArray

variable {pb : Protobuf} {msg : Message}

theorem Message.Valid.typeName_ne_nil (valid : msg.Valid pb) : msg.typeName ≠ [] := by
  intro empty
  have registered := valid.registered
  rw [empty, pb.registered_nil] at registered
  cases registered

/-- The decoder reads a well-formed frame back. -/
theorem parseFrame_body (valid : msg.Valid pb) (small : (body msg).length < 2 ^ 31)
    (errMsg : ErrMsg) (rest : Bytes) :
    parseFrame pb (body msg).length errMsg (body msg ++ rest) = (some msg, errMsg) := by
  have name_pos : 0 < msg.typeName.length := List.length_pos_iff.mpr valid.typeName_ne_nil
  have sizes := length_body msg
  have head : (body msg ++ rest).take 4 = word (msg.typeName.length + 1) := by
    rw [body, List.append_assoc]
    exact List.take_left' (length_word _)
  have tail : (body msg ++ rest).drop 4 = msg.typeName ++ (0 :: msg.payload ++ rest) := by
    rw [body, List.append_assoc, List.drop_left' (length_word _), List.append_assoc]
  have nameLen : wordValue (word (msg.typeName.length + 1)) = (msg.typeName.length + 1 : Nat) :=
    wordValue_word (by omega)
  have count : (((msg.typeName.length + 1 : Nat) : Int) - 1).toNat = msg.typeName.length := by
    omega
  have payloadLen : (((body msg).length : Int) - kHeaderLen -
      (msg.typeName.length + 1 : Nat)).toNat = msg.payload.length := by
    rw [kHeaderLen]
    omega
  have good : ¬(((msg.typeName.length + 1 : Nat) : Int) < 2 ∨
      ((msg.typeName.length + 1 : Nat) : Int) > ((body msg).length : Int) - kHeaderLen) := by
    rw [kHeaderLen]
    omega
  simp only [parseFrame, head, tail, nameLen, count, payloadLen, List.take_left,
    List.drop_left]
  have parsed : (pb.parseFromArray msg.typeName
      (((0 :: msg.payload ++ rest).drop 1).take msg.payload.length)) =
      pb.parseFromArray msg.typeName msg.payload := by
    rw [List.cons_append, List.drop_one, List.tail_cons, List.take_left]
  have nul : ¬((0 :: msg.payload ++ rest).take 1 ≠ [0]) := by
    rw [List.cons_append, List.take_one]
    exact not_not_intro rfl
  rw [if_neg good, if_neg nul, if_pos valid.registered, parsed, if_pos valid.parses,
    pb.parse_content valid.parses]

/-- A frame in a buffer is read back on a host of either order: `readInt32` takes its length
and `Parse` the rest of it. -/
theorem decode_frame (host : ByteOrder) (valid : msg.Valid pb) (small : (body msg).length < 2 ^ 31)
    {ba : ByteArray} (bounded : ba.Bounded) (order : ba.endian = .big) {rest : Bytes}
    (bytes : ba.unread = frame msg ++ rest) :
    ∃ ba' ba'', readInt32 host ba = .ok (body msg).length ba' ∧ ba'.Bounded ∧
      ba'.unread = body msg ++ rest ∧
      Parse pb host (body msg).length noError ba' = .ok (some msg, noError) ba'' := by
  have name_pos : 0 < msg.typeName.length := List.length_pos_iff.mpr valid.typeName_ne_nil
  have sizes := length_body msg
  have head : ba.unread.take 4 = word (body msg).length := by
    rw [bytes, frame, List.append_assoc]
    exact List.take_left' (length_word _)
  have long : 4 ≤ ba.unread.length := by
    rw [bytes, List.length_append, length_frame]
    omega
  have con := bounded.setReadPos long
  have tail : (ba.setReadPos (ba.readPos + 4)).unread = body msg ++ rest := by
    rw [con.unread_eq, bytes, frame, List.append_assoc]
    exact List.drop_left' (length_word _)
  have read := bounded.readInt32 host long
  have value : signed 4 (ByteOrder.big.load (word (body msg).length)) = (body msg).length :=
    wordValue_word small
  rw [order, head, value] at read
  obtain ⟨ba'', parsed⟩ := Parse_eq pb host noError con.bounded (con.endian_eq.trans order)
    (show kMinMessageLen ≤ ((body msg).length : Int) by
      rw [kMinMessageLen, kHeaderLen]
      omega)
    (show (body msg).length ≤ _ by
      rw [tail, List.length_append]
      omega)
  rw [tail, parseFrame_body valid small noError rest] at parsed
  exact ⟨_, ba'', read, con.bounded, tail, parsed⟩

/-- A frame the decoder accepts is the frame of the message it returns. -/
theorem body_of_parseFrame {len : Nat} {q : Bytes} {got : Option Message} {err : ErrMsg}
    (whole : len ≤ q.length)
    (result : parseFrame pb len noError q = (got, err)) (ok : err.errcode = .kNoError) :
    ∃ msg, got = some msg ∧ err = noError ∧ msg.Valid pb ∧ body msg = q.take len := by
  simp only [parseFrame] at result
  generalize value : wordValue (q.take 4) = nameLen at result
  by_cases bad : nameLen < 2 ∨ nameLen > len - kHeaderLen
  · rw [if_pos bad] at result
    cases result
    cases ok
  rw [if_neg bad] at result
  by_cases nul : ((q.drop 4).drop (nameLen - 1).toNat).take 1 ≠ [0]
  · rw [if_pos nul] at result
    cases result
    cases ok
  rw [if_neg nul] at result
  by_cases known : pb.registered ((q.drop 4).take (nameLen - 1).toNat) = true
  · rw [if_pos known] at result
    by_cases parsed : (pb.parseFromArray ((q.drop 4).take (nameLen - 1).toNat)
        ((((q.drop 4).drop (nameLen - 1).toNat).drop 1).take
          (len - kHeaderLen - nameLen).toNat)).1 = true
    · rw [if_pos parsed, pb.parse_content parsed] at result
      cases result
      refine ⟨_, rfl, rfl, ⟨known, parsed⟩, ?_⟩
      rw [kHeaderLen] at bad
      obtain ⟨k, rfl⟩ : ∃ k : Nat, nameLen = k + 1 := ⟨(nameLen - 1).toNat, by omega⟩
      have count : ((k : Int) + 1 - 1).toNat = k := by omega
      have payloadLen : ((len : Int) - kHeaderLen - (k + 1)).toNat = len - 4 - k - 1 := by
        rw [kHeaderLen]
        omega
      have width : (q.take 4).length = 4 := by
        rw [List.length_take]
        omega
      rw [count] at nul
      have nul' : ((q.drop 4).drop k).take 1 = [0] := not_not.mp nul
      have nameSize : ((q.drop 4).take k).length = k := by
        rw [List.length_take, List.length_drop]
        omega
      -- reassemble the prefix of length `len` from its four fields
      simp only [body, count, payloadLen, nameSize]
      rw [word_of_wordValue width (by exact_mod_cast value)]
      have fields : q.take len = q.take 4 ++ ((q.drop 4).take k ++
          (((q.drop 4).drop k).take 1 ++
            (((q.drop 4).drop k).drop 1).take (len - 4 - k - 1))) := by
        conv_lhs => rw [show len = 4 + (k + (1 + (len - 4 - k - 1))) by omega]
        rw [List.take_add, List.take_add, List.take_add]
      rw [fields, nul']
      rfl
    · rw [if_neg parsed] at result
      cases result
      cases ok
  · rw [if_neg known] at result
    cases result
    cases ok

/-- Both directions of the codec. A message that fits is serialised into a frame
whose leading word is the number of bytes after it and which parses back to the
message; bytes that parse are, after their length, the serialisation of what
they parse to. -/
theorem codec_round_trip (pb : Protobuf) :
    (∀ msg : Message, msg.Valid pb →
      4 + (msg.typeName.length : Int) + 1 + msg.payload.length ≤ kMaxMessageLen →
      ∃ ba len ba' ba'', serializeToByteArray .little msg fresh = .ok () ba ∧
        readInt32 .little ba = .ok len ba' ∧ len = ba'.getReadSize ∧
        Parse pb .little len noError ba' = .ok (some msg, noError) ba'') ∧
    (∀ (ba : ByteArray) (len : Nat) (msg : Message) (err : ErrMsg) (ba' : ByteArray),
      ba.Bounded → ba.endian = .big → len < 2 ^ 31 → kMinMessageLen ≤ len →
      len ≤ ba.unread.length →
      Parse pb .little len noError ba = .ok (some msg, err) ba' → err.errcode = .kNoError →
      ∃ out, serializeToByteArray .little msg fresh = .ok () out ∧
        out.unread = word len ++ ba.unread.take len) := by
  constructor
  · intro msg valid fits
    have small : (body msg).length < 2 ^ 31 := by
      rw [kMaxMessageLen] at fits
      rw [length_body]
      omega
    obtain ⟨ba, serialized, bounded, order, unread⟩ := serialize_fresh small
    obtain ⟨ba', ba'', read, bounded', rest, parsed⟩ :=
      decode_frame .little valid small bounded order (unread.trans (List.append_nil _).symm)
    refine ⟨ba, _, ba', ba'', serialized, read, ?_, parsed⟩
    rw [bounded'.getReadSize_eq, rest, List.append_nil]
  · intro ba len msg err ba' bounded order small long whole parsed ok
    obtain ⟨ba'', computed⟩ := Parse_eq pb .little noError bounded order long whole
    rw [computed] at parsed
    cases parsed' : parseFrame pb len noError ba.unread with
    | mk got err' =>
        rw [parsed'] at parsed
        cases parsed
        obtain ⟨msg', same, -, -, bytes⟩ := body_of_parseFrame whole parsed' ok
        cases same
        have length : (body msg).length = len := by
          rw [bytes, List.length_take]
          omega
        obtain ⟨out, serialized, -, -, unread⟩ :=
          serialize_fresh (show (body msg).length < 2 ^ 31 by omega)
        refine ⟨out, serialized, ?_⟩
        rw [unread, frame, length, bytes]

/-- A message to try the codec on, and a library that knows its type. -/
def hello : Message := ⟨ascii "Echo", ascii "hello"⟩

def helloTypes : Protobuf := .ofNames [ascii "Echo"]

theorem hello_valid : hello.Valid helloTypes := ⟨by decide, rfl⟩

theorem hello_round_trip :
    ∃ ba len ba' ba'', serializeToByteArray .little hello fresh = .ok () ba ∧
      readInt32 .little ba = .ok len ba' ∧ len = ba'.getReadSize ∧
      Parse helloTypes .little len noError ba' = .ok (some hello, noError) ba'' :=
  (codec_round_trip helloTypes).1 hello hello_valid (by decide)

end Reyao.Rpc
