import Reyao.Http.Response
import Reyao.Rpc.Frame
import Reyao.SocketWrite

/-!
# Sending responses and frames (`http/http_session.cc`, `rpc/codec.cc`)

`sendResponse` and `ProtobufCodec::send` offer everything to `send` once. What the
kernel does not accept then is never sent; `sends_whole_iff` says when that shows.
-/

namespace Reyao

open Http Rpc

/-- `HttpSession::sendResponse(rsp)`: the `int` of `write` is returned as a `bool`. -/
def Http.sendResponse (rsp : HttpResponse) (wire : Wire) : Option (Bool × Wire) :=
  (wire.write rsp.dump).map fun (rt, wire) => (decide (rt ≠ 0), wire)

/-- `ProtobufCodec::send(msg)`. -/
def Rpc.send (host : ByteOrder) (msg : Message) (wire : Wire) : Option (Except Fault Wire) :=
  match serializeToByteArray host msg ByteArray.fresh with
  | .error e _ => some (.error e)
  | .ok _ ba => (wire.writeBuffer ba.getReadSize ba).map fun (_, _, wire) => .ok wire

/-- The bytes `ProtobufCodec::send` has to send, when `serializeToByteArray` makes any. -/
def Rpc.framed (host : ByteOrder) (msg : Message) : Option Bytes :=
  match serializeToByteArray host msg ByteArray.fresh with
  | .error _ _ => none
  | .ok _ ba => some (ba.bytesAt ba.readPos ba.getReadSize)

/-- For a message that fits a frame these are the bytes of its frame. -/
theorem Rpc.framed_eq {msg : Message} (small : (body msg).length < 2 ^ 31) :
    framed .little msg = some (frame msg) := by
  obtain ⟨ba, ran, bounded, -, unread⟩ := serialize_fresh small
  rw [framed, ran]
  simp only
  rw [bounded.getReadSize_eq, bounded.bytesAt_readPos (le_refl _), List.take_length, unread]

/-- A write that accepts what it is offered, or reports that it accepted nothing. -/
def Wire.Whole (size : Nat) (wire : Wire) : Prop :=
  wire.connected = true ∧ ∀ answer, wire.answer = some answer →
    ∃ n, answer = .accepted n ∧ (n = size ∨ toInt n = 0)

/-- A write that accepts what it is offered, if it accepts anything. -/
def Wire.WholeOrFailed (size : Nat) (wire : Wire) : Prop :=
  ∀ n, wire.connected = true → wire.answer = some (.accepted n) → n = size

theorem append_take_ne {sent buf : Bytes} {n : Nat} (short : n < buf.length) :
    sent ++ buf.take n ≠ sent ++ buf := by
  intro same
  have length := congrArg List.length (List.append_cancel_left same)
  rw [List.length_take] at length
  omega

section

variable {wire : Wire}

/-- A write that returns. -/
theorem Wire.write_of_answer {answer : SendAnswer} (buf : Bytes) (connected : wire.connected = true)
    (is : wire.answer = some answer) :
    (answer = .failed ∧ ∃ rest, wire.write buf = some (-1, { wire with answers := rest })) ∨
      ∃ n rest, answer = .accepted n ∧ wire.write buf =
        some (toInt n, { wire with answers := rest, sent := wire.sent ++ buf.take n }) := by
  rw [Wire.answer, Option.map_eq_some_iff] at is
  obtain ⟨⟨answer', rest⟩, ran, rfl⟩ := is
  rcases do_io_decisive ran with rfl | ⟨n, rfl⟩
  · refine Or.inl ⟨rfl, rest, ?_⟩
    rw [Wire.write, if_pos connected, ran]
  · refine Or.inr ⟨n, rest, rfl, ?_⟩
    rw [Wire.write, if_pos connected, ran]

theorem Http.sendResponse_iff (rsp : HttpResponse) (fits : wire.Fits rsp.dump.length) :
    (∀ wire', sendResponse rsp wire = some (true, wire') → wire'.sent = wire.sent ++ rsp.dump) ↔
      wire.Whole rsp.dump.length := by
  constructor
  · intro only
    have lost : ∀ wire', sendResponse rsp wire = some (true, wire') → wire'.sent ≠ wire.sent := by
      intro wire' ran same
      have all := only wire' ran
      rw [same] at all
      exact rsp.dump_ne_nil (List.append_right_eq_self.mp all.symm)
    have connected : wire.connected = true := by
      by_contra off
      refine lost wire ?_ rfl
      rw [sendResponse, Wire.write, if_neg off]
      rfl
    refine ⟨connected, fun answer is => ?_⟩
    rcases Wire.write_of_answer rsp.dump connected is with ⟨-, rest, ran⟩ | ⟨n, rest, rfl, ran⟩
    · refine absurd rfl (lost { wire with answers := rest } ?_)
      rw [sendResponse, ran]
      rfl
    · refine ⟨n, rfl, ?_⟩
      by_contra neither
      obtain ⟨short, reported⟩ := not_or.mp neither
      have within := (fits n (Wire.answer_mem is)).2
      have all := only { wire with answers := rest, sent := wire.sent ++ rsp.dump.take n } (by
        rw [sendResponse, ran]
        simp only [Option.map_some, ne_eq, reported, not_false_eq_true, decide_true])
      exact append_take_ne (Nat.lt_of_le_of_ne within short) all
  · rintro ⟨connected, whole⟩ wire' ran
    rw [sendResponse, Option.map_eq_some_iff] at ran
    obtain ⟨⟨rt, wire''⟩, wrote, result⟩ := ran
    obtain ⟨reported, rfl⟩ := Prod.mk.inj result
    have nonzero : rt ≠ 0 := of_decide_eq_true reported
    rcases Wire.write_cases wrote with ⟨-, -, off | failed⟩ | ⟨n, -, is, value, sent⟩
    · rw [connected] at off
      cases off
    · obtain ⟨n, other, -⟩ := whole _ failed
      cases other
    · obtain ⟨n', same, size | zero⟩ := whole _ is
      · cases same
        rw [sent, size, List.take_length]
      · cases same
        exact absurd (value.trans zero) nonzero

/-- A message that makes a frame is offered as a whole; the others throw. -/
theorem Rpc.send_eq (host : ByteOrder) (msg : Message) (wire : Wire) :
    (∃ e, framed host msg = none ∧ send host msg wire = some (.error e)) ∨
      ∃ bytes, framed host msg = some bytes ∧
        send host msg wire = (wire.write bytes).map fun written => .ok written.2 := by
  rw [framed, send]
  cases serializeToByteArray host msg ByteArray.fresh with
  | error e ba => exact Or.inl ⟨e, rfl, rfl⟩
  | ok _ ba =>
      refine Or.inr ⟨_, rfl, ?_⟩
      simp only [Wire.writeBuffer, ByteArray.getReadArea, gt_iff_lt, lt_irrefl, if_false]
      cases wire.write (ba.bytesAt ba.readPos ba.getReadSize) <;> rfl

theorem Rpc.send_iff (host : ByteOrder) (msg : Message)
    (fits : ∀ bytes, framed host msg = some bytes → wire.Fits bytes.length) :
    (∀ wire', send host msg wire = some (.ok wire') → ∃ bytes, framed host msg = some bytes ∧
      (wire'.sent = wire.sent ++ bytes ∨ wire.connected = false ∨ wire.answer = some .failed)) ↔
      ∀ bytes, framed host msg = some bytes → wire.WholeOrFailed bytes.length := by
  rcases send_eq host msg wire with ⟨e, nothing, threw⟩ | ⟨buf, made, writes⟩
  · rw [nothing, threw]
    constructor
    · rintro - bytes ⟨⟩
    · rintro - wire' ⟨⟩
  · rw [made] at fits ⊢
    rw [writes]
    constructor
    · rintro only _ ⟨⟩ n connected is
      rcases Wire.write_of_answer buf connected is with ⟨other, -⟩ | ⟨n', rest, same, ran⟩
      · cases other
      · cases same
        have within := (fits buf rfl n (Wire.answer_mem is)).2
        obtain ⟨_, ⟨⟩, all | off | failed⟩ :=
          only { wire with answers := rest, sent := wire.sent ++ buf.take n } (by rw [ran]; rfl)
        · by_contra short
          exact append_take_ne (Nat.lt_of_le_of_ne within short) all
        · cases connected.symm.trans off
        · cases is.symm.trans failed
    · intro whole wire' ran
      obtain ⟨⟨rt, wire''⟩, wrote, ⟨⟩⟩ := Option.map_eq_some_iff.mp ran
      refine ⟨buf, rfl, ?_⟩
      rcases Wire.write_cases wrote with ⟨-, -, failed⟩ | ⟨n, connected, is, -, sent⟩
      · exact Or.inr failed
      · refine Or.inl ?_
        rw [sent, whole buf rfl n connected is, List.take_length]

/-- **When nothing is lost in sending.** `sendResponse` returns true only after the whole
response was accepted exactly when the socket is connected and the one `send` takes
everything (or a multiple of 2^32 bytes, which is returned as 0); and
`ProtobufCodec::send` returns only after the whole frame was accepted or a send
failed exactly when the one `send` takes everything or fails. -/
theorem sends_whole_iff (rsp : HttpResponse) (host : ByteOrder) (msg : Message) (wire : Wire) :
    (wire.Fits rsp.dump.length →
      ((∀ wire', sendResponse rsp wire = some (true, wire') →
        wire'.sent = wire.sent ++ rsp.dump) ↔ wire.Whole rsp.dump.length)) ∧
    ((∀ bytes, framed host msg = some bytes → wire.Fits bytes.length) →
      ((∀ wire', Rpc.send host msg wire = some (.ok wire') →
        ∃ bytes, framed host msg = some bytes ∧ (wire'.sent = wire.sent ++ bytes ∨
          wire.connected = false ∨ wire.answer = some .failed)) ↔
        ∀ bytes, framed host msg = some bytes → wire.WholeOrFailed bytes.length)) :=
  ⟨sendResponse_iff rsp, Rpc.send_iff host msg⟩

end

/-! ## Two sockets -/

/-- A socket whose kernel answers `EAGAIN` and then takes `n` bytes. -/
def taking (n : Nat) : Wire := ⟨true, [.again, .accepted n], []⟩

theorem taking_fits {n size : Nat} (some_bytes : 0 < n) (within : n ≤ size) :
    (taking n).Fits size := by
  intro n' member
  rcases List.mem_cons.mp member with other | last
  · cases other
  · cases List.mem_singleton.mp last
    exact ⟨some_bytes, within⟩

def greeting : Message := ⟨ascii "Echo", ascii "hi"⟩

theorem framed_greeting : framed .little greeting = some (frame greeting) :=
  framed_eq (by decide)

/-- The response and the frame that fit what the kernel takes are sent. -/
theorem taking_all_sends :
    (∀ wire', sendResponse (.new 0x11 false) (taking 38) = some (true, wire') →
      wire'.sent = (HttpResponse.new 0x11 false).dump) ∧
    ∀ wire', Rpc.send .little greeting (taking 15) = some (.ok wire') →
      ∃ bytes, framed .little greeting = some bytes ∧ (wire'.sent = bytes ∨
        (taking 15).connected = false ∨ (taking 15).answer = some .failed) := by
  constructor
  · refine ((sends_whole_iff _ .little greeting _).1
      (taking_fits (by decide) (by decide))).mpr ⟨rfl, ?_⟩
    rintro answer ⟨⟩
    exact ⟨38, rfl, Or.inl (by decide)⟩
  · refine ((sends_whole_iff (.new 0x11 false) _ _ _).2 ?_).mpr ?_
    · intro bytes made
      cases framed_greeting.symm.trans made
      exact taking_fits (by decide) (by decide)
    · rintro bytes made n - ⟨⟩
      cases framed_greeting.symm.trans made
      decide

/-- A kernel that takes ten bytes, or fails: the response is cut or not sent at all,
and the session says true. -/
theorem not_sends_whole :
    (taking 10).Fits (HttpResponse.new 0x11 false).dump.length ∧
    (∃ wire', sendResponse (.new 0x11 false) (taking 10) = some (true, wire') ∧
      wire'.sent = ascii "HTTP/1.1 2") ∧
    (∃ wire', sendResponse (.new 0x11 false) ⟨true, [.failed], []⟩ = some (true, wire') ∧
      wire'.sent = []) ∧
    ∃ wire', Rpc.send .little greeting (taking 10) = some (.ok wire') ∧
      wire'.sent = (frame greeting).take 10 ∧ (taking 10).answer = some (.accepted 10) := by
  refine ⟨taking_fits (by decide) (by decide), ⟨_, rfl, by decide⟩, ⟨_, rfl, rfl⟩, ?_⟩
  rcases send_eq .little greeting (taking 10) with ⟨e, nothing, -⟩ | ⟨buf, made, writes⟩
  · cases framed_greeting.symm.trans nothing
  · cases framed_greeting.symm.trans made
    rw [writes]
    exact ⟨_, rfl, rfl, rfl⟩

end Reyao
