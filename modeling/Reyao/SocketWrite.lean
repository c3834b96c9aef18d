import Reyao.ByteArray

/-!
# Writing to a stream (`socket_stream.cc`, `socket.cc`)

What a non-blocking `send` does with a buffer is the kernel's choice. A `Wire` is
the sending side of a socket: the answers the kernel will give, and the bytes it
has accepted so far.
-/

namespace Reyao

/-- What a call of the original `send` answers. -/
inductive SendAnswer : Type
  /-- -1 with `EAGAIN`. -/
  | again
  /-- -1 with `EINTR`. -/
  | interrupted
  /-- -1 with another `errno`. -/
  | failed
  /-- The first `n` bytes of the buffer were taken. -/
  | accepted (n : Nat)
  deriving DecidableEq, Repr

/-- `do_io` around `send_origin`: it calls it again after `EINTR`, and after `EAGAIN`
once the socket is writable. Here are the answer it returns and the answers that
are left; there is no result while it still waits. A wait that times out counts as
an answer `failed`. -/
def do_io : List SendAnswer → Option (SendAnswer × List SendAnswer)
  | [] => none
  | .again :: rest => do_io rest
  | .interrupted :: rest => do_io rest
  | answer :: rest => some (answer, rest)

structure Wire : Type where
  connected : Bool
  answers : List SendAnswer
  sent : Bytes

namespace Wire

/-- `SocketStream::write(buf, size)` over `Socket::send`: the number of bytes or -1,
as an `int`. -/
def write (buf : Bytes) (wire : Wire) : Option (Int × Wire) :=
  if wire.connected then
    match do_io wire.answers with
    | none => none
    | some (.accepted n, rest) =>
        some (toInt n, { wire with answers := rest, sent := wire.sent ++ buf.take n })
    | some (_, rest) => some (-1, { wire with answers := rest })
  else some (-1, wire)

/-- `SocketStream::write(ByteArray* ba, size_t size)`. -/
def writeBuffer (size : Nat) (ba : ByteArray) (wire : Wire) : Option (Int × ByteArray × Wire) :=
  let (area, size) := ba.getReadArea size
  match wire.write (ba.bytesAt area size) with
  | none => none
  | some (rt, wire) =>
      some (rt, if rt > 0 then ba.setReadPos (sizeAdd ba.readPos rt) else ba, wire)

/-- The answers the kernel may give to offers of `size` bytes. -/
def Fits (size : Nat) (wire : Wire) : Prop :=
  ∀ n, .accepted n ∈ wire.answers → 0 < n ∧ n ≤ size

/-- The answer `do_io` returns. -/
def answer (wire : Wire) : Option SendAnswer := (do_io wire.answers).map Prod.fst

end Wire

variable {wire wire' : Wire} {buf : Bytes} {rt : Int}

theorem do_io_mem {answers rest : List SendAnswer} {answer : SendAnswer}
    (ran : do_io answers = some (answer, rest)) : answer ∈ answers := by
  induction answers with
  | nil => cases ran
  | cons first answers ih =>
      cases first with
      | again => exact List.mem_cons_of_mem _ (ih ran)
      | interrupted => exact List.mem_cons_of_mem _ (ih ran)
      | failed =>
          cases ran
          exact List.mem_cons_self
      | accepted n =>
          cases ran
          exact List.mem_cons_self

theorem do_io_decisive {answers rest : List SendAnswer} {answer : SendAnswer}
    (ran : do_io answers = some (answer, rest)) :
    answer = .failed ∨ ∃ n, answer = .accepted n := by
  induction answers with
  | nil => cases ran
  | cons first answers ih =>
      cases first with
      | again => exact ih ran
      | interrupted => exact ih ran
      | failed =>
          cases ran
          exact Or.inl rfl
      | accepted n =>
          cases ran
          exact Or.inr ⟨n, rfl⟩

theorem Wire.answer_mem {answer : SendAnswer} (is : wire.answer = some answer) :
    answer ∈ wire.answers := by
  rw [Wire.answer, Option.map_eq_some_iff] at is
  obtain ⟨⟨answer', rest⟩, ran, rfl⟩ := is
  exact do_io_mem ran

/-- A write makes one offer of the whole buffer. -/
theorem Wire.write_cases (ran : wire.write buf = some (rt, wire')) :
    rt = -1 ∧ wire'.sent = wire.sent ∧ (wire.connected = false ∨ wire.answer = some .failed) ∨
      ∃ n, wire.connected = true ∧ wire.answer = some (.accepted n) ∧ rt = toInt n ∧
        wire'.sent = wire.sent ++ buf.take n := by
  rw [Wire.write] at ran
  split at ran
  · rename_i connected
    cases answers : do_io wire.answers with
    | none =>
        rw [answers] at ran
        cases ran
    | some first =>
        obtain ⟨answer, rest⟩ := first
        have here : wire.answer = some answer := by rw [Wire.answer, answers]; rfl
        rw [answers] at ran
        rcases do_io_decisive answers with rfl | ⟨n, rfl⟩
        · cases ran
          exact Or.inl ⟨rfl, rfl, Or.inr here⟩
        · obtain ⟨result, rfl⟩ := Prod.mk.inj (Option.some.inj ran)
          exact Or.inr ⟨n, connected, here, result.symm, rfl⟩
  · rename_i unconnected
    cases ran
    exact Or.inl ⟨rfl, rfl, Or.inl (Bool.eq_false_of_not_eq_true unconnected)⟩

end Reyao
