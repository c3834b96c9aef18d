import Reyao.ByteArraySpec

/-!
# Streams of reads (`socket_stream.cc`)

What a peer sends reaches `recv` in pieces of the kernel's choosing. `Read size`
is the answer of one `recv` call of `size` bytes that delivers data: at least
one byte and at most `size`. A `SocketStream` holds the answers still to come;
when there are none left the peer has closed and `recv` returns 0.
-/

namespace Reyao

/-- What one `recv(buf, size)` delivers. -/
structure Read (size : Nat) : Type where
  data : Bytes
  nonempty : data ≠ []
  within : data.length ≤ size

/-- All the bytes of a sequence of reads. -/
def bytesOf {size : Nat} (reads : List (Read size)) : Bytes := reads.flatMap Read.data

structure SocketStream (size : Nat) : Type where
  connected : Bool
  incoming : List (Read size)

namespace SocketStream

/-- A connected socket that will deliver `reads`. -/
def ofReads {size : Nat} (reads : List (Read size)) : SocketStream size := ⟨true, reads⟩

/-- `read(ByteArray* ba, size_t size)`, with the answer of `recv` taken from the
stream. -/
def read {size : Nat} (ss : SocketStream size) : ByteArrayM (Int × SocketStream size) :=
  if ss.connected then do
    let area ← ByteArray.getWriteArea size
    match ss.incoming with
    | [] => return (0, ss)
    | r :: rest => do
        ByteArray.fillArea area r.data
        return (r.data.length, { ss with incoming := rest })
  else return (-1, ss)

end SocketStream

variable {size : Nat}

@[simp] theorem bytesOf_nil : bytesOf ([] : List (Read size)) = [] := rfl

@[simp] theorem bytesOf_cons (r : Read size) (reads : List (Read size)) :
    bytesOf (r :: reads) = r.data ++ bytesOf reads := rfl

@[simp] theorem bytesOf_append (front back : List (Read size)) :
    bytesOf (front ++ back) = bytesOf front ++ bytesOf back := List.flatMap_append

theorem Read.length_pos (r : Read size) : 0 < r.data.length :=
  List.length_pos_iff.mpr r.nonempty

theorem Read.data_injective : Function.Injective (Read.data : Read size → Bytes) := by
  intro r r' same
  cases r
  cases r'
  cases same
  rfl

/-- Every text can be delivered byte by byte. -/
theorem exists_reads (some_room : 0 < size) (text : Bytes) :
    ∃ reads : List (Read size), bytesOf reads = text := by
  induction text with
  | nil => exact ⟨[], rfl⟩
  | cons b text ih =>
      obtain ⟨reads, rest⟩ := ih
      exact ⟨⟨[b], List.cons_ne_nil b [], some_room⟩ :: reads, congrArg (List.cons b) rest⟩

/-- A stream that has bytes left has a read left. -/
theorem reads_ne_nil {reads : List (Read size)} (some_bytes : 0 < (bytesOf reads).length) :
    reads ≠ [] := by
  rintro rfl
  exact absurd some_bytes (Nat.lt_irrefl 0)

namespace SocketStream

variable {ba : ByteArray}

/-- A read that delivers data appends it to the buffer. -/
theorem read_cons (wf : ba.Wf) (small : size < 2 ^ 31) (r : Read size)
    (rest : List (Read size)) :
    ∃ ba', (ofReads (r :: rest)).read ba = .ok ((r.data.length : Int), ofReads rest) ba' ∧
      ba.Appended r.data ba' := by
  obtain ⟨mid, area, made, room⟩ := wf.getWriteArea small
  obtain ⟨ba', filled, appended⟩ := made.wf.fillArea (le_trans r.within room)
  refine ⟨ba', ?_, by simpa only [List.nil_append] using made.trans appended⟩
  have up : (ofReads (r :: rest)).connected = true := rfl
  rw [read, if_pos up, bind_ok area]
  exact bind_ok filled

/-- At the end of the stream `read` returns 0 and the buffer keeps its content. -/
theorem read_nil (wf : ba.Wf) (small : size < 2 ^ 31) :
    ∃ ba', (ofReads ([] : List (Read size))).read ba = .ok (0, ofReads []) ba' ∧
      ba.Appended [] ba' := by
  obtain ⟨ba', area, made, -⟩ := wf.getWriteArea small
  refine ⟨ba', ?_, made⟩
  have up : (ofReads ([] : List (Read size))).connected = true := rfl
  rw [read, if_pos up, bind_ok area]
  rfl

end SocketStream

end Reyao
