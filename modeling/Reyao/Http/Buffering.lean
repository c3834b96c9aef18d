import Reyao.Http.RequestText
import Reyao.Http.Returns

/-!
# How much a parse takes in

The parsers compare `readSize_` with the size of their buffer before every read, but
nothing ever adds to `readSize_`. A parse therefore goes on reading until its message is
decided, and `parse_bounded_iff` says for which streams that is within the limit.
-/

namespace Reyao.Http

open Lib

section

variable {μ : Type} [HttpMessage μ]

/-- The bytes hold a whole message, or enough of one to be refused. -/
def Decides (msg : μ) (bytes : Bytes) : Prop :=
  ∃ r left, Settles (machine μ) (.firstLine, msg) bytes (.stopped r) left

/-- The reads up to the one that decides the message, or all of them if none does, deliver
no more than the buffer size. -/
def WithinBuffer (msg : μ) (reads : List (Read (HttpMessage.maxBufferSize μ))) : Prop :=
  ∃ front back, reads = front ++ back ∧
    (bytesOf front).length ≤ HttpMessage.maxBufferSize μ ∧
    (back = [] ∨ Decides msg (bytesOf front))

/-- What a parse with a new parser takes in. -/
def takes (msg : μ) (reads : List (Read (HttpMessage.maxBufferSize μ))) : Nat :=
  HttpParser.takenIn (reads.length + 2) (.ofReads reads) { msg := msg }

/-- A parse that returns has taken in what is gone from the stream. -/
theorem takes_of_returned {msg : μ} {reads : List (Read (HttpMessage.maxBufferSize μ))}
    {accepted : Bool} {ss : SocketStream (HttpMessage.maxBufferSize μ)} {p : HttpParser μ}
    (returned : HttpParser.parseMessage (reads.length + 2) (.ofReads reads) { msg := msg } =
      .ok (accepted, ss) p) :
    takes msg reads + (bytesOf ss.incoming).length = (bytesOf reads).length := by
  obtain ⟨v, left, rest, -, answers, -, taken⟩ := parseMessage_starts reads msg
  rw [returned] at answers
  match v with
  | .paused s =>
      obtain ⟨p, same, -⟩ := answers
      cases same
      exact taken
  | .stopped ⟨.ok accepted, msg⟩ =>
      obtain ⟨p, same, -⟩ := answers
      cases same
      exact taken
  | .stopped ⟨.error e, msg⟩ =>
      obtain ⟨p, same, -⟩ := answers
      cases same

/-- A stream that does not decide its message is taken in as a whole, however long it is. -/
theorem takes_of_not_decides {msg : μ} {reads : List (Read (HttpMessage.maxBufferSize μ))}
    (open_end : ¬Decides msg (bytesOf reads)) : takes msg reads = (bytesOf reads).length := by
  obtain ⟨v, left, rest, drive, -, -, taken⟩ := parseMessage_starts reads msg
  cases v with
  | paused s =>
      rw [List.map_eq_nil_iff.mp drive.paused_all] at taken
      exact taken
  | stopped r => exact absurd ⟨r, _, drive.settles⟩ open_end

/-- A parse reads until the message is decided. -/
theorem takes_le_iff (msg : μ) (reads : List (Read (HttpMessage.maxBufferSize μ))) :
    takes msg reads ≤ HttpMessage.maxBufferSize μ ↔ WithinBuffer msg reads := by
  obtain ⟨v, left, rest, drive, -, -, taken⟩ := parseMessage_starts reads msg
  rw [← takes] at taken
  constructor
  · intro within
    cases v with
    | paused s =>
        have none_left := List.map_eq_nil_iff.mp drive.paused_all
        rw [none_left] at taken
        exact ⟨reads, [], (List.append_nil _).symm, by rw [← taken]; exact within, Or.inl rfl⟩
    | stopped r =>
        obtain ⟨front, chunks, settles⟩ := drive.consumed
        obtain ⟨read, unread, rfl, rfl, same⟩ := List.map_eq_append_iff.mp chunks
        obtain rfl := List.map_injective_iff.mpr Read.data_injective same
        rw [bytesOf_append, List.length_append] at taken
        exact ⟨read, unread, rfl, by omega, Or.inr ⟨r, left, settles⟩⟩
  · rintro ⟨front, back, rfl, within, ended⟩
    rw [bytesOf_append, List.length_append] at taken
    rcases ended with rfl | ⟨r, left', settles⟩
    · have none_more : (bytesOf ([] : List (Read (HttpMessage.maxBufferSize μ)))).length = 0 := rfl
      omega
    · rw [List.map_append] at drive
      obtain ⟨-, unread, split⟩ := drive.within settles
      have longer : (bytesOf back).length ≤ (bytesOf rest).length := by
        have sizes := congrArg (fun chunks => (List.flatten chunks).length) split
        simp only [List.flatten_append, List.length_append] at sizes
        exact sizes ▸ Nat.le_add_left _ _
      omega

end

/-- **When a parse keeps to its buffer size.** Whatever a peer sends and however it is cut
into reads: one call of `parseRequest` takes in at most `s_maxReqBufferSize` bytes, and one
of `parseResponse` at most `s_maxResBufferSize`, exactly when the reads up to the one that
decides the message deliver no more. -/
theorem parse_bounded_iff (req : HttpRequest) (reads : List (Read 4096)) (rsp : HttpResponse)
    (reads' : List (Read (HttpMessage.maxBufferSize HttpResponse))) :
    (takes req reads ≤ 4096 ↔ WithinBuffer req reads) ∧
      (takes rsp reads' ≤ 64 * 1024 * 1024 ↔ WithinBuffer rsp reads') :=
  ⟨takes_le_iff req reads, takes_le_iff rsp reads'⟩

/-- A line of 4096 bytes that does not end. -/
def endlessLine : Read 4096 :=
  ⟨List.replicate 4096 97, by rw [Ne, List.replicate_eq_nil_iff]; decide,
    by rw [List.length_replicate]⟩

theorem not_decides_letters (msg : HttpRequest) (n : Nat) :
    ¬Decides msg (List.replicate n 97) := by
  rintro ⟨r, left, settles⟩
  have free : (13 : UInt8) ∉ List.replicate n 97 := fun member =>
    absurd (List.eq_of_mem_replicate member) (by decide)
  have waits : advance (.firstLine, msg) (List.replicate n 97) = .wait := by
    rw [advance, byLine, search_free free]
  cases (settles.unique (.wait waits)).1

/-- Two reads of a line that does not end are both taken in, twice the buffer size. -/
theorem parseRequest_takes_twice :
    takes (HttpRequest.new 0x11 false) [endlessLine, endlessLine] = 8192 ∧
      ¬takes (HttpRequest.new 0x11 false) [endlessLine, endlessLine] ≤ 4096 := by
  have letters : bytesOf [endlessLine, endlessLine] = List.replicate (4096 + 4096) 97 := by
    rw [bytesOf_cons, bytesOf_cons, bytesOf_nil, List.append_nil, List.replicate_add]
    rfl
  have open_end : ¬Decides (HttpRequest.new 0x11 false) (bytesOf [endlessLine, endlessLine]) := by
    rw [letters]
    exact not_decides_letters _ _
  have whole := takes_of_not_decides open_end
  rw [letters, List.length_replicate] at whole
  rw [whole]
  exact ⟨rfl, by decide⟩

end Reyao.Http
