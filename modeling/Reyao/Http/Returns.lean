import Reyao.Http.Heads
import Reyao.Lib.Loop

/-!
# How a parse ends

The loops of the parser are left after finitely many turns, whatever the stream
(`parseMessage_leaves`): the fuel of their definitions is never used up. They are left by
an exception on three occasions only, all of them lines of the head, so that the
lines of a stream decide whether its parse returns (`parse_returns_iff`).
-/

namespace Reyao.Http

open Lib

variable {μ : Type} [HttpMessage μ]

/-! ## The loops -/

namespace HttpParser

/-- A stream and a parser that reads it. -/
abbrev Reader (μ : Type) [HttpMessage μ] : Type :=
  SocketStream (HttpMessage.maxBufferSize μ) × HttpParser μ

/-- What `parseRequest` and `parseResponse` are left with. -/
abbrev Answer (μ : Type) [HttpMessage μ] : Type :=
  EStateM.Result Fault (HttpParser μ) (Bool × SocketStream (HttpMessage.maxBufferSize μ))

/-- A turn of their outer loop, on a stream and a parser. -/
def messageTurn (buffer : ParserM μ Unit) (again : Reader μ → Answer μ) (reader : Reader μ) :
    Answer μ :=
  readTurn buffer (fun ss p => again (ss, p)) reader.1 reader.2

variable {p : HttpParser μ}

/-- The loop of `parseChunkedBody` cannot go round without taking anything: a size
that is set belongs to content. -/
def InChunks (p : HttpParser μ) : Prop :=
  p.ba.Wf ∧ (p.chunkSize ≠ 0 → p.chunkState = .content)

/-- What is left to do in a chunked body. -/
def chunkRank (p : HttpParser μ) : Nat :=
  2 * p.ba.getReadSize + if p.chunkSize = 0 then 0 else 1

/-- A size is set exactly while the content of a chunk is awaited. -/
def Coupled (p : HttpParser μ) : Prop := p.chunkSize = 0 ↔ p.chunkState = .size

/-- A turn that leaves the loop. -/
theorem chunkedTurn_left {again : ParserM μ Unit} {p' : HttpParser μ}
    (left : chunkStep p = (p', false)) : chunkedTurn again p = .ok () p' := by
  rw [chunkedTurn, left]
  rfl

/-- A turn after which the loop goes round again. -/
theorem chunkedTurn_stayed {again : ParserM μ Unit} {p' : HttpParser μ}
    (stayed : chunkStep p = (p', true)) : chunkedTurn again p = again p' := by
  rw [chunkedTurn, stayed]
  rfl

omit [HttpMessage μ] in
/-- A line is taken off the buffer, if there is a whole one. -/
theorem takeLine_cases (wf : p.ba.Wf) :
    p.ba.findCRLF = none ∧ takeLine p = .ok none p ∨
      ∃ n ba, p.ba.findCRLF = some n ∧ n + 2 ≤ p.ba.getReadSize ∧ ba.Wf ∧
        ba.getReadSize + 2 ≤ p.ba.getReadSize ∧
        takeLine p = .ok (some (p.ba.unread.take n)) { p with ba := ba } := by
  cases found : search kCRLF p.ba.unread with
  | none => exact Or.inl ⟨found, takeLine_none found⟩
  | some n =>
      have enough : n + 2 ≤ p.ba.unread.length := search_le found
      have rest := wf.setReadPos enough
      have size := wf.getReadSize_eq
      have size' := (rest.wf wf).getReadSize_eq
      rw [rest.unread_eq, List.length_drop] at size'
      exact Or.inr ⟨n, _, found, by omega, rest.wf wf, by omega, takeLine_some wf found⟩

/-- A turn of the loop leaves it, or takes a size line, or takes the content of a chunk. -/
theorem chunkStep_cases (inside : InChunks p) (running : p.error = false) :
    (∃ p', chunkStep p = (p', false) ∧ p'.ba.Wf ∧
        (p'.error = true ∨ (Coupled p → Coupled p'))) ∨
      ∃ p', chunkStep p = (p', true) ∧ p'.ba.Wf ∧ p'.error = false ∧ Coupled p' ∧
        (p.chunkSize = 0 ∧ p'.chunkSize ≠ 0 ∧ p'.ba.getReadSize + 2 ≤ p.ba.getReadSize ∨
          p.chunkSize ≠ 0 ∧ p'.chunkSize = 0 ∧ p'.ba.getReadSize ≤ p.ba.getReadSize) := by
  obtain ⟨wf, content⟩ := inside
  have noError : ¬p.error = true := by rw [running]; exact Bool.false_ne_true
  unfold chunkStep
  rw [if_neg noError]
  by_cases head : p.chunkSize = 0
  · rw [if_pos head]
    rcases takeLine_cases wf with ⟨-, line⟩ | ⟨n, ba, -, -, wf', taken, line⟩
    · rw [line]
      exact Or.inl ⟨p, rfl, wf, Or.inr id⟩
    · rw [line]
      simp only
      split
      · exact Or.inl ⟨_, rfl, wf', Or.inl rfl⟩
      · split
        · rename_i last
          refine Or.inl ⟨_, rfl, wf', Or.inr fun coupled => ?_⟩
          exact iff_of_true last (coupled.mp head)
        · rename_i some_bytes
          refine Or.inr ⟨_, rfl, wf', running, ?_, Or.inl ⟨head, some_bytes, taken⟩⟩
          exact iff_of_false some_bytes fun size => by cases size
  · rw [if_neg head, if_pos (content head)]
    simp only
    split
    · rename_i there
      have whole : (p.chunkSize + 2) % 2 ^ 64 ≤ p.ba.unread.length := by
        rwa [← wf.getReadSize_eq]
      have rest := wf.setReadPos whole
      have size := wf.getReadSize_eq
      have size' := (rest.wf wf).getReadSize_eq
      rw [rest.unread_eq, List.length_drop] at size'
      refine Or.inr ⟨_, rfl, rest.wf wf, running, iff_of_true rfl rfl, Or.inr ⟨head, rfl, ?_⟩⟩
      change (p.ba.setReadPos (p.ba.readPos + (p.chunkSize + 2) % 2 ^ 64)).getReadSize ≤ _
      omega
    · exact Or.inl ⟨p, rfl, wf, Or.inr id⟩

omit [HttpMessage μ] in
theorem Coupled.content (coupled : Coupled p) (pending : p.chunkSize ≠ 0) :
    p.chunkState = .content := by
  cases state : p.chunkState with
  | size => exact absurd (coupled.mpr state) pending
  | content => rfl

omit [HttpMessage μ] in
/-- A turn that takes a size line or the content of a chunk leaves less to do. -/
theorem chunkRank_lt {p' : HttpParser μ}
    (taken : p.chunkSize = 0 ∧ p'.chunkSize ≠ 0 ∧ p'.ba.getReadSize + 2 ≤ p.ba.getReadSize ∨
      p.chunkSize ≠ 0 ∧ p'.chunkSize = 0 ∧ p'.ba.getReadSize ≤ p.ba.getReadSize) :
    chunkRank p' < chunkRank p := by
  unfold chunkRank
  rcases taken with ⟨head, pending, taken⟩ | ⟨pending, head, taken⟩
  · rw [if_pos head, if_neg pending]
    omega
  · rw [if_neg pending, if_pos head]
    omega

theorem chunkedTurn_turns (inside : InChunks p) : Turns InChunks chunkRank chunkedTurn p := by
  by_cases failed : p.error = true
  · have left : chunkStep p = (p, false) := by rw [chunkStep, if_pos failed]
    exact Or.inl ⟨.ok () p, fun later => chunkedTurn_left left⟩
  rcases chunkStep_cases inside (Bool.eq_false_iff.mpr failed) with
    ⟨p', left, -⟩ | ⟨p', stayed, wf, -, coupled, taken⟩
  · exact Or.inl ⟨.ok () p', fun later => chunkedTurn_left left⟩
  · exact Or.inr ⟨p', ⟨wf, coupled.content⟩, chunkRank_lt taken,
      fun later => chunkedTurn_stayed stayed⟩

/-- A parser in the middle of a message, or one that refused it. -/
def Parsing (p : HttpParser μ) : Prop := p.error = true ∨ ∃ s q, p.At s q

omit [HttpMessage μ] in
/-- A line is followed by an exception, or by a turn with less in the buffer. -/
theorem turns_of_moves {p' : HttpParser μ} {left : Bytes} {run : ParserM μ Unit}
    {move : Move (Phase × μ) (Ended μ)} (made : Moves (run p') left move)
    (open_ended : ∀ msg' k, move ≠ .stop ⟨.ok true, msg'⟩ k)
    (shorter : left.length < p.ba.getReadSize) :
    (∃ r, ∀ later : ParserM μ Unit, (run >>= fun _ => later) p' = r) ∨
      ∃ next, Parsing next ∧ next.ba.getReadSize < p.ba.getReadSize ∧
        ∀ later : ParserM μ Unit, (run >>= fun _ => later) p' = later next := by
  have less : ∀ {next : HttpParser μ}, next.ba.Wf → next.ba.unread = left →
      next.ba.getReadSize < p.ba.getReadSize := by
    intro next wf unread
    rw [wf.getReadSize_eq, unread]
    exact shorter
  cases move with
  | wait => exact made.elim
  | go s k =>
      obtain ⟨next, ran, there⟩ := made
      exact Or.inr ⟨next, Or.inr ⟨s, left, there⟩, less there.wf there.unread_eq,
        fun later => bind_ok ran⟩
  | stop r k =>
      obtain ⟨outcome, msg'⟩ := r
      match outcome with
      | .error e =>
          obtain ⟨next, threw, -⟩ := made
          exact Or.inl ⟨.error e next, fun later => bind_error threw⟩
      | .ok true => exact absurd rfl (open_ended msg' k)
      | .ok false =>
          obtain ⟨next, ran, wf, unread, -, -, error⟩ := made
          exact Or.inr ⟨next, Or.inl error, less wf unread, fun later => bind_ok ran⟩

/-- A turn in the body leaves the inner loop. -/
theorem bufferTurn_body (chunked : ParserM μ Unit) (noError : p.error = false)
    (state : p.parseState = .body) : ∃ r, ∀ later, bufferTurn chunked later p = r := by
  refine ⟨bufferTurn chunked (pure ()) p, fun later => ?_⟩
  have turn := bufferTurn_eq chunked (pure ()) noError
  rw [state] at turn
  refine (bufferTurn_eq chunked later noError).trans ?_
  rw [turn, state]

theorem bufferTurn_turns (chunked : ParserM μ Unit) (parsing : Parsing p) :
    Turns Parsing (fun p => p.ba.getReadSize) (bufferTurn chunked) p := by
  rcases parsing with failed | ⟨⟨phase, msg⟩, q, here⟩
  · refine Or.inl ⟨.ok () p, fun later => ?_⟩
    unfold bufferTurn
    rw [get_bind, if_pos failed]
    rfl
  have size : p.ba.getReadSize = q.length := by
    rw [here.wf.getReadSize_eq, here.unread_eq]
  have shorter : ∀ {n : Nat}, n + 2 ≤ q.length → (q.drop (n + 2)).length < p.ba.getReadSize := by
    intro n inside
    rw [List.length_drop, size]
    omega
  cases phase with
  | firstLine =>
      have turn := fun later => bufferTurn_eq chunked later here.error
      rw [here.place.1] at turn
      rcases byLine_cases q (afterFirstLine msg) with ⟨none_whole, -⟩ | ⟨n, found, inside, -⟩
      · refine Or.inl ⟨.ok () p, fun later => (turn later).trans ?_⟩
        exact bind_ok (takeLine_none (by rw [here.unread_eq]; exact none_whole))
      · obtain ⟨p', line, next⟩ := here.line found inside
        simp only [bind_ok line] at turn
        rcases turns_of_moves (parseFirstLine_moves next (q.take n) (n + 2))
          (afterFirstLine_open _ _ _) (shorter inside) with
          ⟨r, left⟩ | ⟨next, parsing, lower, round⟩
        · exact Or.inl ⟨r, fun later => (turn later).trans (left later)⟩
        · exact Or.inr ⟨next, parsing, lower, fun later => (turn later).trans (round later)⟩
  | headers chunked' contentLen =>
      have turn := fun later => bufferTurn_eq chunked later here.error
      rw [here.place.1] at turn
      rcases byLine_cases q (afterHeader chunked' contentLen msg) with
        ⟨none_whole, -⟩ | ⟨n, found, inside, -⟩
      · refine Or.inl ⟨.ok () p, fun later => (turn later).trans ?_⟩
        exact bind_ok (takeLine_none (by rw [here.unread_eq]; exact none_whole))
      · obtain ⟨p', line, next⟩ := here.line found inside
        simp only [bind_ok line] at turn
        rcases turns_of_moves (parseHeader_moves next (q.take n) (n + 2))
          (afterHeader_open _ _ _ _ _) (shorter inside) with
          ⟨r, left⟩ | ⟨next, parsing, lower, round⟩
        · exact Or.inl ⟨r, fun later => (turn later).trans (left later)⟩
        · exact Or.inr ⟨next, parsing, lower, fun later => (turn later).trans (round later)⟩
  | fixedBody len => exact Or.inl (bufferTurn_body chunked here.error here.place.1)
  | chunkHead body => exact Or.inl (bufferTurn_body chunked here.error here.place.1)
  | chunkData size body => exact Or.inl (bufferTurn_body chunked here.error here.place.1)

omit [HttpMessage μ] in
/-- A parser in the middle of its chunks. -/
theorem At.inChunks {s : Phase × μ} {q : Bytes} (here : p.At s q) (state : p.parseState = .body)
    (chunks : p.chunked = true) : InChunks p := by
  refine ⟨here.wf, fun pending => ?_⟩
  obtain ⟨phase, msg⟩ := s
  cases phase with
  | firstLine =>
      rw [here.place.1] at state
      cases state
  | headers chunked contentLen =>
      rw [here.place.1] at state
      cases state
  | fixedBody len =>
      rw [here.place.2.1] at chunks
      cases chunks
  | chunkHead body => exact absurd here.place.2.2.1 pending
  | chunkData size body => exact here.place.2.2.2.2.1

/-- The loop of `parseChunkedBody` is left, with what its definition gives. -/
theorem parseChunkedBody_leaves (inside : InChunks p) :
    Leaves chunkedTurn p (parseChunkedBody (2 * p.ba.getReadSize + 2) p) := by
  refine leaves_of_rank (fun p => chunkedTurn_turns) parseChunkedBody (fun _ _ _ => rfl) inside ?_
  simp only [chunkRank]
  split <;> omega

/-- The inner loop, with any function that does what `parseChunkedBody` does. -/
theorem parseBuffer_unrolls {chunked : ParserM μ Unit} (means : Means chunkedTurn chunked)
    (fuel : Nat) (parsing : Parsing p) :
    parseBuffer (fuel + 1) p = bufferTurn chunked (parseBuffer fuel) p := by
  rcases parsing with failed | ⟨s, q, here⟩
  · rw [parseBuffer_error _ failed, bufferTurn_error _ _ failed]
  · rw [parseBuffer_succ, bufferTurn_eq _ _ here.error, bufferTurn_eq chunked _ here.error]
    cases state : p.parseState with
    | firstLine => rfl
    | header => rfl
    | body =>
        cases chunks : p.chunked with
        | false => rfl
        | true => exact (means _ _ (parseChunkedBody_leaves (here.inChunks state chunks))).symm

/-- The inner loop is left, with what its definition gives. -/
theorem parseBuffer_leaves {chunked : ParserM μ Unit} (means : Means chunkedTurn chunked)
    (parsing : Parsing p) :
    Leaves (bufferTurn chunked) p (parseBuffer (p.ba.getReadSize + 1) p) :=
  leaves_of_rank (fun _ => bufferTurn_turns chunked) parseBuffer
    (fun fuel _ parsing => parseBuffer_unrolls means fuel parsing) parsing (Nat.lt_succ_self _)

/-- A parser that is done, or in the middle of a message that is still being sent. -/
def Reading (reader : Reader μ) : Prop :=
  ∃ reads, reader.1 = .ofReads reads ∧
    ((reader.2.finish || reader.2.error) = true ∨ ∃ s q, reader.2.At s q)

variable {ss ss' : SocketStream (HttpMessage.maxBufferSize μ)}

theorem messageTurn_done (buffer : ParserM μ Unit) (again : Reader μ → Answer μ)
    (done : (p.finish || p.error) = true) :
    messageTurn buffer again (ss, p) = .ok (!p.error, ss) p :=
  readTurn_done done ss

theorem messageTurn_read {s : Phase × μ} {q : Bytes} (here : p.At s q) (buffer : ParserM μ Unit)
    (again : Reader μ → Answer μ) {len : Int} {ba : ByteArray}
    (read : ss.read p.ba = .ok (len, ss') ba) :
    messageTurn buffer again (ss, p) =
      if len ≤ 0 then .ok (false, ss') { p with ba := ba }
      else (buffer >>= fun _ => (fun p => again (ss', p) : ParserM μ _)) { p with ba := ba } :=
  readTurn_read here read

section

variable {chunked buffer : ParserM μ Unit} (means : Means chunkedTurn chunked)
  (means' : Means (bufferTurn chunked) buffer)

include means means'

/-- What the inner loop leaves behind. -/
theorem buffer_reports {s : Phase × μ} {q : Bytes} (here : p.At s q) :
    buffer p = parseBuffer (p.ba.getReadSize + 1) p ∧
      ∃ v left, Reports (parseBuffer (p.ba.getReadSize + 1) p) v left := by
  have size : q.length < p.ba.getReadSize + 1 := by
    rw [here.wf.getReadSize_eq, here.unread_eq]
    exact Nat.lt_succ_self _
  obtain ⟨v, left, -, reports⟩ := parseBuffer_settles here size
  exact ⟨means' _ _ (parseBuffer_leaves means (Or.inr ⟨s, q, here⟩)), v, left, reports⟩

theorem messageTurn_turns {reader : Reader μ} (reading : Reading reader) :
    Turns Reading (fun reader => reader.1.incoming.length) (messageTurn buffer) reader := by
  obtain ⟨ss, p⟩ := reader
  obtain ⟨reads, rfl, done | ⟨s, q, here⟩⟩ := reading
  · exact Or.inl ⟨_, fun later => messageTurn_done buffer later done⟩
  cases reads with
  | nil =>
      obtain ⟨ba, read, -⟩ :=
        SocketStream.read_nil here.wf (HttpMessage.maxBufferSize_small (μ := μ))
      exact Or.inl ⟨_, fun later => (messageTurn_read here buffer later read).trans
        (if_pos (le_refl 0))⟩
  | cons r reads =>
      obtain ⟨ba, read, app⟩ :=
        SocketStream.read_cons here.wf (HttpMessage.maxBufferSize_small (μ := μ)) r reads
      have some_bytes : ¬((r.data.length : Int) ≤ 0) := by
        have := r.length_pos
        omega
      obtain ⟨ran, v, left, reports⟩ := buffer_reports means means' (here.received app)
      have turn : ∀ later : Reader μ → Answer μ,
          messageTurn buffer later (.ofReads (r :: reads), p) =
            (buffer >>= fun _ => (fun p => later (.ofReads reads, p) : ParserM μ _))
              { p with ba := ba } := fun later =>
        (messageTurn_read here buffer later read).trans (if_neg some_bytes)
      have shorter : reads.length < (r :: reads).length := Nat.lt_succ_self _
      match v with
      | .paused s' =>
          obtain ⟨next, parsed, there⟩ := reports
          rw [← ran] at parsed
          exact Or.inr ⟨(.ofReads reads, next), ⟨reads, rfl, Or.inr ⟨s', left, there⟩⟩, shorter,
            fun later => (turn later).trans (bind_ok parsed)⟩
      | .stopped ⟨.ok accepted, msg⟩ =>
          obtain ⟨next, parsed, -, -, -, finish, error⟩ := reports
          rw [← ran] at parsed
          refine Or.inr ⟨(.ofReads reads, next), ⟨reads, rfl, Or.inl ?_⟩, shorter,
            fun later => (turn later).trans (bind_ok parsed)⟩
          rw [finish, error]
          cases accepted <;> rfl
      | .stopped ⟨.error e, msg⟩ =>
          obtain ⟨next, threw, -⟩ := reports
          rw [← ran] at threw
          exact Or.inl ⟨.error e next, fun later => (turn later).trans (bind_error threw)⟩

/-- The outer loop, with any functions that do what the loops inside it do. -/
theorem parseMessage_unrolls (fuel : Nat) {reader : Reader μ} (reading : Reading reader) :
    parseMessage (fuel + 1) reader.1 reader.2 =
      messageTurn buffer (fun reader => parseMessage fuel reader.1 reader.2) reader := by
  obtain ⟨ss, p⟩ := reader
  obtain ⟨reads, rfl, done | ⟨s, q, here⟩⟩ := reading
  · rw [messageTurn_done _ _ done]
    exact readTurn_done done _
  cases reads with
  | nil =>
      obtain ⟨ba, read, -⟩ := SocketStream.read_nil here.wf (HttpMessage.maxBufferSize_small (μ := μ))
      rw [messageTurn_read here _ _ read, if_pos (le_refl 0)]
      exact (parseMessage_read here fuel read).trans (if_pos (le_refl 0))
  | cons r reads =>
      obtain ⟨ba, read, app⟩ :=
        SocketStream.read_cons here.wf (HttpMessage.maxBufferSize_small (μ := μ)) r reads
      obtain ⟨ran, -⟩ := buffer_reports means means' (here.received app)
      have some_bytes : ¬((r.data.length : Int) ≤ 0) := by
        have := r.length_pos
        omega
      rw [messageTurn_read here _ _ read, if_neg some_bytes]
      refine ((parseMessage_read here fuel read).trans (if_neg some_bytes)).trans ?_
      exact bind_congr_here ran.symm

end

/-- **Every parse ends.** The loops of the parser are left, with what `parseMessage`
gives, whatever is sent. -/
theorem parseMessage_leaves {chunked buffer : ParserM μ Unit} (means : Means chunkedTurn chunked)
    (means' : Means (bufferTurn chunked) buffer)
    (reads : List (Read (HttpMessage.maxBufferSize μ))) (msg : μ) :
    Leaves (messageTurn buffer) (.ofReads reads, { msg := msg })
      (parseMessage (reads.length + 2) (.ofReads reads) { msg := msg }) := by
  have start : Reading ((.ofReads reads, { msg := msg }) : Reader μ) :=
    ⟨reads, rfl, Or.inr ⟨(.firstLine, msg), [], at_start msg⟩⟩
  exact leaves_of_rank (fun _ => messageTurn_turns means means')
    (fun fuel reader => parseMessage fuel reader.1 reader.2)
    (fun fuel _ => parseMessage_unrolls means means' fuel) start
    (Nat.lt_add_of_pos_right Nat.two_pos)

end HttpParser

/-! ## The lines of a stream -/

/-- The lines of a stream, the first of them continued from `line`. What follows the
last line end is not a line yet. -/
def linesFrom : Bytes → Bytes → List Bytes
  | _, [] => []
  | line, 13 :: 10 :: rest => line :: linesFrom [] rest
  | line, c :: rest => linesFrom (line ++ [c]) rest

theorem linesFrom_eq (line q : Bytes) :
    linesFrom line q = match search kCRLF q with
      | none => []
      | some n => (line ++ q.take n) :: linesFrom [] (q.drop (n + 2)) := by
  fun_induction linesFrom line q with
  | case1 => rfl
  | case2 line rest ih => simp [search, kCRLF]
  | case3 line c rest other ih =>
      have inside : ¬(kCRLF.isPrefixOf (c :: rest) = true) := by
        intro here
        rcases rest with _ | ⟨d, rest⟩
        · simp [kCRLF] at here
        · simp only [kCRLF, List.isPrefixOf, Bool.and_eq_true, beq_iff_eq] at here
          exact other rest here.1.symm (by rw [here.2.1])
      rw [ih, search, if_neg inside]
      cases search kCRLF rest with
      | none => rfl
      | some n => simp

/-- The header lines of a message, in one that is known to be chunked or not, are
read without an exception: up to the empty line, or the one that is refused, no line
ends at its colon, and a length that matters is a number. -/
def headersReadable : Bool → List Bytes → Bool
  | _, [] => true
  | chunked, line :: lines =>
      match readHeader line with
      | .ends => true
      | .bad => true
      | .throws _ => false
      | .field title value =>
          (lengthAfter (chunked || isChunked title value) 0 title value).isOk &&
            headersReadable (chunked || isChunked title value) lines

/-- What is unread in each phase is read without an exception. -/
def Phase.readable (q : Bytes) : Phase → Bool
  | .headers chunked _ => headersReadable chunked (linesFrom [] q)
  | _ => true

/-- The machine did not end by an exception. -/
def Returned : Verdict (Phase × μ) (Ended μ) → Prop
  | .paused _ => True
  | .stopped r => r.outcome.isOk = true

/-- What the lines say of a move. -/
def Foretells (readable : Bool) (q : Bytes) : Move (Phase × μ) (Ended μ) → Prop
  | .wait => readable = true
  | .stop r _ => r.outcome.isOk = readable
  | .go s n => s.1 ≠ .firstLine ∧ s.1.readable (q.drop n) = readable

theorem advance_foretells {s : Phase × μ} (begun : s.1 ≠ .firstLine) (q : Bytes) :
    Foretells (s.1.readable q) q (advance s q) := by
  obtain ⟨phase, msg⟩ := s
  cases phase with
  | firstLine => exact absurd rfl begun
  | headers chunked contentLen =>
      change Foretells (headersReadable chunked (linesFrom [] q)) q
        (byLine q (afterHeader chunked contentLen msg))
      rw [linesFrom_eq]
      rcases byLine_cases q (afterHeader chunked contentLen msg) with
        ⟨none_whole, waits⟩ | ⟨n, found, -, moves⟩
      · rw [none_whole, waits]
        rfl
      · rw [found, moves, afterHeader]
        simp only [List.nil_append, headersReadable]
        cases readHeader (q.take n) with
        | ends =>
            refine ⟨?_, ?_⟩
            · simp only [bodyPhase]
              split <;> simp
            · simp only [bodyPhase]
              split <;> rfl
        | bad => rfl
        | throws e => rfl
        | field title value =>
            simp only
            rw [isOk_lengthAfter _ 0 contentLen]
            cases lengthAfter (chunked || isChunked title value) contentLen title value with
            | error e => rfl
            | ok len => exact ⟨by simp, rfl⟩
  | fixedBody len =>
      unfold advance
      simp only
      split
      · rfl
      · split <;> rfl
  | chunkHead body =>
      change Foretells true q (byLine q (afterChunkHead body msg))
      rcases byLine_cases q (afterChunkHead body msg) with ⟨-, waits⟩ | ⟨n, -, -, moves⟩
      · rw [waits]
        rfl
      · rw [moves]
        simp only [afterChunkHead]
        split
        · rfl
        · split
          · rfl
          · exact ⟨by simp, rfl⟩
  | chunkData size body =>
      simp only [advance]
      split
      · exact ⟨by simp, rfl⟩
      · rfl

/-- Past the first line, the lines decide whether there is an exception. -/
theorem returned_iff_readable {s : Phase × μ} {q left : Bytes} {v : Verdict (Phase × μ) (Ended μ)}
    (settles : Settles (machine μ) s q v left) (begun : s.1 ≠ .firstLine) :
    Returned v ↔ s.1.readable q = true := by
  induction settles with
  | @wait s q here =>
      have foretold := advance_foretells begun q
      rw [show advance s q = .wait from here] at foretold
      exact iff_of_true trivial foretold
  | @stop s q r n here =>
      have foretold := advance_foretells begun q
      rw [show advance s q = .stop r n from here] at foretold
      rw [← foretold]
      rfl
  | @go s s' q left n v here _ ih =>
      have foretold := advance_foretells begun q
      rw [show advance s q = .go s' n from here] at foretold
      rw [← foretold.2]
      exact ih foretold.1

/-- A first line is read without an exception, and so are the headers that follow if
it is accepted. -/
def headReadable (msg : μ) : List Bytes → Bool
  | [] => true
  | first :: lines =>
      match HttpMessage.parseFirstLine first msg with
      | .ok true _ => headersReadable false lines
      | .ok false _ => true
      | .error _ _ => false

theorem returned_iff_headReadable {msg : μ} {q left : Bytes} {v : Verdict (Phase × μ) (Ended μ)}
    (settles : Settles (machine μ) (.firstLine, msg) q v left) :
    Returned v ↔ headReadable msg (linesFrom [] q) = true := by
  have step : (machine μ).step (.firstLine, msg) q = byLine q (afterFirstLine msg) := rfl
  rw [linesFrom_eq]
  rcases byLine_cases q (afterFirstLine msg) with ⟨none_whole, waits⟩ | ⟨n, found, -, moves⟩
  · rw [none_whole]
    rw [waits] at step
    obtain ⟨rfl, -⟩ := settles.unique (.wait step)
    exact iff_of_true trivial rfl
  · rw [found]
    rw [moves, afterFirstLine] at step
    simp only [List.nil_append, headReadable]
    cases parsed : HttpMessage.parseFirstLine (q.take n) msg with
    | error e msg' =>
        rw [parsed] at step
        obtain ⟨rfl, -⟩ := settles.unique (.stop step)
        exact iff_of_false Bool.false_ne_true Bool.false_ne_true
    | ok accepted msg' =>
        rw [parsed] at step
        cases accepted with
        | false =>
            obtain ⟨rfl, -⟩ := settles.unique (.stop step)
            exact iff_of_true rfl rfl
        | true =>
            cases settles with
            | wait there => rw [step] at there; cases there
            | stop there => rw [step] at there; cases there
            | go there next =>
                rw [step] at there
                cases there
                exact returned_iff_readable next (by simp)

/-- The loops of a parser for `msg` that reads `reads` are left with `result`. -/
def Runs (reads : List (Read (HttpMessage.maxBufferSize μ))) (msg : μ)
    (result : HttpParser.Answer μ) : Prop :=
  ∃ chunked buffer, Means HttpParser.chunkedTurn chunked ∧
    Means (HttpParser.bufferTurn chunked) buffer ∧
    Leaves (HttpParser.messageTurn buffer) (.ofReads reads, { msg := msg }) result

/-- They are left by returning true or false. -/
def Returns (reads : List (Read (HttpMessage.maxBufferSize μ))) (msg : μ)
    (result : HttpParser.Answer μ) : Prop :=
  Runs reads msg result ∧ ∃ answer ss p, result = .ok (answer, ss) p

/-- The loops are left with what `parseMessage` gives. -/
theorem parseMessage_runs (reads : List (Read (HttpMessage.maxBufferSize μ))) (msg : μ) :
    Runs reads msg
      (HttpParser.parseMessage (reads.length + 2) (.ofReads reads) { msg := msg }) := by
  have some_result : Nonempty (EStateM.Result Fault (HttpParser μ) Unit) :=
    ⟨.ok () { msg := msg }⟩
  obtain ⟨chunked, means⟩ := exists_means (HttpParser.chunkedTurn (μ := μ))
  obtain ⟨buffer, means'⟩ := exists_means (HttpParser.bufferTurn chunked)
  exact ⟨chunked, buffer, means, means', HttpParser.parseMessage_leaves means means' reads msg⟩

theorem returns_iff (reads : List (Read (HttpMessage.maxBufferSize μ))) (msg : μ) :
    Returns reads msg (HttpParser.parseMessage (reads.length + 2) (.ofReads reads) { msg := msg }) ↔
      headReadable msg (linesFrom [] (bytesOf reads)) = true := by
  obtain ⟨v, left, rest, drive, answers, -⟩ := parseMessage_starts reads msg
  refine Iff.trans ?_ (returned_iff_headReadable drive.settles)
  refine (and_iff_right (parseMessage_runs reads msg)).trans ?_
  match v with
  | .paused s =>
      obtain ⟨p, result, -⟩ := answers
      exact iff_of_true ⟨_, _, _, result⟩ trivial
  | .stopped ⟨.ok accepted, msg'⟩ =>
      obtain ⟨p, result, -⟩ := answers
      exact iff_of_true ⟨_, _, _, result⟩ rfl
  | .stopped ⟨.error e, msg'⟩ =>
      obtain ⟨p, result, -⟩ := answers
      rw [result]
      refine iff_of_false ?_ Bool.false_ne_true
      rintro ⟨answer, ss, p, returned⟩
      cases returned

/-! ## Requests and responses -/

/-- The lines of a stream hold no exception for `parseRequest`. -/
def requestReadable (stream : Bytes) : Bool :=
  match linesFrom [] stream with
  | [] => true
  | first :: lines => !isRequestLine first || headersReadable false lines

/-- The lines of a stream hold no exception for `parseResponse`. -/
def responseReadable (stream : Bytes) : Bool :=
  match linesFrom [] stream with
  | [] => true
  | first :: lines =>
      !isUnreadableStatus first && (!isStatusLine first || headersReadable false lines)

theorem headReadable_request (stream : Bytes) (req : HttpRequest) :
    headReadable req (linesFrom [] stream) = requestReadable stream := by
  rw [requestReadable]
  cases linesFrom [] stream with
  | nil => rfl
  | cons first lines =>
      obtain ⟨req', read⟩ := HttpRequest.parseFirstLine_accepts first req
      simp only [headReadable]
      rw [show HttpMessage.parseFirstLine first req = .ok (isRequestLine first) req' from read]
      cases isRequestLine first <;> rfl

theorem headReadable_response (stream : Bytes) (rsp : HttpResponse) :
    headReadable rsp (linesFrom [] stream) = responseReadable stream := by
  rw [responseReadable]
  cases linesFrom [] stream with
  | nil => rfl
  | cons first lines =>
      simp only [headReadable]
      rcases HttpResponse.parseFirstLine_cases first rsp with
        ⟨unreadable, -, e, rsp', threw⟩ | ⟨readable, rsp', read⟩
      · rw [show HttpMessage.parseFirstLine first rsp = .error e rsp' from threw, unreadable]
        rfl
      · rw [show HttpMessage.parseFirstLine first rsp = .ok (isStatusLine first) rsp' from read,
          readable]
        cases isStatusLine first <;> rfl

/-- **How parses end.** Whatever the bytes of a stream and however they are cut, the
loops of the parsers are left, and they are left by returning exactly when the lines
they reach hold no exception. -/
theorem parse_returns_iff (reads : List (Read 4096)) (req : HttpRequest)
    (reads' : List (Read (HttpMessage.maxBufferSize HttpResponse))) (rsp : HttpResponse) :
    (Runs reads req (parseRequest (.ofReads reads) req) ∧
      (Returns reads req (parseRequest (.ofReads reads) req) ↔
        requestReadable (bytesOf reads) = true)) ∧
    (Runs reads' rsp (parseResponse (.ofReads reads') rsp) ∧
      (Returns reads' rsp (parseResponse (.ofReads reads') rsp) ↔
        responseReadable (bytesOf reads') = true)) := by
  have requests := returns_iff (μ := HttpRequest) reads req
  have responses := returns_iff (μ := HttpResponse) reads' rsp
  rw [headReadable_request] at requests
  rw [headReadable_response] at responses
  exact ⟨⟨parseMessage_runs reads req, requests⟩, ⟨parseMessage_runs reads' rsp, responses⟩⟩

/-- A request with a header line that ends at its colon. -/
def colonRead : Read 4096 := ⟨ascii "GET / HTTP/1.1\r\nHost:\r\n\r\n", by decide, by decide⟩

/-- The parse of that request does not return. -/
theorem not_parse_returns : ¬Returns [colonRead] (HttpRequest.new 0x11 false)
    (parseRequest (.ofReads [colonRead]) (HttpRequest.new 0x11 false)) := by
  intro returns
  have readable := (returns_iff (μ := HttpRequest) [colonRead] (HttpRequest.new 0x11 false)).mp
    returns
  rw [headReadable_request] at readable
  exact absurd readable (by decide)

end Reyao.Http
