import Reyao.Http.Grammar

/-!
# The parser runs the machine

`At p s q` says that a parser stands where the machine stands in state `s` with
the unread bytes `q`. Parsing what is in the buffer settles the machine, reading
and parsing drives it, and so the result of a parse is a function of the bytes of
the stream (`parseRequest_cut_independent`).
-/

namespace Reyao.Http

open Lib

variable {μ : Type}

/-- The fields of a parser in each phase. -/
def HttpParser.Place (p : HttpParser μ) : Phase → Prop
  | .firstLine => p.parseState = .firstLine ∧ p.chunked = false ∧ p.contentLen = 0 ∧
      p.chunkSize = 0 ∧ p.body = []
  | .headers chunked contentLen => p.parseState = .header ∧ p.chunked = chunked ∧
      p.contentLen = contentLen ∧ p.chunkSize = 0 ∧ p.body = []
  | .fixedBody len => p.parseState = .body ∧ p.chunked = false ∧ p.contentLen = len
  | .chunkHead body => p.parseState = .body ∧ p.chunked = true ∧ p.chunkSize = 0 ∧ p.body = body
  | .chunkData size body => p.parseState = .body ∧ p.chunked = true ∧ p.chunkSize = size ∧
      size ≠ 0 ∧ p.chunkState = .content ∧ p.body = body

/-- A parser in the middle of a message. -/
structure HttpParser.At (p : HttpParser μ) (s : Phase × μ) (q : Bytes) : Prop where
  wf : p.ba.Wf
  unread_eq : p.ba.unread = q
  msg_eq : p.msg = s.2
  error : p.error = false
  finish : p.finish = false
  readSize : p.readSize = 0
  place : p.Place s.1

/-- What a parser that stopped parsing reports of the machine. -/
def Reports (result : EStateM.Result Fault (HttpParser μ) Unit) :
    Verdict (Phase × μ) (Ended μ) → Bytes → Prop
  | .paused s, left => ∃ p, result = .ok () p ∧ p.At s left
  | .stopped ⟨.ok accepted, msg⟩, left => ∃ p, result = .ok () p ∧ p.ba.Wf ∧
      p.ba.unread = left ∧ p.msg = msg ∧ p.finish = accepted ∧ p.error = !accepted
  | .stopped ⟨.error e, msg⟩, left => ∃ p, result = .error e p ∧ p.ba.Wf ∧
      p.ba.unread = left ∧ p.msg = msg

/-- A parser that was given a line makes a move of the machine. -/
def Moves (result : EStateM.Result Fault (HttpParser μ) Unit) (left : Bytes) :
    Move (Phase × μ) (Ended μ) → Prop
  | .wait => False
  | .go s _ => ∃ p, result = .ok () p ∧ p.At s left
  | .stop r _ => Reports result (.stopped r) left

namespace HttpParser

variable {p : HttpParser μ} {msg : μ} {q : Bytes} {phase : Phase}

theorem Place.of_buffer (place : p.Place phase) (ba : ByteArray) :
    ({ p with ba := ba } : HttpParser μ).Place phase := by
  cases phase <;> exact place

theorem takeLine_none (none_whole : search kCRLF p.ba.unread = none) :
    takeLine p = .ok none p := by
  rw [takeLine, ByteArray.findCRLF, none_whole]

theorem takeLine_some (wf : p.ba.Wf) {n : Nat} (found : search kCRLF p.ba.unread = some n) :
    takeLine p = .ok (some (p.ba.unread.take n))
      { p with ba := p.ba.setReadPos (p.ba.readPos + (n + 2)) } := by
  have inside := search_le found
  rw [takeLine, ByteArray.findCRLF, found]
  simp only
  rw [wf.bytesAt_readPos (by omega), Nat.add_assoc]

theorem onBuffer_ok {α : Type} {f : ByteArrayM α} {a : α} {ba : ByteArray}
    (ran : f p.ba = .ok a ba) : onBuffer f p = .ok a { p with ba := ba } := by
  rw [onBuffer, ran]

/-- Moving the read position takes bytes off the front. -/
theorem At.consume (here : p.At (phase, msg) q) {n : Nat} (inside : n ≤ q.length) :
    (p.ba.setReadPos (p.ba.readPos + n)).Wf ∧
      (p.ba.setReadPos (p.ba.readPos + n)).unread = q.drop n := by
  have inside' : n ≤ p.ba.unread.length := by rwa [here.unread_eq]
  have consumed := here.wf.setReadPos inside'
  exact ⟨consumed.wf here.wf, by rw [consumed.unread_eq, here.unread_eq]⟩

/-- Taking a line off the buffer. -/
theorem At.line (here : p.At (phase, msg) q) {n : Nat} (found : search kCRLF q = some n)
    (inside : n + 2 ≤ q.length) :
    ∃ p', takeLine p = .ok (some (q.take n)) p' ∧ p'.At (phase, msg) (q.drop (n + 2)) := by
  have line := takeLine_some here.wf (by rw [here.unread_eq]; exact found)
  rw [here.unread_eq] at line
  obtain ⟨wf, left⟩ := here.consume inside
  exact ⟨_, line, wf, left, here.msg_eq, here.error, here.finish, here.readSize,
    here.place.of_buffer _⟩

/-- The bytes of a read go to the parser. -/
theorem At.received {s : Phase × μ} {data : Bytes} {ba : ByteArray} (here : p.At s q)
    (app : p.ba.Appended data ba) : ({ p with ba := ba } : HttpParser μ).At s (q ++ data) :=
  ⟨app.wf, by rw [app.unread_eq, here.unread_eq], here.msg_eq, here.error, here.finish,
    here.readSize, here.place.of_buffer ba⟩

section

variable [HttpMessage μ]

/-! ## Bodies -/

/-- An upper bound on the moves left in a chunked body. -/
def chunkMoves (phase : Phase) (q : Bytes) : Nat :=
  match phase with
  | .chunkData _ _ => 2 * q.length + 1
  | _ => 2 * q.length

/-- A turn at the head of a chunk. -/
theorem chunkHead_settles {body : Bytes} (here : p.At (.chunkHead body, msg) q) :
    (∃ v left p', Settles (machine μ) (.chunkHead body, msg) q v left ∧
        chunkStep p = (p', false) ∧ Reports (.ok () p') v left) ∨
      ∃ size n p', (machine μ).step (.chunkHead body, msg) q = .go (.chunkData size body, msg) (n + 2) ∧
        n + 2 ≤ q.length ∧ chunkStep p = (p', true) ∧
        p'.At (.chunkData size body, msg) (q.drop (n + 2)) := by
  obtain ⟨state, chunked, size, rfl⟩ := here.place
  have noError : ¬(p.error = true) := by rw [here.error]; exact Bool.false_ne_true
  unfold chunkStep
  rw [if_neg noError, if_pos size]
  rcases byLine_cases q (afterChunkHead p.body msg) with
    ⟨none_whole, waits⟩ | ⟨n, found, inside, moves⟩
  · refine Or.inl ⟨_, _, p, .wait waits, ?_, p, rfl, here⟩
    rw [takeLine_none (by rw [here.unread_eq]; exact none_whole)]
  · obtain ⟨p', line, next⟩ := here.line found inside
    obtain ⟨state, chunked, -, body⟩ := next.place
    rw [line]
    simp only [afterChunkHead] at moves ⊢
    generalize toSize (HexToDec (q.take n)) = size at moves ⊢
    by_cases bad : size = 2 ^ 64 - 1
    · rw [if_pos bad] at moves ⊢
      exact Or.inl ⟨_, _, _, .stop moves, rfl, _, rfl, next.wf, next.unread_eq, next.msg_eq,
        next.finish, rfl⟩
    rw [if_neg bad] at moves ⊢
    by_cases last : size = 0
    · rw [if_pos last] at moves ⊢
      refine Or.inl ⟨_, _, _, .stop moves, rfl, _, rfl, next.wf, next.unread_eq, ?_, rfl,
        next.error⟩
      rw [← body]
      exact congrArg (HttpMessage.setBody p'.body) next.msg_eq
    · rw [if_neg last] at moves ⊢
      exact Or.inr ⟨size, n, _, moves, inside, rfl, next.wf, next.unread_eq, next.msg_eq,
        next.error, next.finish, next.readSize, ⟨state, chunked, rfl, last, rfl, body⟩⟩

/-- A turn inside a chunk. -/
theorem chunkData_settles {size : Nat} {body : Bytes} (here : p.At (.chunkData size body, msg) q) :
    (Settles (machine μ) (.chunkData size body, msg) q (.paused (.chunkData size body, msg)) q ∧
        chunkStep p = (p, false)) ∨
      ∃ body' n p', (machine μ).step (.chunkData size body, msg) q = .go (.chunkHead body', msg) n ∧
        n ≤ q.length ∧ chunkStep p = (p', true) ∧ p'.At (.chunkHead body', msg) (q.drop n) := by
  obtain ⟨state, chunked, rfl, pending, content, rfl⟩ := here.place
  have noError : ¬(p.error = true) := by rw [here.error]; exact Bool.false_ne_true
  have length : p.ba.getReadSize = q.length := by
    rw [here.wf.getReadSize_eq, here.unread_eq]
  have move : advance (.chunkData p.chunkSize p.body, msg) q =
      if (p.chunkSize + 2) % 2 ^ 64 ≤ q.length then
        .go (.chunkHead (p.body ++ q.take ((p.chunkSize + 2) % 2 ^ 64)), msg)
          ((p.chunkSize + 2) % 2 ^ 64)
      else .wait := rfl
  unfold chunkStep
  rw [if_neg noError, if_neg pending, if_pos content, length]
  by_cases there : (p.chunkSize + 2) % 2 ^ 64 ≤ q.length
  · rw [if_pos there] at move ⊢
    obtain ⟨wf, left⟩ := here.consume there
    rw [here.wf.bytesAt_readPos (by rw [here.unread_eq]; exact there), here.unread_eq]
    exact Or.inr ⟨_, _, _, move, there, rfl, wf, left, here.msg_eq, here.error, here.finish,
      here.readSize, ⟨state, chunked, rfl, rfl⟩⟩
  · rw [if_neg there] at move ⊢
    exact Or.inl ⟨.wait move, rfl⟩

theorem parseChunkedBody_settles {fuel : Nat} (here : p.At (phase, msg) q)
    (chunks : ∃ body, phase = .chunkHead body ∨ ∃ size, phase = .chunkData size body)
    (enough : chunkMoves phase q < fuel) :
    ∃ v left, Settles (machine μ) (phase, msg) q v left ∧
      Reports (parseChunkedBody fuel p) v left := by
  induction fuel generalizing p phase q with
  | zero => exact absurd enough (Nat.not_lt_zero _)
  | succ fuel ih =>
      rw [parseChunkedBody, chunkedTurn]
      obtain ⟨body, rfl | ⟨size, rfl⟩⟩ := chunks
      · rcases chunkHead_settles here with
          ⟨v, left, p', settles, step, reports⟩ | ⟨size, n, p', moves, inside, step, next⟩
        · rw [step]
          exact ⟨v, left, settles, reports⟩
        · obtain ⟨v, rest, settles, reports⟩ := ih next ⟨_, Or.inr ⟨_, rfl⟩⟩ (by
            simp only [chunkMoves, List.length_drop] at enough ⊢
            omega)
          rw [step]
          exact ⟨v, rest, .go moves settles, reports⟩
      · rcases chunkData_settles here with ⟨waits, step⟩ | ⟨body', n, p', moves, inside, step, next⟩
        · rw [step]
          exact ⟨_, _, waits, p, rfl, here⟩
        · obtain ⟨v, rest, settles, reports⟩ := ih next ⟨_, Or.inl rfl⟩ (by
            simp only [chunkMoves, List.length_drop] at enough ⊢
            omega)
          rw [step]
          exact ⟨v, rest, .go moves settles, reports⟩

theorem parseFixedBody_settles {len : Nat} (here : p.At (.fixedBody len, msg) q) :
    ∃ v left, Settles (machine μ) (.fixedBody len, msg) q v left ∧
      Reports (parseFixedBody p) v left := by
  obtain ⟨state, chunked, rfl⟩ := here.place
  have size : p.ba.getReadSize = q.length := by
    rw [here.wf.getReadSize_eq, here.unread_eq]
  have move : advance (.fixedBody p.contentLen, msg) q =
      if p.contentLen = 0 then .stop ⟨.ok true, msg⟩ 0
      else if p.contentLen ≤ q.length then
        .stop ⟨.ok true, HttpMessage.setBody (q.take p.contentLen) msg⟩ p.contentLen
      else .wait := rfl
  rw [parseFixedBody, get_bind, size]
  by_cases nothing : p.contentLen = 0
  · rw [if_pos nothing] at move ⊢
    exact ⟨_, _, .stop move, _, rfl, here.wf, here.unread_eq, here.msg_eq, rfl, here.error⟩
  · rw [if_neg nothing] at move ⊢
    by_cases whole : p.contentLen ≤ q.length
    · rw [if_pos whole] at move
      obtain ⟨wf, left⟩ := here.consume whole
      rw [if_pos (show q.length ≥ p.contentLen from whole),
        here.wf.bytesAt_readPos (by rw [here.unread_eq]; exact whole), here.unread_eq]
      refine ⟨_, _, .stop move, _, rfl, wf, left, ?_, rfl, here.error⟩
      exact congrArg (HttpMessage.setBody _) here.msg_eq
    · rw [if_neg whole] at move
      rw [if_neg (show ¬(q.length ≥ p.contentLen) from whole)]
      exact ⟨_, _, .wait move, p, rfl, here⟩

/-! ## Lines -/

theorem parseField_eq (title value : Bytes) (p : HttpParser μ) :
    parseField title value p =
      match lengthAfter (p.chunked || isChunked title value) p.contentLen title value with
      | .error e => .error e { p with chunked := p.chunked || isChunked title value }
      | .ok len => .ok () { p with
          chunked := p.chunked || isChunked title value
          contentLen := len
          msg := HttpMessage.addHeader title value p.msg } := by
  rw [parseField]
  by_cases chunks : isChunked title value = true
  · have cond : (eqIgnoreCase title (ascii "transfer-encoding") &&
        eqIgnoreCase value (ascii "chunked")) = true := chunks
    rw [if_pos cond, chunks, Bool.or_true]
    rfl
  · have cond : ¬((eqIgnoreCase title (ascii "transfer-encoding") &&
        eqIgnoreCase value (ascii "chunked")) = true) := chunks
    rw [if_neg cond, Bool.eq_false_of_not_eq_true chunks, Bool.or_false, lengthAfter]
    by_cases sized : (!p.chunked && eqIgnoreCase title (ascii "content-length")) = true
    · refine (get_bind _ _).trans ?_
      rw [if_pos sized, if_pos sized, parseInt]
      cases stoi value <;> rfl
    · refine (get_bind _ _).trans ?_
      rw [if_neg sized, if_neg sized]
      rfl

/-- `parseHeader` does what `readHeader` says the line is. -/
theorem parseHeader_eq (line : Bytes) (p : HttpParser μ) :
    parseHeader line p =
      match readHeader line with
      | .ends => .ok () { p with parseState := .body }
      | .bad => .ok () { p with error := true }
      | .throws e => .error e p
      | .field title value => parseField title value p := by
  rw [readHeader, parseHeader]
  by_cases ends : (line ++ kCRLF).head? = some 13
  · rw [if_pos ends, if_pos ends]
    rfl
  · rw [if_neg ends, if_neg ends]
    generalize line.takeWhile (· ≠ 58) = title
    generalize line.dropWhile (· ≠ 58) = rest
    rcases rest with _ | ⟨colon, _ | ⟨blank, _ | ⟨c, value⟩⟩⟩
    · rfl
    · rfl
    · rfl
    · have wide : (colon :: blank :: c :: value).length ≠ 2 := by
        simp only [List.length_cons]
        omega
      have wide' : (colon :: blank :: c :: value).length ≠ 1 := by
        simp only [List.length_cons]
        omega
      simp only
      rw [if_pos ⟨List.cons_ne_nil _ _, wide⟩, if_neg wide', List.drop_succ_cons,
        List.drop_succ_cons, List.drop_zero]

theorem parseHeader_moves {chunked : Bool} {contentLen : Nat}
    (here : p.At (.headers chunked contentLen, msg) q) (line : Bytes) (n : Nat) :
    Moves (parseHeader line p) q (afterHeader chunked contentLen msg line n) := by
  obtain ⟨state, rfl, rfl, size, body⟩ := here.place
  rw [afterHeader, parseHeader_eq]
  cases readHeader line with
  | ends =>
      refine ⟨_, rfl, here.wf, here.unread_eq, here.msg_eq, here.error, here.finish, here.readSize,
        ?_⟩
      cases p.chunked with
      | false => exact ⟨rfl, rfl, rfl⟩
      | true => exact ⟨rfl, rfl, size, body⟩
  | bad => exact ⟨_, rfl, here.wf, here.unread_eq, here.msg_eq, here.finish, rfl⟩
  | throws e => exact ⟨_, rfl, here.wf, here.unread_eq, here.msg_eq⟩
  | field title value =>
      simp only
      rw [parseField_eq]
      cases lengthAfter (p.chunked || isChunked title value) p.contentLen title value with
      | error e => exact ⟨_, rfl, here.wf, here.unread_eq, here.msg_eq⟩
      | ok len =>
          exact ⟨_, rfl, here.wf, here.unread_eq,
            congrArg (HttpMessage.addHeader title value) here.msg_eq, here.error,
            here.finish, here.readSize, ⟨state, rfl, rfl, size, body⟩⟩

theorem parseFirstLine_moves (here : p.At (.firstLine, msg) q) (line : Bytes) (n : Nat) :
    Moves (parseFirstLine line p) q (afterFirstLine msg line n) := by
  obtain ⟨-, chunked, contentLen, size, body⟩ := here.place
  have msg_eq : p.msg = msg := here.msg_eq
  rw [afterFirstLine, parseFirstLine]
  cases parsed : HttpMessage.parseFirstLine line msg with
  | error e msg' =>
      have thrown : onMessage (HttpMessage.parseFirstLine line) p =
          .error e { p with msg := msg' } := by
        rw [onMessage, msg_eq, parsed]
      exact ⟨_, bind_error thrown, here.wf, here.unread_eq, rfl⟩
  | ok good msg' =>
      have returned : onMessage (HttpMessage.parseFirstLine line) p =
          .ok good { p with msg := msg' } := by
        rw [onMessage, msg_eq, parsed]
      rw [bind_ok returned]
      cases good with
      | true =>
          exact ⟨_, rfl, here.wf, here.unread_eq, rfl, here.error, here.finish, here.readSize,
            ⟨rfl, chunked, contentLen, size, body⟩⟩
      | false => exact ⟨_, rfl, here.wf, here.unread_eq, rfl, here.finish, rfl⟩

/-! ## The loop over the buffer -/

/-- One turn of the inner loop, in each state of the parser. -/
theorem bufferTurn_eq (chunked again : ParserM μ Unit) (noError : p.error = false) :
    bufferTurn chunked again p = (match p.parseState with
      | .firstLine => do
          match ← takeLine with
          | none => return
          | some line => parseFirstLine line >>= fun _ => again
      | .header => do
          match ← takeLine with
          | none => return
          | some line => parseHeader line >>= fun _ => again
      | .body => do
          if !p.chunked && p.contentLen == 0 then modify fun p => { p with finish := true }
          if p.chunked then chunked else parseFixedBody : ParserM μ Unit) p := by
  have running : ¬(p.error = true) := by rw [noError]; exact Bool.false_ne_true
  unfold bufferTurn
  rw [get_bind]
  refine (congrFun (if_neg running) p).trans ?_
  cases p.parseState <;> rfl

/-- A turn of a parser in error leaves the loop. -/
theorem bufferTurn_error (chunked again : ParserM μ Unit) (failed : p.error = true) :
    bufferTurn chunked again p = .ok () p := by
  unfold bufferTurn
  rw [get_bind, if_pos failed]
  rfl

theorem parseBuffer_succ (fuel : Nat) (p : HttpParser μ) :
    parseBuffer (fuel + 1) p =
      bufferTurn (parseChunkedBody (2 * p.ba.getReadSize + 2)) (parseBuffer fuel) p := rfl

/-- A parser in error stops. -/
theorem parseBuffer_error (fuel : Nat) (failed : p.error = true) :
    parseBuffer fuel p = .ok () p := by
  cases fuel with
  | zero => rfl
  | succ fuel => exact bufferTurn_error _ _ failed

/-- A line that makes a move, and the loop after it. A line on its own never
completes a message. -/
theorem settles_of_moves {fuel n : Nat} {run : ParserM μ Unit}
    {move : Move (Phase × μ) (Ended μ)} (moves : advance (phase, msg) q = move)
    (took : taken move = n) (open_ended : ∀ msg' k, move ≠ .stop ⟨.ok true, msg'⟩ k)
    (made : Moves (run p) (q.drop n) move)
    (loop : ∀ {p : HttpParser μ} {s : Phase × μ}, p.At s (q.drop n) →
      ∃ v left, Settles (machine μ) s (q.drop n) v left ∧ Reports (parseBuffer fuel p) v left) :
    ∃ v left, Settles (machine μ) (phase, msg) q v left ∧
      Reports ((run >>= fun _ => parseBuffer fuel) p) v left := by
  cases move with
  | wait => exact made.elim
  | go s k =>
      cases took
      obtain ⟨p', ran, there⟩ := made
      obtain ⟨v, left, settles, reports⟩ := loop there
      rw [bind_ok ran]
      exact ⟨v, left, .go moves settles, reports⟩
  | stop r k =>
      cases took
      refine ⟨_, _, .stop moves, ?_⟩
      obtain ⟨outcome, msg'⟩ := r
      match outcome with
      | .error e =>
          obtain ⟨p', threw, rest⟩ := made
          exact ⟨p', bind_error threw, rest⟩
      | .ok true => exact absurd rfl (open_ended msg' k)
      | .ok false =>
          obtain ⟨p', ran, wf, left, msg_eq, finish, error⟩ := made
          rw [bind_ok ran, parseBuffer_error fuel error]
          exact ⟨p', rfl, wf, left, msg_eq, finish, error⟩

theorem afterFirstLine_open (msg : μ) (line : Bytes) (n : Nat) (msg' : μ) (k : Nat) :
    afterFirstLine msg line n ≠ .stop ⟨.ok true, msg'⟩ k := by
  rw [afterFirstLine]
  split <;> simp

theorem afterHeader_open (chunked : Bool) (contentLen : Nat) (msg : μ) (line : Bytes) (n : Nat)
    (msg' : μ) (k : Nat) : afterHeader chunked contentLen msg line n ≠ .stop ⟨.ok true, msg'⟩ k := by
  rw [afterHeader]
  split
  · simp
  · simp
  · simp
  · split <;> simp

/-- Parsing what is in the buffer settles the machine. -/
theorem parseBuffer_settles {fuel : Nat} (here : p.At (phase, msg) q)
    (enough : q.length < fuel) :
    ∃ v left, Settles (machine μ) (phase, msg) q v left ∧
      Reports (parseBuffer fuel p) v left := by
  induction fuel generalizing p phase msg q with
  | zero => exact absurd enough (Nat.not_lt_zero _)
  | succ fuel ih =>
      have size : p.ba.getReadSize = q.length := by
        rw [here.wf.getReadSize_eq, here.unread_eq]
      -- what is left after a line is shorter
      have shorter : ∀ {n : Nat}, n + 2 ≤ q.length → ∀ {p : HttpParser μ} {s : Phase × μ},
          p.At s (q.drop (n + 2)) → ∃ v left, Settles (machine μ) s (q.drop (n + 2)) v left ∧
            Reports (parseBuffer fuel p) v left := by
        intro n inside p s there
        refine ih there ?_
        rw [List.length_drop]
        omega
      rw [parseBuffer_succ, bufferTurn_eq _ _ here.error]
      cases phase with
      | firstLine =>
          rw [here.place.1]
          rcases byLine_cases q (afterFirstLine msg) with
            ⟨none_whole, waits⟩ | ⟨n, found, inside, moves⟩
          · refine ⟨_, _, .wait waits, p, ?_, here⟩
            exact bind_ok (takeLine_none (by rw [here.unread_eq]; exact none_whole))
          · obtain ⟨p', line, next⟩ := here.line found inside
            simp only [bind_ok line]
            exact settles_of_moves moves (taken_afterFirstLine ..) (afterFirstLine_open _ _ _)
              (parseFirstLine_moves next ..) (shorter inside)
      | headers chunked contentLen =>
          rw [here.place.1]
          rcases byLine_cases q (afterHeader chunked contentLen msg) with
            ⟨none_whole, waits⟩ | ⟨n, found, inside, moves⟩
          · refine ⟨_, _, .wait waits, p, ?_, here⟩
            exact bind_ok (takeLine_none (by rw [here.unread_eq]; exact none_whole))
          · obtain ⟨p', line, next⟩ := here.line found inside
            simp only [bind_ok line]
            exact settles_of_moves moves (taken_afterHeader ..) (afterHeader_open _ _ _ _ _)
              (parseHeader_moves next ..) (shorter inside)
      | fixedBody len =>
          obtain ⟨state, chunked, rfl⟩ := here.place
          rw [state, chunked]
          by_cases nothing : p.contentLen = 0
          · -- `finish_` is set before `parseFixedBody` sets it again
            have move : advance (.fixedBody p.contentLen, msg) q = .stop ⟨.ok true, msg⟩ 0 :=
              if_pos nothing
            refine ⟨_, _, .stop move, { p with finish := true }, ?_, here.wf, here.unread_eq,
              here.msg_eq, rfl, here.error⟩
            have fixed : parseFixedBody { p with finish := true } =
                .ok () { p with finish := true } := by
              rw [parseFixedBody]
              refine Eq.trans (bind_ok (show (get : ParserM μ _) { p with finish := true } =
                .ok _ _ from rfl)) ?_
              rw [if_pos nothing]
              rfl
            have due : (!false && p.contentLen == 0) = true := by
              rw [nothing]
              rfl
            rw [due]
            exact fixed
          · have due : (!false && p.contentLen == 0) = false := by
              rw [Bool.not_false, Bool.true_and]
              exact beq_false_of_ne nothing
            rw [due]
            exact parseFixedBody_settles here
      | chunkHead body =>
          obtain ⟨state, chunked, -⟩ := here.place
          rw [state, chunked]
          exact parseChunkedBody_settles here ⟨_, Or.inl rfl⟩ (by
            simp only [size, chunkMoves]
            omega)
      | chunkData chunk body =>
          obtain ⟨state, chunked, -⟩ := here.place
          rw [state, chunked]
          exact parseChunkedBody_settles here ⟨_, Or.inr ⟨_, rfl⟩⟩ (by
            simp only [size, chunkMoves]
            omega)

end

end HttpParser

/-! ## The loop over the reads -/

section

variable [HttpMessage μ]

/-- What a parse answers when the machine ends with a verdict and leaves some
reads. -/
def Answers
    (result : EStateM.Result Fault (HttpParser μ) (Bool × SocketStream (HttpMessage.maxBufferSize μ)))
    (rest : List (Read (HttpMessage.maxBufferSize μ))) : Verdict (Phase × μ) (Ended μ) → Prop
  | .paused s => ∃ p, result = .ok (false, .ofReads rest) p ∧ p.msg = s.2
  | .stopped ⟨.ok accepted, msg⟩ => ∃ p, result = .ok (accepted, .ofReads rest) p ∧ p.msg = msg
  | .stopped ⟨.error e, msg⟩ => ∃ p, result = .error e p ∧ p.msg = msg

/-- What a parse leaves in its buffer. -/
def leftBy {α : Type} : EStateM.Result Fault (HttpParser μ) α → Bytes
  | .ok _ p => p.ba.unread
  | .error _ p => p.ba.unread

namespace HttpParser

/-- The number of bytes that the reads of `parseMessage` deliver before it is left, by
returning or by an exception. -/
def takenIn : Nat → SocketStream (HttpMessage.maxBufferSize μ) → HttpParser μ → Nat
  | 0, _, _ => 0
  | fuel + 1, ss, p =>
      if p.finish || p.error then 0
      else if p.readSize = HttpMessage.maxBufferSize μ then 0
      else
        match onBuffer ss.read p with
        | .error _ _ => 0
        | .ok (len, ss) p =>
            if len ≤ 0 then 0
            else
              match parseBuffer (p.ba.getReadSize + 1) p with
              | .error _ _ => len.toNat
              | .ok _ p => len.toNat + takenIn fuel ss p

variable {p : HttpParser μ} {s : Phase × μ} {q : Bytes}

theorem takenIn_done {fuel : Nat} (done : (p.finish || p.error) = true)
    (ss : SocketStream (HttpMessage.maxBufferSize μ)) : takenIn fuel ss p = 0 := by
  cases fuel with
  | zero => rfl
  | succ fuel => rw [takenIn, if_pos done]

omit [HttpMessage μ] in
/-- A parser that has accepted or refused its message is done. -/
theorem done_of_answer {accepted : Bool} (finish : p.finish = accepted)
    (error : p.error = !accepted) : (p.finish || p.error) = true := by
  rw [finish, error]
  cases accepted <;> rfl

variable {buffer : ParserM μ Unit} {again : SocketStream (HttpMessage.maxBufferSize μ) →
  ParserM μ (Bool × SocketStream (HttpMessage.maxBufferSize μ))}

/-- A parser that is done answers without reading. -/
theorem readTurn_done (done : (p.finish || p.error) = true)
    (ss : SocketStream (HttpMessage.maxBufferSize μ)) :
    readTurn buffer again ss p = .ok (!p.error, ss) p := by
  rw [readTurn, get_bind, if_pos done]
  rfl

theorem parseMessage_done {fuel : Nat} (some_fuel : 0 < fuel) {accepted : Bool}
    (finish : p.finish = accepted) (error : p.error = !accepted)
    (ss : SocketStream (HttpMessage.maxBufferSize μ)) :
    parseMessage fuel ss p = .ok (accepted, ss) p := by
  obtain ⟨k, rfl⟩ : ∃ k, fuel = k + 1 := ⟨fuel - 1, by omega⟩
  rw [parseMessage, readTurn_done (done_of_answer finish error), error, Bool.not_not]

omit [HttpMessage μ] in
/-- A parser at a phase goes on, and has room to read. -/
theorem At.goes_on (here : p.At s q) : ¬((p.finish || p.error) = true) := by
  rw [here.finish, here.error]
  exact Bool.false_ne_true

theorem At.has_room (here : p.At s q) :
    ¬(p.readSize = HttpMessage.maxBufferSize μ) := by
  rw [here.readSize]
  exact Nat.ne_of_lt HttpMessage.maxBufferSize_pos

/-- A parser that is not done reads. -/
theorem readTurn_read (here : p.At s q) {ss ss' : SocketStream (HttpMessage.maxBufferSize μ)}
    {len : Int} {ba : ByteArray} (read : ss.read p.ba = .ok (len, ss') ba) :
    readTurn buffer again ss p =
      if len ≤ 0 then .ok (false, ss') { p with ba := ba }
      else (buffer >>= fun _ => again ss') { p with ba := ba } := by
  rw [readTurn, get_bind, if_neg here.goes_on, if_neg here.has_room, bind_ok (onBuffer_ok read)]
  dsimp only
  split <;> rfl

theorem parseMessage_read (here : p.At s q) (fuel : Nat)
    {ss ss' : SocketStream (HttpMessage.maxBufferSize μ)} {len : Int} {ba : ByteArray}
    (read : ss.read p.ba = .ok (len, ss') ba) :
    parseMessage (fuel + 1) ss p =
      if len ≤ 0 then .ok (false, ss') { p with ba := ba }
      else (parseBuffer (ba.getReadSize + 1) >>= fun _ => parseMessage fuel ss')
        { p with ba := ba } :=
  readTurn_read here read

theorem takenIn_read (here : p.At s q) (fuel : Nat)
    {ss ss' : SocketStream (HttpMessage.maxBufferSize μ)} {len : Int} {ba : ByteArray}
    (read : ss.read p.ba = .ok (len, ss') ba) :
    takenIn (fuel + 1) ss p =
      if len ≤ 0 then 0
      else match parseBuffer (ba.getReadSize + 1) { p with ba := ba } with
        | .error _ _ => len.toNat
        | .ok _ p => len.toNat + takenIn fuel ss' p := by
  rw [takenIn, if_neg here.goes_on, if_neg here.has_room, onBuffer_ok read]

/-- Reading and parsing drives the machine, and takes in the chunks it reads. -/
theorem parseMessage_drives {reads : List (Read (HttpMessage.maxBufferSize μ))} {fuel : Nat}
    (here : p.At s q) (waits : advance s q = .wait) (enough : reads.length + 1 < fuel) :
    ∃ v left rest, Drive (machine μ) s q (reads.map Read.data) v left (rest.map Read.data) ∧
      Answers (parseMessage fuel (.ofReads reads) p) rest v ∧
      leftBy (parseMessage fuel (.ofReads reads) p) = left ∧
      takenIn fuel (.ofReads reads) p + (bytesOf rest).length = (bytesOf reads).length := by
  induction reads generalizing p s q fuel with
  | nil =>
      obtain ⟨k, rfl⟩ : ∃ k, fuel = k + 1 := ⟨fuel - 1, by omega⟩
      obtain ⟨ba, read, app⟩ :=
        SocketStream.read_nil here.wf (HttpMessage.maxBufferSize_small (μ := μ))
      rw [parseMessage_read here k read, takenIn_read here k read, if_pos (le_refl 0),
        if_pos (le_refl 0)]
      refine ⟨_, _, [], .eof (.wait waits), ⟨{ p with ba := ba }, rfl, here.msg_eq⟩, ?_, rfl⟩
      change ba.unread = q
      rw [app.unread_eq, here.unread_eq, List.append_nil]
  | cons r reads ih =>
      obtain ⟨k, rfl⟩ : ∃ k, fuel = k + 1 := ⟨fuel - 1, by omega⟩
      rw [List.length_cons] at enough
      obtain ⟨ba, read, app⟩ :=
        SocketStream.read_cons here.wf (HttpMessage.maxBufferSize_small (μ := μ)) r reads
      have some_bytes : ¬((r.data.length : Int) ≤ 0) := by
        have := r.length_pos
        omega
      have unread : ba.unread = q ++ r.data := by rw [app.unread_eq, here.unread_eq]
      have there := here.received app
      have enough : (q ++ r.data).length < ba.getReadSize + 1 := by
        rw [app.wf.getReadSize_eq, unread]
        exact Nat.lt_succ_self _
      obtain ⟨v, left, settles, reports⟩ := parseBuffer_settles there enough
      rw [parseMessage_read here k read, takenIn_read here k read, if_neg some_bytes,
        if_neg some_bytes, List.map_cons, bytesOf_cons, List.length_append, Int.toNat_natCast]
      match v with
      | .paused s' =>
          obtain ⟨p', ran, settled⟩ := reports
          obtain ⟨v, left', rest, drive, answers, unread', taken⟩ := ih settled
            settles.paused_wait (show reads.length + 1 < k by omega)
          rw [bind_ok ran, ran]
          exact ⟨v, left', rest, .read (.wait waits) (.after settles drive), answers, unread',
            by simp only; omega⟩
      | .stopped ⟨.ok accepted, msg⟩ =>
          obtain ⟨p', ran, wf, left_eq, msg_eq, finish, error⟩ := reports
          have done := done_of_answer finish error
          rw [bind_ok ran, parseMessage_done (by omega) finish error, ran]
          exact ⟨_, left, reads, .read (.wait waits) (.stop settles), ⟨p', rfl, msg_eq⟩, left_eq,
            by simp only [takenIn_done done, Nat.add_zero]⟩
      | .stopped ⟨.error e, msg⟩ =>
          obtain ⟨p', threw, wf, left_eq, msg_eq⟩ := reports
          rw [bind_error threw, threw]
          exact ⟨_, left, reads, .read (.wait waits) (.stop settles), ⟨p', rfl, msg_eq⟩, left_eq,
            rfl⟩

omit [HttpMessage μ] in
/-- A parser that has just been made. -/
theorem at_start (msg : μ) : ({ msg := msg } : HttpParser μ).At (.firstLine, msg) [] :=
  ⟨ByteArray.wf_new _, ByteArray.unread_new _, rfl, rfl, rfl, rfl, ⟨rfl, rfl, rfl, rfl, rfl⟩⟩

end HttpParser

/-- A parser that has just been made drives the machine from its start. -/
theorem parseMessage_starts (reads : List (Read (HttpMessage.maxBufferSize μ))) (msg : μ) :
    ∃ v left, ∃ rest : List (Read (HttpMessage.maxBufferSize μ)),
      Drive (machine μ) (.firstLine, msg) [] (reads.map Read.data) v left (rest.map Read.data) ∧
      Answers (HttpParser.parseMessage (reads.length + 2) (.ofReads reads) { msg := msg }) rest v ∧
      leftBy (HttpParser.parseMessage (reads.length + 2) (.ofReads reads) { msg := msg }) = left ∧
      HttpParser.takenIn (reads.length + 2) (.ofReads reads) { msg := msg } +
        (bytesOf rest).length = (bytesOf reads).length :=
  HttpParser.parseMessage_drives (HttpParser.at_start msg) rfl
    (Nat.lt_succ_self (reads.length + 1))

end

/-! ## Requests -/

/-- `parseRequest` drives the machine from its start. -/
theorem parseRequest_drives (reads : List (Read 4096)) (req : HttpRequest) :
    ∃ v left rest, Drive (machine HttpRequest) (.firstLine, req) [] (reads.map Read.data) v left
        (rest.map Read.data) ∧
      Answers (parseRequest (.ofReads reads) req) rest v ∧
      leftBy (parseRequest (.ofReads reads) req) = left := by
  obtain ⟨v, left, rest, drive, answers, unread, -⟩ := parseMessage_starts reads req
  exact ⟨v, left, rest, drive, answers, unread⟩

/-- What a caller of `parseRequest` gets: the answer or the exception, and the
request. -/
def parsed {size : Nat} : EStateM.Result Fault (HttpParser μ) (Bool × SocketStream size) →
    Except Fault Bool × μ
  | .ok (answer, _) p => (.ok answer, p.msg)
  | .error e p => (.error e, p.msg)

theorem parsed_of_answers [HttpMessage μ]
    {result : EStateM.Result Fault (HttpParser μ) (Bool × SocketStream (HttpMessage.maxBufferSize μ))}
    {rest : List (Read (HttpMessage.maxBufferSize μ))} {v : Verdict (Phase × μ) (Ended μ)}
    (answers : Answers result rest v) :
    parsed result = match v with
      | .paused s => (.ok false, s.2)
      | .stopped r => (r.outcome, r.msg) := by
  match v with
  | .paused s =>
      obtain ⟨p, rfl, msg_eq⟩ := answers
      exact congrArg (Prod.mk _) msg_eq
  | .stopped ⟨.ok accepted, msg⟩ =>
      obtain ⟨p, rfl, msg_eq⟩ := answers
      exact congrArg (Prod.mk _) msg_eq
  | .stopped ⟨.error e, msg⟩ =>
      obtain ⟨p, rfl, msg_eq⟩ := answers
      exact congrArg (Prod.mk _) msg_eq

/-- **The result of a parse does not depend on how the stream is cut.** Two
sequences of reads that carry the same bytes, whatever they are, give the same
answer or the same exception and leave the same request. -/
theorem parseRequest_cut_independent (req : HttpRequest) {reads reads' : List (Read 4096)}
    (same : bytesOf reads = bytesOf reads') :
    parsed (parseRequest (.ofReads reads) req) = parsed (parseRequest (.ofReads reads') req) := by
  obtain ⟨v, left, rest, drive, answers, -⟩ := parseRequest_drives reads req
  obtain ⟨v', left', rest', drive', answers', -⟩ := parseRequest_drives reads' req
  have whole := drive.settles
  have whole' := drive'.settles
  rw [show (reads.map Read.data).flatten = bytesOf reads from rfl, same] at whole
  obtain ⟨rfl, -⟩ := whole.unique whole'
  have result := parsed_of_answers answers
  have result' := parsed_of_answers answers'
  cases v with
  | paused s => exact result.trans result'.symm
  | stopped r => exact result.trans result'.symm

/-- Two ways of cutting the same bytes, which are no request. -/
theorem parse_of_two_cuts :
    parsed (parseRequest (.ofReads [⟨ascii "GET / HTTP/2\r\n", by decide, by decide⟩])
        (HttpRequest.new 0x11 false)) =
      parsed (parseRequest (.ofReads [⟨ascii "GET / HT", by decide, by decide⟩,
        ⟨ascii "TP/2\r\n", by decide, by decide⟩]) (HttpRequest.new 0x11 false)) :=
  parseRequest_cut_independent _ (by decide)

end Reyao.Http
