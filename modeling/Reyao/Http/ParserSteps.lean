import Reyao.Http.Returns
import Reyao.Http.Response
import Mathlib.Logic.Relation

/-!
# The states a parse goes through

`parseMessage` relates a stream to the answer of a whole parse and names no state in
between. Here a parse is a walk of configurations, from the head of one of its three loops to
the head of the next, and the walk ends with the answer of `parseMessage` (`parse_ends`).

Everywhere on the walk the positions of the buffer are in order, and what is made a string of
lies between them (`parse_stays_inside`): however large a size is, it is compared with what
there is before it is used. A size is set exactly while the content of a chunk is awaited, so
that the loop over the chunks takes a line in every other turn (`chunked_body_terminates`).
-/

namespace Reyao.Http

open Lib

variable {μ : Type} [HttpMessage μ]

namespace HttpParser

/-- The loops of the parser, by their heads. -/
inductive Spot : Type
  /-- `while (!finish_ && !error_)`. -/
  | outer
  /-- The loop inside it. -/
  | inner
  /-- The loop of `parseChunkedBody`. -/
  | chunks
  deriving DecidableEq

/-- A parser at the head of a loop. -/
structure Conf (μ : Type) [HttpMessage μ] : Type where
  spot : Spot
  ss : SocketStream (HttpMessage.maxBufferSize μ)
  p : HttpParser μ

/-- Go on to a loop after a call, unless it throws. -/
def goOn (spot : Spot) (ss : SocketStream (HttpMessage.maxBufferSize μ)) :
    EStateM.Result Fault (HttpParser μ) Unit → Conf μ ⊕ Answer μ
  | .ok _ p => .inl ⟨spot, ss, p⟩
  | .error e p => .inr (.error e p)

/-- A turn of the outer loop, up to the inner one. -/
def outerStep (ss : SocketStream (HttpMessage.maxBufferSize μ)) (p : HttpParser μ) :
    Conf μ ⊕ Answer μ :=
  if p.finish || p.error then .inr (.ok (!p.error, ss) p)
  else if p.readSize = HttpMessage.maxBufferSize μ then .inr (.ok (false, ss) p)
  else match onBuffer ss.read p with
    | .error e p => .inr (.error e p)
    | .ok (len, ss) p => if len ≤ 0 then .inr (.ok (false, ss) p) else .inl ⟨.inner, ss, p⟩

/-- A turn that takes a line. -/
def lineStep (parse : Bytes → ParserM μ Unit) (ss : SocketStream (HttpMessage.maxBufferSize μ))
    (p : HttpParser μ) : Conf μ ⊕ Answer μ :=
  match takeLine p with
  | .error e p => .inr (.error e p)
  | .ok none p => .inl ⟨.outer, ss, p⟩
  | .ok (some line) p => goOn .inner ss (parse line p)

/-- `finish_` is set when there is no body to wait for. -/
def finishEmpty (p : HttpParser μ) : HttpParser μ :=
  if !p.chunked && p.contentLen == 0 then { p with finish := true } else p

/-- The turn of the inner loop that parses the body. -/
def bodyStep (ss : SocketStream (HttpMessage.maxBufferSize μ)) (p : HttpParser μ) :
    Conf μ ⊕ Answer μ :=
  if p.chunked then .inl ⟨.chunks, ss, p⟩ else goOn .outer ss (parseFixedBody p)

/-- A turn of the inner loop. -/
def innerStep (ss : SocketStream (HttpMessage.maxBufferSize μ)) (p : HttpParser μ) :
    Conf μ ⊕ Answer μ :=
  if p.error then .inl ⟨.outer, ss, p⟩
  else match p.parseState with
    | .firstLine => lineStep parseFirstLine ss p
    | .header => lineStep parseHeader ss p
    | .body => bodyStep ss (finishEmpty p)

namespace Conf

/-- A turn of the loop: to the head of the next, or to the end of the parse. -/
def step (c : Conf μ) : Conf μ ⊕ Answer μ :=
  match c.spot with
  | .outer => outerStep c.ss c.p
  | .inner => innerStep c.ss c.p
  | .chunks =>
      .inl ⟨if (chunkStep c.p).2 then .chunks else .outer, c.ss, (chunkStep c.p).1⟩

/-- The configurations that a parse goes through. -/
abbrev Reach : Conf μ → Conf μ → Prop := Relation.ReflTransGen fun c c' => c.step = .inl c'

/-- The configuration after some turns. -/
def after : Nat → Conf μ → Option (Conf μ)
  | 0, c => some c
  | n + 1, c =>
      match c.step with
      | .inl c' => after n c'
      | .inr _ => none

theorem reach_after {n : Nat} {c c' : Conf μ} (there : after n c = some c') : Reach c c' := by
  induction n generalizing c with
  | zero =>
      cases there
      exact .refl
  | succ n ih =>
      unfold after at there
      split at there
      · rename_i turn
        exact .head turn (ih there)
      · cases there

/-- The walk from a configuration ends. -/
def Ends (c : Conf μ) (r : Answer μ) : Prop := ∃ last, Reach c last ∧ last.step = .inr r

/-- A new parser on a stream. -/
def start (ss : SocketStream (HttpMessage.maxBufferSize μ)) (msg : μ) : Conf μ :=
  ⟨.outer, ss, { msg := msg }⟩

/-- The position and the size of the bytes that the turn makes a string of: a line, the
content of a chunk or a body of known length. -/
def range (c : Conf μ) : Option (Nat × Nat) :=
  let line := c.p.ba.findCRLF.map fun n => (c.p.ba.readPos, n)
  if c.p.error then none
  else match c.spot with
    | .outer => none
    | .inner =>
        match c.p.parseState with
        | .firstLine => line
        | .header => line
        | .body =>
            if c.p.chunked ∨ c.p.contentLen = 0 then none
            else if c.p.ba.getReadSize ≥ c.p.contentLen then some (c.p.ba.readPos, c.p.contentLen)
            else none
    | .chunks =>
        if c.p.chunkSize = 0 then line
        else if c.p.chunkState = .content then
          let size := (c.p.chunkSize + 2) % 2 ^ 64
          if size ≤ c.p.ba.getReadSize then some (c.p.ba.readPos, size) else none
        else none

end Conf

/-! ## What calls leave alone -/

/-- The buffer and the chunk are the same. -/
structure SameChunk (p p' : HttpParser μ) : Prop where
  ba : p'.ba = p.ba
  chunkSize : p'.chunkSize = p.chunkSize
  chunkState : p'.chunkState = p.chunkState

/-- A call that leaves the buffer and the chunk alone. -/
def LeavesChunk (f : ParserM μ Unit) : Prop :=
  ∀ p, (∃ p', f p = .ok () p' ∧ SameChunk p p') ∨ ∃ e p', f p = .error e p' ∧ SameChunk p p'

theorem leavesChunk_parseFirstLine (line : Bytes) :
    LeavesChunk (parseFirstLine (μ := μ) line) := by
  intro p
  cases ran : HttpMessage.parseFirstLine line p.msg with
  | ok good msg =>
      have done : onMessage (HttpMessage.parseFirstLine line) p = .ok good { p with msg := msg } := by
        rw [onMessage, ran]
      refine Or.inl ⟨_, bind_ok done, ?_⟩
      cases good <;> exact ⟨rfl, rfl, rfl⟩
  | error e msg =>
      have threw : onMessage (α := Bool) (HttpMessage.parseFirstLine line) p =
          .error e { p with msg := msg } := by
        rw [onMessage, ran]
      exact Or.inr ⟨e, _, bind_error threw, rfl, rfl, rfl⟩

theorem leavesChunk_parseHeader (line : Bytes) : LeavesChunk (parseHeader (μ := μ) line) := by
  intro p
  rw [parseHeader_eq]
  cases readHeader line with
  | ends => exact Or.inl ⟨_, rfl, rfl, rfl, rfl⟩
  | bad => exact Or.inl ⟨_, rfl, rfl, rfl, rfl⟩
  | throws e => exact Or.inr ⟨e, _, rfl, rfl, rfl, rfl⟩
  | field title value =>
      simp only
      rw [parseField_eq]
      cases lengthAfter (p.chunked || isChunked title value) p.contentLen title value with
      | error e => exact Or.inr ⟨e, _, rfl, rfl, rfl, rfl⟩
      | ok len => exact Or.inl ⟨_, rfl, rfl, rfl, rfl⟩

omit [HttpMessage μ] in
theorem finishEmpty_eq (p : HttpParser μ) : ∃ finish, finishEmpty p = { p with finish := finish } := by
  unfold finishEmpty
  split
  · exact ⟨true, rfl⟩
  · exact ⟨p.finish, rfl⟩

/-! ## Turns -/

variable {p : HttpParser μ} {ss : SocketStream (HttpMessage.maxBufferSize μ)}

omit [HttpMessage μ] in
theorem SameChunk.coupled {p' : HttpParser μ} (same : SameChunk p p') (coupled : Coupled p) :
    Coupled p' := by
  rw [Coupled, same.chunkSize, same.chunkState]
  exact coupled

/-- A read leaves the positions in order, and uses up an answer if it brings bytes. -/
theorem read_cases {size : Nat} (ss : SocketStream size) {ba : ByteArray} (wf : ba.Wf)
    (small : size < 2 ^ 31) :
    ∃ len ss' ba', ss.read ba = .ok (len, ss') ba' ∧ ba'.Wf ∧
      (0 < len → ss'.incoming.length < ss.incoming.length) := by
  obtain ⟨connected, incoming⟩ := ss
  cases connected with
  | false => exact ⟨-1, _, ba, rfl, wf, fun some_bytes => by omega⟩
  | true =>
      cases incoming with
      | nil =>
          obtain ⟨ba', read, appended⟩ := SocketStream.read_nil wf small
          exact ⟨0, _, ba', read, appended.wf, fun some_bytes => by omega⟩
      | cons r rest =>
          obtain ⟨ba', read, appended⟩ := SocketStream.read_cons wf small r rest
          exact ⟨_, _, ba', read, appended.wf, fun _ => Nat.lt_succ_self _⟩

/-- A parser with another buffer. -/
def withBuffer (ba : ByteArray) (p : HttpParser μ) : HttpParser μ := { p with ba := ba }

/-- The parser that an answer leaves. -/
def parserOf : Answer μ → HttpParser μ
  | .ok _ p => p
  | .error _ p => p

namespace Conf

/-- The positions of the buffer are in order and the chunk is coupled. -/
structure Sound (c : Conf μ) : Prop where
  wf : c.p.ba.Wf
  coupled : c.p.error = true ∨ Coupled c.p
  running : c.spot = .chunks → c.p.error = false

/-- The turn leads to a sound configuration, or leaves a buffer in order. -/
def Leads : Conf μ ⊕ Answer μ → Prop
  | .inl c => c.Sound
  | .inr r => (parserOf r).ba.Wf

theorem sound_start (ss : SocketStream (HttpMessage.maxBufferSize μ)) (msg : μ) :
    (start ss msg).Sound :=
  ⟨ByteArray.wf_new kInitSize, Or.inr (iff_of_true rfl rfl), fun inside => by cases inside⟩

theorem leads_goOn {spot : Spot} (other : spot ≠ .chunks) {f : ParserM μ Unit}
    (leaves : LeavesChunk f) (wf : p.ba.Wf) (coupled : Coupled p) :
    Leads (goOn spot ss (f p)) := by
  rcases leaves p with ⟨p', done, same⟩ | ⟨e, p', threw, same⟩
  · rw [done]
    refine ⟨?_, Or.inr (same.coupled coupled), fun inside => absurd inside other⟩
    change p'.ba.Wf
    rw [same.ba]
    exact wf
  · rw [threw]
    change p'.ba.Wf
    rw [same.ba]
    exact wf

theorem leads_lineStep {parse : Bytes → ParserM μ Unit} (leaves : ∀ line, LeavesChunk (parse line))
    (wf : p.ba.Wf) (coupled : Coupled p) : Leads (lineStep parse ss p) := by
  unfold lineStep
  rcases takeLine_cases wf with ⟨-, line⟩ | ⟨n, ba, -, -, wf', -, line⟩
  · rw [line]
    exact ⟨wf, Or.inr coupled, fun inside => by cases inside⟩
  · rw [line]
    exact leads_goOn (fun same => by cases same) (leaves _) wf' coupled

/-- What `parseFixedBody` leaves. -/
def fixedStep (p : HttpParser μ) : HttpParser μ :=
  if p.contentLen = 0 then { p with finish := true }
  else if p.ba.getReadSize ≥ p.contentLen then
    { p with
      msg := HttpMessage.setBody (p.ba.bytesAt p.ba.readPos p.contentLen) p.msg
      ba := p.ba.setReadPos (p.ba.readPos + p.contentLen)
      finish := true }
  else p

theorem parseFixedBody_eq (p : HttpParser μ) : parseFixedBody p = .ok () (fixedStep p) := by
  unfold parseFixedBody fixedStep
  rw [get_bind]
  split
  · rfl
  · split <;> rfl

theorem fixedStep_wf (wf : p.ba.Wf) (coupled : Coupled p) :
    (fixedStep p).ba.Wf ∧ Coupled (fixedStep p) := by
  unfold fixedStep
  split
  · exact ⟨wf, coupled⟩
  split
  · rename_i there
    have whole : p.contentLen ≤ p.ba.unread.length := by rwa [← wf.getReadSize_eq]
    exact ⟨(wf.setReadPos whole).wf wf, coupled⟩
  · exact ⟨wf, coupled⟩

theorem leads_outerStep (wf : p.ba.Wf) (coupled : p.error = true ∨ Coupled p) :
    Leads (outerStep ss p) := by
  unfold outerStep
  split
  · exact wf
  split
  · exact wf
  obtain ⟨len, ss', ba, read, wf', -⟩ :=
    read_cases ss wf (HttpMessage.maxBufferSize_small (μ := μ))
  rw [onBuffer_ok read]
  simp only
  split
  · exact wf'
  · exact ⟨wf', coupled, fun inside => by cases inside⟩

theorem leads_innerStep (wf : p.ba.Wf) (coupled : p.error = true ∨ Coupled p) :
    Leads (innerStep ss p) := by
  unfold innerStep
  split
  · exact ⟨wf, coupled, fun inside => by cases inside⟩
  rename_i noError
  have coupled := coupled.resolve_left noError
  cases p.parseState with
  | firstLine => exact leads_lineStep leavesChunk_parseFirstLine wf coupled
  | header => exact leads_lineStep leavesChunk_parseHeader wf coupled
  | body =>
      obtain ⟨finish, is⟩ := finishEmpty_eq p
      rw [is]
      simp only [bodyStep]
      split
      · exact ⟨wf, Or.inr coupled, fun _ => Bool.eq_false_iff.mpr noError⟩
      · obtain ⟨wf', coupled'⟩ := fixedStep_wf (p := { p with finish := finish }) wf coupled
        rw [parseFixedBody_eq]
        exact ⟨wf', Or.inr coupled', fun inside => by cases inside⟩

theorem step_leaves {p' : HttpParser μ} (left : chunkStep p = (p', false)) :
    (⟨.chunks, ss, p⟩ : Conf μ).step = .inl ⟨.outer, ss, p'⟩ := by
  rw [step, left]
  rfl

theorem step_stays {p' : HttpParser μ} (stayed : chunkStep p = (p', true)) :
    (⟨.chunks, ss, p⟩ : Conf μ).step = .inl ⟨.chunks, ss, p'⟩ := by
  rw [step, stayed]
  rfl

theorem Sound.coupled_of_chunks {c : Conf μ} (sound : c.Sound) (inside : c.spot = .chunks) :
    Coupled c.p := by
  have running := sound.running inside
  exact sound.coupled.resolve_left (by rw [running]; exact Bool.false_ne_true)

/-- What a turn leads to. -/
theorem Sound.leads {c : Conf μ} (sound : c.Sound) : Leads c.step := by
  obtain ⟨spot, ss, p⟩ := c
  cases spot with
  | outer => exact leads_outerStep sound.wf sound.coupled
  | inner => exact leads_innerStep sound.wf sound.coupled
  | chunks =>
      have coupled := sound.coupled_of_chunks rfl
      rcases chunkStep_cases ⟨sound.wf, coupled.content⟩ (sound.running rfl) with
        ⟨p', left, wf, coupled'⟩ | ⟨p', stayed, wf, running, coupled', -⟩
      · rw [step_leaves left]
        exact ⟨wf, coupled'.imp_right fun kept => kept coupled, fun inside => by cases inside⟩
      · rw [step_stays stayed]
        exact ⟨wf, Or.inr coupled', fun _ => running⟩

theorem Sound.reach {c c' : Conf μ} (sound : c.Sound) (reach : Reach c c') : c'.Sound := by
  induction reach with
  | refl => exact sound
  | tail _ turn ih =>
      have leads := ih.leads
      rw [turn] at leads
      exact leads

/-! ## The loops take these turns -/

/-- The loop over the chunks is left, by the turns of the walk. -/
theorem parseChunkedBody_walks (ss : SocketStream (HttpMessage.maxBufferSize μ)) {fuel : Nat}
    (inside : InChunks p) (running : p.error = false) (enough : chunkRank p < fuel) :
    ∃ p', parseChunkedBody fuel p = .ok () p' ∧ Reach ⟨.chunks, ss, p⟩ ⟨.outer, ss, p'⟩ := by
  induction fuel generalizing p with
  | zero => exact absurd enough (Nat.not_lt_zero _)
  | succ fuel ih =>
      rw [parseChunkedBody]
      rcases chunkStep_cases inside running with
        ⟨p', left, -⟩ | ⟨p', stayed, wf, running', coupled, taken⟩
      · have turn : (⟨.chunks, ss, p⟩ : Conf μ).step = .inl ⟨.outer, ss, p'⟩ := step_leaves left
        exact ⟨p', chunkedTurn_left left, .single turn⟩
      · have turn : (⟨.chunks, ss, p⟩ : Conf μ).step = .inl ⟨.chunks, ss, p'⟩ := step_stays stayed
        have lower := chunkRank_lt taken
        obtain ⟨last, done, reach⟩ := ih ⟨wf, coupled.content⟩ running' (by omega)
        exact ⟨last, (chunkedTurn_stayed stayed).trans done, .head turn reach⟩

/-- The inner loop is left by turns of the walk, or by an exception at its end. -/
def Walks (c : Conf μ) (result : EStateM.Result Fault (HttpParser μ) Unit) : Prop :=
  match result with
  | .ok _ p => Reach c ⟨.outer, c.ss, p⟩
  | .error e p => Ends c (.error e p)

theorem Walks.head {c c' : Conf μ} {result : EStateM.Result Fault (HttpParser μ) Unit}
    (turn : c.step = .inl c') (same : c'.ss = c.ss) (walks : Walks c' result) :
    Walks c result := by
  cases result with
  | ok a p =>
      change Reach c ⟨.outer, c.ss, p⟩
      rw [← same]
      exact .head turn walks
  | error e p =>
      obtain ⟨last, reach, ends⟩ := walks
      exact ⟨last, .head turn reach, ends⟩

/-- A turn that takes a line, and the loop after it. -/
theorem lineStep_walks {parse : Bytes → ParserM μ Unit}
    (leaves : ∀ line, LeavesChunk (parse line)) {again : ParserM μ Unit} (wf : p.ba.Wf)
    (coupled : Coupled p) (turn : (⟨.inner, ss, p⟩ : Conf μ).step = lineStep parse ss p)
    (walks : ∀ p' : HttpParser μ, p'.ba.Wf → Coupled p' →
      p'.ba.getReadSize < p.ba.getReadSize → Walks ⟨.inner, ss, p'⟩ (again p')) :
    Walks ⟨.inner, ss, p⟩ ((do
      match ← takeLine with
      | none => return
      | some line => parse line >>= fun _ => again : ParserM μ Unit) p) := by
  unfold lineStep at turn
  rcases takeLine_cases wf with ⟨-, line⟩ | ⟨n, ba, -, -, wf', taken, line⟩
  · rw [line] at turn
    rw [bind_ok line]
    exact .single turn
  · rw [line] at turn
    rw [bind_ok line]
    simp only at turn ⊢
    rcases leaves (p.ba.unread.take n) { p with ba := ba } with
      ⟨p', done, same⟩ | ⟨e, p', threw, -⟩
    · rw [done] at turn
      rw [bind_ok done]
      refine Walks.head turn rfl (walks p' ?_ (same.coupled coupled) ?_)
      · rw [same.ba]
        exact wf'
      · rw [same.ba]
        change ba.getReadSize < _
        omega
    · rw [threw] at turn
      rw [bind_error threw]
      exact ⟨_, .refl, turn⟩

/-- The turn that parses the body leaves the inner loop. -/
theorem bodyStep_walks (state : p.parseState = .body) (wf : p.ba.Wf) (running : p.error = false)
    (coupled : Coupled p) :
    Walks ⟨.inner, ss, p⟩ ((do
      if !p.chunked && p.contentLen == 0 then modify fun p => { p with finish := true }
      if p.chunked then parseChunkedBody (2 * p.ba.getReadSize + 2)
      else parseFixedBody : ParserM μ Unit) p) := by
  have noError : ¬p.error = true := by rw [running]; exact Bool.false_ne_true
  have turn : (⟨.inner, ss, p⟩ : Conf μ).step = bodyStep ss (finishEmpty p) := by
    change innerStep ss p = _
    unfold innerStep
    rw [if_neg noError, state]
  cases chunks : p.chunked with
  | true =>
      have due : finishEmpty p = p := by rw [finishEmpty, chunks]; rfl
      rw [due, bodyStep, if_pos chunks] at turn
      have enough : chunkRank p < 2 * p.ba.getReadSize + 2 := by
        unfold chunkRank
        split <;> omega
      obtain ⟨p', done, reach⟩ := parseChunkedBody_walks ss ⟨wf, coupled.content⟩ running enough
      refine Walks.head turn rfl ?_
      change Walks _ (parseChunkedBody (2 * p.ba.getReadSize + 2) p)
      rw [done]
      exact reach
  | false =>
      obtain ⟨finish, is⟩ := finishEmpty_eq p
      have fixed : ¬(finishEmpty p).chunked = true := by
        rw [is]
        exact Bool.eq_false_iff.mp chunks
      rw [bodyStep, if_neg fixed, parseFixedBody_eq] at turn
      have ran : ((do
          if !false && p.contentLen == 0 then modify fun p => { p with finish := true }
          if false then parseChunkedBody (2 * p.ba.getReadSize + 2)
          else parseFixedBody : ParserM μ Unit) p) = parseFixedBody (finishEmpty p) := by
        have due : (!p.chunked && p.contentLen == 0) = (p.contentLen == 0) := by rw [chunks]; rfl
        rw [finishEmpty, due]
        cases p.contentLen == 0 <;> rfl
      rw [ran, parseFixedBody_eq]
      exact .single turn

/-- The inner loop is left, by the turns of the walk. -/
theorem parseBuffer_walks {fuel : Nat} (wf : p.ba.Wf) (coupled : p.error = true ∨ Coupled p)
    (enough : p.ba.getReadSize < fuel) : Walks ⟨.inner, ss, p⟩ (parseBuffer fuel p) := by
  induction fuel generalizing p with
  | zero => exact absurd enough (Nat.not_lt_zero _)
  | succ fuel ih =>
      by_cases failed : p.error = true
      · rw [parseBuffer_error _ failed]
        exact .single (if_pos failed)
      have coupled := coupled.resolve_left failed
      have running := Bool.eq_false_iff.mpr failed
      have later : ∀ p' : HttpParser μ, p'.ba.Wf → Coupled p' →
          p'.ba.getReadSize < p.ba.getReadSize →
            Walks ⟨.inner, ss, p'⟩ (parseBuffer fuel p') :=
        fun p' wf coupled less => ih wf (Or.inr coupled) (by omega)
      rw [parseBuffer_succ, bufferTurn_eq _ _ running]
      cases state : p.parseState with
      | firstLine =>
          refine lineStep_walks leavesChunk_parseFirstLine wf coupled ?_ later
          change innerStep ss p = _
          rw [innerStep, if_neg failed, state]
      | header =>
          refine lineStep_walks leavesChunk_parseHeader wf coupled ?_ later
          change innerStep ss p = _
          rw [innerStep, if_neg failed, state]
      | body => exact bodyStep_walks state wf running coupled

theorem Ends.head {c c' : Conf μ} {r : Answer μ} (reach : Reach c c') (ends : Ends c' r) :
    Ends c r := by
  obtain ⟨last, reach', stop⟩ := ends
  exact ⟨last, reach.trans reach', stop⟩

/-- The outer loop is left, by the turns of the walk. -/
theorem parseMessage_ends {fuel : Nat} (wf : p.ba.Wf) (coupled : p.error = true ∨ Coupled p)
    (enough : ss.incoming.length < fuel) : Ends ⟨.outer, ss, p⟩ (parseMessage fuel ss p) := by
  induction fuel generalizing p ss with
  | zero => exact absurd enough (Nat.not_lt_zero _)
  | succ fuel ih =>
      have turn : (⟨.outer, ss, p⟩ : Conf μ).step = outerStep ss p := rfl
      have stops : ∀ {r}, outerStep ss p = .inr r → Ends ⟨.outer, ss, p⟩ r :=
        fun stop => ⟨_, .refl, turn.trans stop⟩
      rw [parseMessage, readTurn, get_bind]
      by_cases done : (p.finish || p.error) = true
      · rw [if_pos done]
        exact stops (if_pos done)
      rw [if_neg done]
      by_cases full : p.readSize = HttpMessage.maxBufferSize μ
      · rw [if_pos full]
        refine stops ?_
        rw [outerStep, if_neg done, if_pos full]
        rfl
      rw [if_neg full]
      obtain ⟨len, ss', ba, read, wf', shorter⟩ :=
        read_cases ss wf (HttpMessage.maxBufferSize_small (μ := μ))
      have outer : outerStep ss p = if len ≤ 0 then .inr (.ok (false, ss') { p with ba := ba })
          else .inl ⟨.inner, ss', { p with ba := ba }⟩ := by
        rw [outerStep, if_neg done, if_neg full, onBuffer_ok read]
      rw [bind_ok (onBuffer_ok read)]
      simp only
      by_cases nothing : len ≤ 0
      · rw [if_pos nothing] at outer ⊢
        exact stops outer
      rw [if_neg nothing] at outer ⊢
      have walks : Walks ⟨.inner, ss', { p with ba := ba }⟩
          (parseBuffer (ba.getReadSize + 1) { p with ba := ba }) :=
        parseBuffer_walks wf' coupled (Nat.lt_succ_self _)
      cases ran : parseBuffer (ba.getReadSize + 1) { p with ba := ba } with
      | error e p' =>
          rw [ran] at walks
          have threw : parseThere { p with ba := ba } = .error e p' := ran
          rw [bind_error threw]
          exact Ends.head (.single (turn.trans outer)) walks
      | ok a p' =>
          rw [ran] at walks
          have parsed : parseThere { p with ba := ba } = .ok a p' := ran
          rw [bind_ok parsed]
          have sound : (⟨.inner, ss', { p with ba := ba }⟩ : Conf μ).Sound :=
            ⟨wf', coupled, fun inside => by cases inside⟩
          have sound' := sound.reach walks
          refine Ends.head (.head (turn.trans outer) walks) (ih sound'.wf sound'.coupled ?_)
          have := shorter (by omega)
          change ss'.incoming.length < fuel
          omega

/-- The walk from a new parser ends with the answer of the parse. -/
theorem parse_ends (ss : SocketStream (HttpMessage.maxBufferSize μ)) (msg : μ) :
    Ends (start ss msg) (parseMessage (ss.incoming.length + 2) ss { msg := msg }) :=
  parseMessage_ends (sound_start ss msg).wf (sound_start ss msg).coupled (by omega)

/-- Of two turns that stay in the loop over the chunks, one takes a size line. -/
theorem two_turns_take (inside : InChunks p) (running : p.error = false) (c₁ c₂ : Conf μ)
    (first : (⟨.chunks, ss, p⟩ : Conf μ).step = .inl c₁) (stays : c₁.spot = .chunks)
    (second : c₁.step = .inl c₂) (stays' : c₂.spot = .chunks) :
    c₂.p.ba.getReadSize + 2 ≤ p.ba.getReadSize := by
  rcases chunkStep_cases inside running with
    ⟨p₁, left, -⟩ | ⟨p₁, stayed, wf₁, running₁, coupled₁, taken₁⟩
  · rw [step_leaves left] at first
    cases first
    cases stays
  rw [step_stays stayed] at first
  cases first
  rcases chunkStep_cases ⟨wf₁, coupled₁.content⟩ running₁ with
    ⟨p₂, left, -⟩ | ⟨p₂, stayed, -, -, -, taken₂⟩
  · rw [step_leaves left] at second
    cases second
    cases stays'
  rw [step_stays stayed] at second
  cases second
  change p₂.ba.getReadSize + 2 ≤ p.ba.getReadSize
  rcases taken₁ with ⟨-, pending, taken₁⟩ | ⟨-, head, taken₁⟩
  · have := (taken₂.resolve_left fun other => pending other.1).2.2
    omega
  · have := (taken₂.resolve_right fun other => other.1 head).2.2
    omega

/-! ## Inside the buffer -/

omit [HttpMessage μ] in
/-- Bytes that follow the read position lie between the positions, if there are as many. -/
theorem inside_of_le (wf : p.ba.Wf) {n : Nat} (there : n ≤ p.ba.getReadSize) :
    p.ba.readPos + n ≤ p.ba.writePos := by
  have ordered := wf.ordered
  rw [wf.getReadSize_eq, wf.length_unread] at there
  omega

omit [HttpMessage μ] in
theorem line_inside (wf : p.ba.Wf) {pos len : Nat}
    (line : (p.ba.findCRLF.map fun n => (p.ba.readPos, n)) = some (pos, len)) :
    p.ba.readPos ≤ pos ∧ pos + len ≤ p.ba.writePos := by
  obtain ⟨n, found, same⟩ := Option.map_eq_some_iff.mp line
  obtain ⟨rfl, rfl⟩ := Prod.mk.inj same
  have enough : n + 2 ≤ p.ba.unread.length := search_le found
  refine ⟨le_refl _, inside_of_le wf ?_⟩
  rw [wf.getReadSize_eq]
  omega

/-- A string is made of bytes between the positions, whatever the size is. -/
theorem range_inside {c : Conf μ} (wf : c.p.ba.Wf) {pos len : Nat}
    (range : c.range = some (pos, len)) :
    c.p.ba.readPos ≤ pos ∧ pos + len ≤ c.p.ba.writePos := by
  unfold Conf.range at range
  simp only at range
  split at range
  · cases range
  split at range
  · cases range
  · split at range
    · exact line_inside wf range
    · exact line_inside wf range
    · split at range
      · cases range
      split at range
      · rename_i there
        cases range
        exact ⟨le_refl _, inside_of_le wf there⟩
      · cases range
  · split at range
    · exact line_inside wf range
    split at range
    · split at range
      · rename_i there
        cases range
        -- the sum of the size and 2 may have wrapped: it is what is compared
        exact ⟨le_refl _, inside_of_le wf there⟩
      · cases range
    · cases range

/-- A turn of the loop over the chunks adds the bytes of its range to `body_`, or nothing. -/
theorem chunk_of_range {c c' : Conf μ} (spot : c.spot = .chunks) (turn : c.step = .inl c') :
    c'.p.body = c.p.body ∨ ∃ pos len, c.range = some (pos, len) ∧
      c'.p.body = c.p.body ++ c.p.ba.bytesAt pos len := by
  obtain ⟨_, ss, p⟩ := c
  cases spot
  cases turn
  change (chunkStep p).1.body = p.body ∨ ∃ pos len, _ ∧
    (chunkStep p).1.body = p.body ++ p.ba.bytesAt pos len
  unfold chunkStep
  split
  · exact Or.inl rfl
  rename_i noError
  split
  · left
    unfold takeLine
    cases p.ba.findCRLF with
    | none => rfl
    | some n =>
        simp only
        split
        · rfl
        · split <;> rfl
  rename_i pending
  split
  · rename_i content
    simp only
    split
    · rename_i there
      refine Or.inr ⟨p.ba.readPos, (p.chunkSize + 2) % 2 ^ 64, ?_, rfl⟩
      simp only [Conf.range, if_neg noError, if_neg pending, if_pos content, if_pos there]
    · exact Or.inl rfl
  · exact Or.inl rfl

/-- The turn that parses a body of known length sets it to the bytes of its range. -/
theorem body_of_range {c c' : Conf μ} (spot : c.spot = .inner) (state : c.p.parseState = .body)
    (turn : c.step = .inl c') :
    c'.p.msg = c.p.msg ∨ ∃ pos len, c.range = some (pos, len) ∧
      c'.p.msg = HttpMessage.setBody (c.p.ba.bytesAt pos len) c.p.msg := by
  obtain ⟨_, ss, p⟩ := c
  cases spot
  change innerStep ss p = .inl c' at turn
  change p.parseState = .body at state
  unfold innerStep at turn
  split at turn
  · cases turn
    exact Or.inl rfl
  rename_i noError
  obtain ⟨finish, is⟩ := finishEmpty_eq p
  rw [state, is] at turn
  simp only [bodyStep] at turn
  split at turn
  · cases turn
    exact Or.inl rfl
  rename_i fixed
  rw [parseFixedBody_eq] at turn
  cases turn
  change (fixedStep { p with finish := finish }).msg = p.msg ∨ ∃ pos len, _ ∧
    (fixedStep { p with finish := finish }).msg = HttpMessage.setBody (p.ba.bytesAt pos len) p.msg
  unfold fixedStep
  split
  · exact Or.inl rfl
  rename_i pending
  split
  · rename_i there
    refine Or.inr ⟨p.ba.readPos, p.contentLen, ?_, rfl⟩
    have none_left : ¬(p.chunked = true ∨ p.contentLen = 0) := not_or.mpr ⟨fixed, pending⟩
    have whole : p.ba.getReadSize ≥ p.contentLen := there
    simp only [Conf.range, if_neg noError, state, if_neg none_left, if_pos whole]
  · exact Or.inl rfl

/-- What a turn takes in for the body is the bytes of its range, or nothing. -/
structure MadeOfRange (c c' : Conf μ) : Prop where
  chunk : c.spot = .chunks → c'.p.body = c.p.body ∨ ∃ pos len, c.range = some (pos, len) ∧
    c'.p.body = c.p.body ++ c.p.ba.bytesAt pos len
  fixed : c.spot = .inner → c.p.parseState = .body → c'.p.msg = c.p.msg ∨
    ∃ pos len, c.range = some (pos, len) ∧
      c'.p.msg = HttpMessage.setBody (c.p.ba.bytesAt pos len) c.p.msg

/-- A walk that ends with the answer, has the positions of the buffer in order all the way and
makes strings only of bytes between them. Between the heads of two loops the buffer changes
once. -/
structure StaysInside (c : Conf μ) (r : Answer μ) : Prop where
  ends : Ends c r
  wf : ∀ c', Reach c c' → c'.p.ba.Wf
  inside : ∀ c', Reach c c' → ∀ pos len, c'.range = some (pos, len) →
    c'.p.ba.readPos ≤ pos ∧ pos + len ≤ c'.p.ba.writePos
  made : ∀ c', Reach c c' → ∀ c'', c'.step = .inl c'' → MadeOfRange c' c''
  left : (parserOf r).ba.Wf

theorem staysInside (ss : SocketStream (HttpMessage.maxBufferSize μ)) (msg : μ) :
    StaysInside (start ss msg) (parseMessage (ss.incoming.length + 2) ss { msg := msg }) := by
  have sound : ∀ c, Reach (start ss msg) c → c.Sound := fun c => (sound_start ss msg).reach
  obtain ⟨last, reach, stop⟩ := parse_ends ss msg
  refine ⟨⟨last, reach, stop⟩, fun c reach => (sound c reach).wf,
    fun c reach pos len => range_inside (sound c reach).wf, fun c _ c' turn => ?_, ?_⟩
  · exact ⟨fun spot => chunk_of_range spot turn, fun spot state => body_of_range spot state turn⟩
  have leads := (sound last reach).leads
  rw [stop] at leads
  exact leads

end Conf

end HttpParser

open HttpParser HttpParser.Conf

/-- **A parse stays inside its buffer.** In every state of `parseRequest` and `parseResponse`,
on any stream and up to the return or the exception, `kCheapPrepend <= readPos_ <= writePos_ <=
buf_.size()`, and what is made a string of lies between the positions. -/
theorem parse_stays_inside (ss : SocketStream (HttpMessage.maxBufferSize HttpRequest))
    (req : HttpRequest) (ss' : SocketStream (HttpMessage.maxBufferSize HttpResponse))
    (rsp : HttpResponse) :
    StaysInside (start ss req) (parseRequest ss req) ∧
      StaysInside (start ss' rsp) (parseResponse ss' rsp) :=
  ⟨staysInside ss req, staysInside ss' rsp⟩

/-- **The loop over the chunks ends.** At its head a size is set exactly when the content of a
chunk is awaited, so that one of its branches applies; two turns that stay in the loop take two
bytes or more; and it is left from there with any buffer. -/
theorem chunked_body_terminates {ss : SocketStream (HttpMessage.maxBufferSize μ)} {msg : μ}
    {c : Conf μ} (reach : Reach (start ss msg) c) (head : c.spot = .chunks) {ba : ByteArray}
    (wf : ba.Wf) :
    (c.p.chunkSize = 0 ↔ c.p.chunkState = .size) ∧
      (c.p.chunkSize = 0 ∨ c.p.chunkState = .content) ∧
      (∀ c₁ c₂, (⟨.chunks, c.ss, c.p.withBuffer ba⟩ : Conf μ).step = .inl c₁ →
        c₁.spot = .chunks → c₁.step = .inl c₂ → c₂.spot = .chunks →
        c₂.p.ba.getReadSize + 2 ≤ ba.getReadSize) ∧
      ∃ p', Leaves chunkedTurn (c.p.withBuffer ba) (.ok () p') ∧
        parseChunkedBody (2 * ba.getReadSize + 2) (c.p.withBuffer ba) = .ok () p' := by
  have sound := (sound_start ss msg).reach reach
  have running := sound.running head
  have coupled := sound.coupled_of_chunks head
  have inside : InChunks (c.p.withBuffer ba) := ⟨wf, coupled.content⟩
  refine ⟨coupled, (em (c.p.chunkSize = 0)).imp_right coupled.content,
    two_turns_take inside running, ?_⟩
  have enough : chunkRank (c.p.withBuffer ba) < 2 * ba.getReadSize + 2 := by
    change 2 * ba.getReadSize + _ < _
    split <;> omega
  obtain ⟨p', done, -⟩ := parseChunkedBody_walks c.ss inside running enough
  have leaves := parseChunkedBody_leaves inside
  refine ⟨p', ?_, done⟩
  rw [← done]
  exact leaves

/-- A request whose first chunk has not arrived. -/
def halfChunked : List (Read 4096) :=
  [⟨ascii "GET / HTTP/1.1\r\nTransfer-Encoding: chunked\r\n\r\n5\r\nab", by decide, by decide⟩]

theorem halfChunked_terminates :
    ∃ c, Reach (start (.ofReads halfChunked) (HttpRequest.new 0x11 false)) c ∧
      c.p.chunkSize = 5 ∧
      ∃ p', Leaves chunkedTurn (c.p.withBuffer (ByteArray.new 16)) (.ok () p') := by
  have there : (after 6 (start (.ofReads halfChunked) (HttpRequest.new 0x11 false))).map
      (fun c => (c.spot, c.p.chunkSize)) = some (.chunks, 5) := by
    decide +kernel
  obtain ⟨c, after, same⟩ := Option.map_eq_some_iff.mp there
  obtain ⟨head, size⟩ := Prod.mk.inj same
  obtain ⟨-, -, -, p', leaves, -⟩ :=
    chunked_body_terminates (reach_after after) head (ByteArray.wf_new 16)
  exact ⟨c, reach_after after, size, p', leaves⟩

end Reyao.Http
