import Reyao.Http.Parser
import Reyao.Lib.Resumable

/-!
# HTTP messages as a machine over the bytes of a stream

`Phase` says where in a message the input stands, `advance` what the bytes there
amount to. Every move is decided by the bytes it takes, so `machine` is a machine
in the sense of `Lib.Machine`. It knows nothing of buffers and reads; the next
module shows that the parsers run it.
-/

namespace Reyao.Http

open Lib

/-- Where in a message the input stands. -/
inductive Phase : Type
  | firstLine
  | headers (chunked : Bool) (contentLen : Nat)
  | fixedBody (len : Nat)
  | chunkHead (body : Bytes)
  | chunkData (size : Nat) (body : Bytes)
  deriving DecidableEq

/-- How a parse ends: the answer or the exception, and the message as it is then. -/
structure Ended (μ : Type) : Type where
  outcome : Except Fault Bool
  msg : μ

/-- What a header line is. -/
inductive HeaderLine : Type
  | ends
  | field (title value : Bytes)
  | bad
  | throws (e : Fault)
  deriving DecidableEq

def readHeader (line : Bytes) : HeaderLine :=
  if (line ++ kCRLF).head? = some 13 then .ends
  else match line.dropWhile (· ≠ 58) with
    | [] => .bad
    | [_] => .throws (.lengthError "basic_string::_M_create")
    | [_, _] => .bad
    | _ :: _ :: value => .field (line.takeWhile (· ≠ 58)) value

/-- A header announces a chunked body. -/
def isChunked (title value : Bytes) : Bool :=
  eqIgnoreCase title (ascii "transfer-encoding") && eqIgnoreCase value (ascii "chunked")

/-- The content length after a header, in a message that is chunked or not. -/
def lengthAfter (chunked : Bool) (contentLen : Nat) (title value : Bytes) : Except Fault Nat :=
  if !chunked && eqIgnoreCase title (ascii "content-length") then (stoi value).map toSize
  else .ok contentLen

/-- What follows the headers. -/
def bodyPhase (chunked : Bool) (contentLen : Nat) : Phase :=
  if chunked then .chunkHead [] else .fixedBody contentLen

/-- A move that takes a line. -/
def byLine {S R : Type} (q : Bytes) (move : Bytes → Nat → Move S R) : Move S R :=
  match search kCRLF q with
  | none => .wait
  | some n => move (q.take n) (n + 2)

section

variable {μ : Type} [HttpMessage μ]

/-- The line of a message that is first. -/
def afterFirstLine (msg : μ) (line : Bytes) (n : Nat) : Move (Phase × μ) (Ended μ) :=
  match HttpMessage.parseFirstLine line msg with
  | .ok true msg => .go (.headers false 0, msg) n
  | .ok false msg => .stop ⟨.ok false, msg⟩ n
  | .error e msg => .stop ⟨.error e, msg⟩ n

/-- A line of the header section. -/
def afterHeader (chunked : Bool) (contentLen : Nat) (msg : μ) (line : Bytes) (n : Nat) :
    Move (Phase × μ) (Ended μ) :=
  match readHeader line with
  | .ends => .go (bodyPhase chunked contentLen, msg) n
  | .bad => .stop ⟨.ok false, msg⟩ n
  | .throws e => .stop ⟨.error e, msg⟩ n
  | .field title value =>
      match lengthAfter (chunked || isChunked title value) contentLen title value with
      | .error e => .stop ⟨.error e, msg⟩ n
      | .ok len =>
          .go (.headers (chunked || isChunked title value) len,
            HttpMessage.addHeader title value msg) n

/-- The size line of a chunk. -/
def afterChunkHead (body : Bytes) (msg : μ) (line : Bytes) (n : Nat) :
    Move (Phase × μ) (Ended μ) :=
  let size := toSize (HttpParser.HexToDec line)
  if size = 2 ^ 64 - 1 then .stop ⟨.ok false, msg⟩ n
  else if size = 0 then .stop ⟨.ok true, HttpMessage.setBody body msg⟩ n
  else .go (.chunkData size body, msg) n

/-- What the bytes at hand amount to. -/
def advance : Phase × μ → Bytes → Move (Phase × μ) (Ended μ)
  | (.firstLine, msg), q => byLine q (afterFirstLine msg)
  | (.headers chunked contentLen, msg), q => byLine q (afterHeader chunked contentLen msg)
  | (.fixedBody len, msg), q =>
      if len = 0 then .stop ⟨.ok true, msg⟩ 0
      else if len ≤ q.length then .stop ⟨.ok true, HttpMessage.setBody (q.take len) msg⟩ len
      else .wait
  | (.chunkHead body, msg), q => byLine q (afterChunkHead body msg)
  | (.chunkData size body, msg), q =>
      let n := (size + 2) % 2 ^ 64
      if n ≤ q.length then .go (.chunkHead (body ++ q.take n), msg) n else .wait

end

/-! ## Moves are decided by the bytes they take -/

section

variable {S R : Type} {q : Bytes} {move : Bytes → Nat → Move S R}

theorem byLine_append (moves : byLine q move ≠ .wait) (more : Bytes) :
    byLine (q ++ more) move = byLine q move := by
  rw [byLine] at moves ⊢
  cases found : search kCRLF q with
  | none =>
      rw [found] at moves
      exact absurd rfl moves
  | some n =>
      have inside := search_le found
      rw [search_append found (by decide) more, byLine, found]
      simp only
      rw [List.take_append_of_le_length (by omega)]

/-- A move that takes its line takes bytes that are there, two at least. -/
theorem byLine_cases (q : Bytes) (move : Bytes → Nat → Move S R) :
    (search kCRLF q = none ∧ byLine q move = .wait) ∨
      ∃ n, search kCRLF q = some n ∧ n + 2 ≤ q.length ∧
        byLine q move = move (q.take n) (n + 2) := by
  rw [byLine]
  cases found : search kCRLF q with
  | none => exact Or.inl ⟨rfl, rfl⟩
  | some n => exact Or.inr ⟨n, rfl, search_le found, rfl⟩

end

/-- The number of bytes a move takes. -/
def taken {S R : Type} : Move S R → Nat
  | .wait => 0
  | .go _ n => n
  | .stop _ n => n

section

variable {μ : Type} [HttpMessage μ]

theorem taken_afterFirstLine (msg : μ) (line : Bytes) (n : Nat) :
    taken (afterFirstLine msg line n) = n := by
  rw [afterFirstLine]
  split <;> rfl

theorem taken_afterHeader (chunked : Bool) (contentLen : Nat) (msg : μ) (line : Bytes) (n : Nat) :
    taken (afterHeader chunked contentLen msg line n) = n := by
  rw [afterHeader]
  split
  · rfl
  · rfl
  · rfl
  · split <;> rfl

theorem taken_afterChunkHead (body : Bytes) (msg : μ) (line : Bytes) (n : Nat) :
    taken (afterChunkHead body msg line n) = n := by
  simp only [afterChunkHead]
  split
  · rfl
  · split <;> rfl

theorem taken_byLine_le {S R : Type} {q : Bytes} {move : Bytes → Nat → Move S R}
    (exactly : ∀ line n, taken (move line n) = n) : taken (byLine q move) ≤ q.length := by
  rcases byLine_cases q move with ⟨-, waits⟩ | ⟨n, -, inside, moved⟩
  · rw [waits]
    exact Nat.zero_le _
  · rw [moved, exactly]
    exact inside

theorem taken_advance_le (s : Phase × μ) (q : Bytes) : taken (advance s q) ≤ q.length := by
  obtain ⟨phase, msg⟩ := s
  cases phase with
  | firstLine => exact taken_byLine_le (taken_afterFirstLine msg)
  | headers chunked contentLen => exact taken_byLine_le (taken_afterHeader chunked contentLen msg)
  | fixedBody len =>
      rw [advance]
      split
      · exact Nat.zero_le _
      · split
        · assumption
        · exact Nat.zero_le _
  | chunkHead body => exact taken_byLine_le (taken_afterChunkHead body msg)
  | chunkData size body =>
      simp only [advance]
      split
      · assumption
      · exact Nat.zero_le _

theorem advance_append {s : Phase × μ} {q : Bytes} (moves : advance s q ≠ .wait) (more : Bytes) :
    advance s (q ++ more) = advance s q := by
  obtain ⟨phase, msg⟩ := s
  cases phase with
  | firstLine => exact byLine_append moves more
  | headers chunked contentLen => exact byLine_append moves more
  | fixedBody len =>
      simp only [advance] at moves ⊢
      by_cases none_due : len = 0
      · rw [if_pos none_due, if_pos none_due]
      · rw [if_neg none_due] at moves ⊢
        rw [if_neg none_due]
        by_cases enough : len ≤ q.length
        · rw [if_pos enough, if_pos (by rw [List.length_append]; omega),
            List.take_append_of_le_length enough]
        · rw [if_neg enough] at moves
          exact absurd rfl moves
  | chunkHead body => exact byLine_append moves more
  | chunkData size body =>
      simp only [advance] at moves ⊢
      by_cases enough : (size + 2) % 2 ^ 64 ≤ q.length
      · rw [if_pos enough, if_pos (by rw [List.length_append]; omega),
          List.take_append_of_le_length enough]
      · rw [if_neg enough] at moves
        exact absurd rfl moves

/-- The machine that reads messages of type `μ`. -/
def machine (μ : Type) [HttpMessage μ] : Machine UInt8 (Phase × μ) (Ended μ) where
  step := advance
  stable := advance_append
  go_le {s s' q n} moved := by
    have bound := taken_advance_le s q
    rwa [moved] at bound
  stop_le {s q r n} moved := by
    have bound := taken_advance_le s q
    rwa [moved] at bound

end

end Reyao.Http
