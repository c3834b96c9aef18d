import Reyao.Http.Returns

/-!
# How a head ends

`headEnd` follows the header lines of a message, whatever they are, to what comes of them:
the body begins, a line is refused, or an exception is thrown. A line that begins with CR
ends the headers early, and the lines behind it are then taken for the body.
`settles_headEnd` says that the machine does what `headEnd` says, `settles_requestEnd`
adds the first line of a request.
-/

namespace Reyao.Http

open Lib

/-- A text without a line end in it. -/
def OneLine (line : Bytes) : Prop := search kCRLF line = none

instance (line : Bytes) : Decidable (OneLine line) :=
  inferInstanceAs (Decidable (search kCRLF line = none))

/-- What comes of the header lines of a message. -/
inductive HeadEnd : Type
  | refused
  | throws (e : Fault)
  /-- The body begins, in front of it the lines that were not read. -/
  | body (chunked : Bool) (len : Nat) (before : Bytes)
  deriving DecidableEq

def headEnd : Bool → Nat → List Bytes → HeadEnd
  | chunked, len, [] => .body chunked len []
  | chunked, len, line :: lines =>
      match readHeader line with
      | .ends => .body chunked len (joinLines lines ++ kCRLF)
      | .bad => .refused
      | .throws e => .throws e
      | .field title value =>
          match lengthAfter (chunked || isChunked title value) len title value with
          | .error e => .throws e
          | .ok len' => headEnd (chunked || isChunked title value) len' lines

section

variable {μ : Type} [HttpMessage μ]

/-- The machine at `s`, with `q` to read, comes to the end of the head and meets `rest`. A
message that gets that far satisfies `I`. -/
def HeadEnd.Leads (I : μ → Prop) (s : Phase × μ) (q rest : Bytes) : HeadEnd → Prop
  | .refused => ∃ msg left, Settles (machine μ) s q (.stopped ⟨.ok false, msg⟩) left
  | .throws e => ∃ msg left, Settles (machine μ) s q (.stopped ⟨.error e, msg⟩) left
  | .body chunked len before => ∃ msg, I msg ∧ ∀ v left,
      Settles (machine μ) (bodyPhase chunked len, msg) (before ++ rest) v left ↔
        Settles (machine μ) s q v left

variable {I : μ → Prop} {s s' : Phase × μ} {q rest : Bytes} {e : HeadEnd}

/-- A move does not change where the head ends. -/
theorem HeadEnd.Leads.go {n : Nat} (step : (machine μ).step s q = .go s' n)
    (leads : e.Leads I s' (q.drop n) rest) : e.Leads I s q rest := by
  cases e with
  | refused =>
      obtain ⟨msg, left, settles⟩ := leads
      exact ⟨msg, left, .go step settles⟩
  | throws e =>
      obtain ⟨msg, left, settles⟩ := leads
      exact ⟨msg, left, .go step settles⟩
  | body chunked len before =>
      obtain ⟨msg, holds, through⟩ := leads
      exact ⟨msg, holds, fun v left => (through v left).trans (Settles.go_iff step)⟩

/-- The machine goes through the header lines as `headEnd` does. -/
theorem settles_headEnd (added : ∀ title value msg, I msg → I (HttpMessage.addHeader title value msg))
    {lines : List Bytes} (whole : ∀ line ∈ lines, OneLine line) (chunked : Bool) (len : Nat)
    {msg : μ} (start : I msg) (rest : Bytes) :
    (headEnd chunked len lines).Leads I (.headers chunked len, msg)
      (joinLines lines ++ (kCRLF ++ rest)) rest := by
  induction lines generalizing chunked len msg with
  | nil =>
      have step : (machine μ).step (.headers chunked len, msg) (kCRLF ++ rest) =
          .go (bodyPhase chunked len, msg) 2 := rfl
      exact ⟨msg, start, fun v left => Settles.go_iff step⟩
  | cons line lines ih =>
      have step : (machine μ).step (.headers chunked len, msg)
          (line ++ kCRLF ++ (joinLines lines ++ (kCRLF ++ rest))) =
          afterHeader chunked len msg line (line.length + 2) :=
        byLine_text (whole line List.mem_cons_self) _ _
      have later := fun chunked len msg (start : I msg) =>
        ih (fun line member => whole line (List.mem_cons_of_mem _ member)) chunked len start
      rw [joinLines_cons, headEnd]
      rw [afterHeader] at step
      cases read : readHeader line with
      | ends =>
          rw [read] at step
          refine ⟨msg, start, fun v left => ?_⟩
          rw [← Settles.go_iff step, drop_line, List.append_assoc]
      | bad =>
          rw [read] at step
          exact ⟨msg, _, .stop step⟩
      | throws e =>
          rw [read] at step
          exact ⟨msg, _, .stop step⟩
      | field title value =>
          rw [read] at step
          simp only at step ⊢
          cases length : lengthAfter (chunked || isChunked title value) len title value with
          | error e =>
              rw [length] at step
              exact ⟨msg, _, .stop step⟩
          | ok len' =>
              rw [length] at step
              refine HeadEnd.Leads.go step ?_
              rw [drop_line]
              exact later _ len' _ (added title value msg start)

end

/-! ## What the lines say -/

/-- The header lines of a message, in one that is known to be chunked or not, lead to one
that is refused, because it has no colon or but one byte behind it. -/
def headersRefused : Bool → List Bytes → Bool
  | _, [] => false
  | chunked, line :: lines =>
      match readHeader line with
      | .ends => false
      | .bad => true
      | .throws _ => false
      | .field title value =>
          (lengthAfter (chunked || isChunked title value) 0 title value).isOk &&
            headersRefused (chunked || isChunked title value) lines

theorem readHeader_ends_iff {line : Bytes} (some_text : line ≠ []) :
    readHeader line = .ends ↔ line.head? = some 13 := by
  have head : (line ++ kCRLF).head? = line.head? := List.head?_append_of_ne_nil _ some_text
  rw [readHeader, head]
  split
  · rename_i ends
    exact iff_of_true rfl ends
  · rename_i inside
    refine iff_of_false ?_ inside
    split <;> simp

/-- How the head ends, from the lines. -/
theorem headEnd_cases (chunked : Bool) (len : Nat) {lines : List Bytes}
    (some_text : ∀ line ∈ lines, line ≠ []) :
    (headEnd chunked len lines = .refused ∧ headersRefused chunked lines = true) ∨
    (∃ e, headEnd chunked len lines = .throws e ∧ headersRefused chunked lines = false ∧
      headersReadable chunked lines = false) ∨
    (∃ chunked' len' before, headEnd chunked len lines = .body chunked' len' before ∧
      headersRefused chunked lines = false ∧ headersReadable chunked lines = true ∧
      (before = [] ↔ ∀ line ∈ lines, line.head? ≠ some 13)) := by
  induction lines generalizing chunked len with
  | nil => exact Or.inr (Or.inr ⟨chunked, len, [], rfl, rfl, rfl, by simp⟩)
  | cons line lines ih =>
      have ends := readHeader_ends_iff (some_text line List.mem_cons_self)
      have later := fun chunked len =>
        ih chunked len fun line member => some_text line (List.mem_cons_of_mem _ member)
      rw [headEnd, headersRefused, headersReadable]
      cases read : readHeader line with
      | ends =>
          refine Or.inr (Or.inr ⟨_, _, _, rfl, rfl, rfl, iff_of_false ?_ ?_⟩)
          · simp [kCRLF]
          · exact fun inside => inside line List.mem_cons_self (ends.mp read)
      | bad => exact Or.inl ⟨rfl, rfl⟩
      | throws e => exact Or.inr (Or.inl ⟨e, rfl, rfl, rfl⟩)
      | field title value =>
          simp only
          rw [isOk_lengthAfter _ 0 len]
          cases length : lengthAfter (chunked || isChunked title value) len title value with
          | error e => exact Or.inr (Or.inl ⟨e, rfl, rfl, rfl⟩)
          | ok len' =>
              have inside : line.head? ≠ some 13 := by
                intro head
                rw [ends.mpr head] at read
                cases read
              have ok : (Except.ok len' : Except Fault Nat).isOk = true := rfl
              simp only [ok, Bool.true_and, List.forall_mem_cons, inside, ne_eq, not_false_eq_true,
                true_and]
              exact later (chunked || isChunked title value) len'

/-! ## Requests -/

/-- What comes of the head of a request. -/
def requestEnd (first : Bytes) (lines : List Bytes) : HeadEnd :=
  if isRequestLine first then headEnd false 0 lines else .refused

/-- The head of a request with what follows it. -/
def requestText (first : Bytes) (lines : List Bytes) (rest : Bytes) : Bytes :=
  first ++ kCRLF ++ (joinLines lines ++ (kCRLF ++ rest))

theorem settles_requestEnd {I : HttpRequest → Prop}
    (added : ∀ title value req, I req → I (HttpRequest.addHeader title value req))
    {first : Bytes} {lines : List Bytes} (first_line : OneLine first)
    (whole : ∀ line ∈ lines, OneLine line) {req : HttpRequest}
    (start : ∀ req', HttpRequest.parseFirstLine first req = .ok true req' → I req')
    (rest : Bytes) :
    (requestEnd first lines).Leads I (.firstLine, req) (requestText first lines rest) rest := by
  have step : (machine HttpRequest).step (.firstLine, req) (requestText first lines rest) =
      afterFirstLine req first (first.length + 2) :=
    step_firstLine first_line ..
  obtain ⟨req', parsed⟩ := HttpRequest.parseFirstLine_accepts first req
  have parsed' : HttpMessage.parseFirstLine first req = .ok (isRequestLine first) req' := parsed
  rw [afterFirstLine, parsed'] at step
  rw [requestEnd]
  cases accepted : isRequestLine first with
  | false =>
      rw [accepted] at step
      exact ⟨req', _, .stop step⟩
  | true =>
      rw [accepted] at step parsed
      refine HeadEnd.Leads.go step ?_
      rw [requestText, drop_line]
      exact settles_headEnd added whole false 0 (start req' parsed) rest

/-- A body of fixed length is what follows, as soon as all of it is there. -/
theorem settles_fixedBody (len : Nat) {req : HttpRequest} (fresh : req.body = []) (q : Bytes) :
    (len ≤ q.length ∧ Settles (machine HttpRequest) (.fixedBody len, req) q
      (.stopped ⟨.ok true, { req with body := q.take len }⟩) (q.drop len)) ∨
    (q.length < len ∧ Settles (machine HttpRequest) (.fixedBody len, req) q
      (.paused (.fixedBody len, req)) q) := by
  have step : (machine HttpRequest).step (.fixedBody len, req) q =
      if len = 0 then .stop ⟨.ok true, req⟩ 0
      else if len ≤ q.length then
        .stop ⟨.ok true, { req with body := q.take len }⟩ len
      else .wait := rfl
  by_cases nothing : len = 0
  · rw [if_pos nothing] at step
    have same : { req with body := q.take len } = req := by
      rw [nothing, List.take_zero, ← fresh]
    refine Or.inl ⟨by omega, ?_⟩
    rw [same, nothing]
    rw [nothing] at step
    exact .stop step
  · rw [if_neg nothing] at step
    by_cases enough : len ≤ q.length
    · rw [if_pos enough] at step
      exact Or.inl ⟨enough, .stop step⟩
    · rw [if_neg enough] at step
      exact Or.inr ⟨not_le.mp enough, .wait step⟩

/-- What a parse answers is what the machine ends with. -/
theorem parsed_settled {reads : List (Read 4096)} {req : HttpRequest}
    {v : Verdict (Phase × HttpRequest) (Ended HttpRequest)} {left : Bytes}
    (settles : Settles (machine HttpRequest) (.firstLine, req) (bytesOf reads) v left) :
    parsed (parseRequest (.ofReads reads) req) = match v with
      | .paused s => (.ok false, s.2)
      | .stopped r => (r.outcome, r.msg) := by
  obtain ⟨v', left', rest, drive, answers, -⟩ := parseRequest_drives reads req
  obtain ⟨rfl, -⟩ := drive.settles.unique settles
  have result := parsed_of_answers answers
  cases v' with
  | paused s => exact result
  | stopped r => exact result

/-- A request is accepted when the machine stops with it. -/
theorem parsed_true_iff {reads : List (Read 4096)} {req r : HttpRequest} :
    parsed (parseRequest (.ofReads reads) req) = (.ok true, r) ↔ ∃ left,
      Settles (machine HttpRequest) (.firstLine, req) (bytesOf reads) (.stopped ⟨.ok true, r⟩)
        left := by
  constructor
  · intro accepted
    obtain ⟨v, left, rest, drive, answers, -⟩ := parseRequest_drives reads req
    have settles := drive.settles
    rw [parsed_settled settles] at accepted
    rcases v with s | ⟨outcome, msg⟩
    · cases accepted
    · cases accepted
      exact ⟨_, settles⟩
  · rintro ⟨left, settles⟩
    exact parsed_settled settles

end Reyao.Http
