import Reyao.Http.Response
import Reyao.Http.RequestText

/-!
# The head of a message

What makes a first line and a header section acceptable, in terms of their text,
and what the machine does with a head that is acceptable and with one that is not.
The parse of a stream is what the machine makes of its bytes, for responses as for
requests (`parsed_of_settles`).
-/

namespace Reyao.Http

open Lib

/-! ## First lines -/

/-- The bytes before the first `d` and those after it. -/
def cutAt (d : UInt8) (s : Bytes) : Option (Bytes × Bytes) :=
  match s.dropWhile (· ≠ d) with
  | [] => none
  | _ :: after => some (s.takeWhile (· ≠ d), after)

/-- The three parts of a first line, which are separated by its first two blanks. -/
def lineParts (line : Bytes) : Option (Bytes × Bytes × Bytes) :=
  (cutAt 32 line).bind fun cut => (cutAt 32 cut.2).map fun cut' => (cut.1, cut'.1, cut'.2)

/-- A method, a target with a slash in it, and a version. -/
def isRequestLine (line : Bytes) : Bool :=
  match lineParts line with
  | none => false
  | some (_, target, version) => target.contains 47 && (HttpRequest.versionOf version).isSome

/-- A version, the number of a status, and a reason. -/
def isStatusLine (line : Bytes) : Bool :=
  match lineParts line with
  | none => false
  | some (version, code, _) =>
      (HttpRequest.versionOf version).isSome &&
        match stoi code with
        | .error _ => false
        | .ok n => (HttpStatus.ofCode n).isSome

/-- A version, a text that `std::stoi` refuses, and a reason. -/
def isUnreadableStatus (line : Bytes) : Bool :=
  match lineParts line with
  | none => false
  | some (version, code, _) => (HttpRequest.versionOf version).isSome && !(stoi code).isOk

theorem cutAt_none {d : UInt8} {s : Bytes} (uncut : s.dropWhile (· ≠ d) = []) :
    cutAt d s = none := by
  rw [cutAt, uncut]

theorem cutAt_some {d c : UInt8} {s after : Bytes} (cut : s.dropWhile (· ≠ d) = c :: after) :
    cutAt d s = some (s.takeWhile (· ≠ d), after) := by
  rw [cutAt, cut]

theorem contains_of_cut {d c : UInt8} {s after : Bytes} (cut : s.dropWhile (· ≠ d) = c :: after) :
    s.contains d = true := by
  rw [List.contains_iff_mem]
  by_contra absent
  rw [dropWhile_no_delimiter absent] at cut
  cases cut

theorem not_contains_of_uncut {d : UInt8} {s : Bytes} (uncut : s.dropWhile (· ≠ d) = []) :
    s.contains d = false := by
  refine Bool.eq_false_of_not_eq_true fun present => ?_
  rw [List.contains_iff_mem] at present
  rw [List.dropWhile_eq_nil_iff] at uncut
  exact absurd rfl (of_decide_eq_true (uncut d present))

/-- `HttpRequestParser::parseFirstLine` accepts the request lines, and never throws. -/
theorem HttpRequest.parseFirstLine_accepts (line : Bytes) (req : HttpRequest) :
    ∃ req', HttpRequest.parseFirstLine line req = .ok (isRequestLine line) req' := by
  rw [HttpRequest.parseFirstLine, isRequestLine, lineParts]
  cases first : line.dropWhile (· ≠ 32) with
  | nil =>
      rw [cutAt_none first]
      exact ⟨req, rfl⟩
  | cons blank rest =>
      rw [cutAt_some first, Option.bind_some]
      simp only
      cases second : rest.dropWhile (· ≠ 32) with
      | nil =>
          rw [cutAt_none second]
          exact ⟨_, rfl⟩
      | cons blank version =>
          rw [cutAt_some second]
          simp only [Option.map_some]
          cases known : HttpRequest.versionOf version with
          | none =>
              rw [Option.isSome_none, Bool.and_false]
              exact ⟨_, rfl⟩
          | some number =>
              rw [Option.isSome_some, Bool.and_true]
              cases slash : (rest.takeWhile (· ≠ 32)).dropWhile (· ≠ 47) with
              | nil =>
                  rw [not_contains_of_uncut slash]
                  exact ⟨_, rfl⟩
              | cons c path =>
                  rw [contains_of_cut slash]
                  exact ⟨_, rfl⟩

/-- What `HttpResponseParser::parseFirstLine` does with a line. -/
theorem HttpResponse.parseFirstLine_cases (line : Bytes) (rsp : HttpResponse) :
    (isUnreadableStatus line = true ∧ isStatusLine line = false ∧
      ∃ e rsp', HttpResponse.parseFirstLine line rsp = .error e rsp') ∨
    (isUnreadableStatus line = false ∧
      ∃ rsp', HttpResponse.parseFirstLine line rsp = .ok (isStatusLine line) rsp') := by
  rw [HttpResponse.parseFirstLine, isUnreadableStatus, isStatusLine, lineParts]
  cases first : line.dropWhile (· ≠ 32) with
  | nil =>
      rw [cutAt_none first]
      exact Or.inr ⟨rfl, rsp, rfl⟩
  | cons blank rest =>
      rw [cutAt_some first, Option.bind_some]
      simp only
      cases known : HttpRequest.versionOf (line.takeWhile (· ≠ 32)) with
      | none =>
          cases cutAt 32 rest with
          | none => exact Or.inr ⟨rfl, rsp, rfl⟩
          | some cut =>
              simp only [Option.map_some, known, Option.isSome_none, Bool.false_and]
              exact Or.inr ⟨trivial, rsp, rfl⟩
      | some number =>
          cases second : rest.dropWhile (· ≠ 32) with
          | nil =>
              rw [cutAt_none second]
              exact Or.inr ⟨rfl, _, rfl⟩
          | cons blank reason =>
              rw [cutAt_some second]
              simp only [Option.map_some, known, Option.isSome_some, Bool.true_and]
              cases code : stoi (rest.takeWhile (· ≠ 32)) with
              | error e => exact Or.inl ⟨rfl, rfl, e, _, rfl⟩
              | ok n =>
                  refine Or.inr ⟨rfl, ?_⟩
                  simp only
                  cases HttpStatus.ofCode n with
                  | none => exact ⟨_, rfl⟩
                  | some status => exact ⟨_, rfl⟩

/-! ## Header lines -/

/-- A line that says that the body is chunked. -/
def announcesChunks (line : Bytes) : Bool :=
  match readHeader line with
  | .field title value => isChunked title value
  | _ => false

/-- The header lines of a message, in one that is known to be chunked or not: each
has a name and a value, and a length that matters is a number. -/
def headersAccepted : Bool → List Bytes → Bool
  | _, [] => true
  | chunked, line :: lines =>
      match readHeader line with
      | .field title value =>
          (lengthAfter (chunked || isChunked title value) 0 title value).isOk &&
            headersAccepted (chunked || isChunked title value) lines
      | _ => false

/-- Lines with their line ends. -/
def joinLines (lines : List Bytes) : Bytes := lines.flatMap (· ++ kCRLF)

theorem joinLines_cons (line : Bytes) (lines : List Bytes) (rest : Bytes) :
    joinLines (line :: lines) ++ rest = line ++ kCRLF ++ (joinLines lines ++ rest) := by
  rw [joinLines, joinLines, List.flatMap_cons, List.append_assoc]

/-- A text without CR, as it stands before a line end. -/
def IsLine (line : Bytes) : Prop := (13 : UInt8) ∉ line

instance (line : Bytes) : Decidable (IsLine line) :=
  inferInstanceAs (Decidable ((13 : UInt8) ∉ line))

theorem readHeader_ne_ends {line : Bytes} (plain : IsLine line) (some_text : line ≠ []) :
    readHeader line ≠ .ends := by
  have inside : ¬((line ++ kCRLF).head? = some 13) := by
    intro head
    rw [List.head?_append_of_ne_nil _ some_text] at head
    exact plain (List.mem_of_head? head)
  rw [readHeader, if_neg inside]
  split <;> simp

theorem isOk_lengthAfter (chunked : Bool) (contentLen contentLen' : Nat) (title value : Bytes) :
    (lengthAfter chunked contentLen title value).isOk =
      (lengthAfter chunked contentLen' title value).isOk := by
  rw [lengthAfter, lengthAfter]
  split <;> rfl

section

variable {μ : Type} [HttpMessage μ] {rest left : Bytes} {msg : μ}
  {v : Verdict (Phase × μ) (Ended μ)}

/-- What follows a line and its end. -/
theorem drop_line (line rest : Bytes) :
    (line ++ kCRLF ++ rest).drop (line.length + 2) = rest :=
  List.drop_left' List.length_append

/-- An end of the parse that is no success. -/
def Refused (r : Ended μ) : Prop := r.outcome ≠ .ok true

/-- A line that refuses the message. -/
theorem settles_refused {phase : Phase} {line : Bytes} {r : Ended μ} (refused : Refused r)
    (move : (machine μ).step (phase, msg) (line ++ kCRLF ++ rest) =
      .stop r (line.length + 2)) :
    ∃ r left, Refused r ∧
      Settles (machine μ) (phase, msg) (line ++ kCRLF ++ rest) (.stopped r) left :=
  ⟨r, _, refused, .stop move⟩

/-- A header section that is accepted leads to the body, and one that is not ends
the parse. -/
theorem settles_headers {lines : List Bytes} (plain : ∀ line ∈ lines, IsLine line ∧ line ≠ [])
    (chunked : Bool) (len : Nat) (msg : μ) (rest : Bytes) :
    (headersAccepted chunked lines = true ∧ ∃ len' msg', ∀ v left,
      Settles (machine μ) (bodyPhase (chunked || lines.any announcesChunks) len', msg') rest v left →
        Settles (machine μ) (.headers chunked len, msg) (joinLines lines ++ (kCRLF ++ rest)) v left) ∨
    (headersAccepted chunked lines = false ∧ ∃ r left, Refused r ∧
      Settles (machine μ) (.headers chunked len, msg) (joinLines lines ++ (kCRLF ++ rest))
        (.stopped r) left) := by
  induction lines generalizing chunked len msg with
  | nil =>
      refine Or.inl ⟨rfl, len, msg, fun v left next => ?_⟩
      rw [List.any_nil, Bool.or_false] at next
      have step : (machine μ).step (.headers chunked len, msg) (kCRLF ++ rest) =
          .go (bodyPhase chunked len, msg) 2 := rfl
      exact .go step next
  | cons line lines ih =>
      obtain ⟨free, some_text⟩ := plain line List.mem_cons_self
      have later := fun chunked len msg =>
        ih (fun line member => plain line (List.mem_cons_of_mem _ member)) chunked len msg
      have step : (machine μ).step (.headers chunked len, msg)
          (line ++ kCRLF ++ (joinLines lines ++ (kCRLF ++ rest))) =
          afterHeader chunked len msg line (line.length + 2) :=
        step_headerLine (search_free free) ..
      rw [joinLines_cons, headersAccepted, List.any_cons, announcesChunks]
      rw [afterHeader] at step
      cases read : readHeader line with
      | ends => exact absurd read (readHeader_ne_ends free some_text)
      | bad =>
          rw [read] at step
          exact Or.inr ⟨rfl, settles_refused (by simp [Refused]) step⟩
      | throws e =>
          rw [read] at step
          exact Or.inr ⟨rfl, settles_refused (by simp [Refused]) step⟩
      | field title value =>
          rw [read] at step
          simp only at step ⊢
          rw [isOk_lengthAfter _ 0 len]
          cases length : lengthAfter (chunked || isChunked title value) len title value with
          | error e =>
              rw [length] at step
              exact Or.inr ⟨rfl, settles_refused (by simp [Refused]) step⟩
          | ok len' =>
              rw [length] at step
              have go : ∀ v left, Settles (machine μ) (.headers (chunked || isChunked title value) len',
                  HttpMessage.addHeader title value msg) (joinLines lines ++ (kCRLF ++ rest)) v left →
                  Settles (machine μ) (.headers chunked len, msg)
                    (line ++ kCRLF ++ (joinLines lines ++ (kCRLF ++ rest))) v left := by
                intro v left next
                refine .go step ?_
                rw [drop_line]
                exact next
              rcases later (chunked || isChunked title value) len'
                (HttpMessage.addHeader title value msg) with
                ⟨accepted, len'', msg', through⟩ | ⟨refused, r, left, final, settles⟩
              · refine Or.inl ⟨accepted, len'', msg',
                  fun v left next => go v left (through v left ?_)⟩
                rwa [Bool.or_assoc]
              · exact Or.inr ⟨refused, r, left, final, go _ _ settles⟩

/-- A first line that is refused ends the parse. -/
theorem settles_firstLine_refused {first : Bytes} (plain : IsLine first) (rest : Bytes)
    (refused : ∀ msg', HttpMessage.parseFirstLine first msg ≠ .ok true msg') :
    ∃ r left, Refused r ∧
      Settles (machine μ) (.firstLine, msg) (first ++ kCRLF ++ rest) (.stopped r) left := by
  have step : (machine μ).step (.firstLine, msg) (first ++ kCRLF ++ rest) =
      afterFirstLine msg first (first.length + 2) :=
    step_firstLine (search_free plain) ..
  rw [afterFirstLine] at step
  cases parsed : HttpMessage.parseFirstLine first msg with
  | error e msg' =>
      rw [parsed] at step
      exact settles_refused (by simp [Refused]) step
  | ok accepted msg' =>
      rw [parsed] at step
      cases accepted with
      | false => exact settles_refused (by simp [Refused]) step
      | true => exact absurd parsed (refused msg')

/-- A first line that is accepted leads to the headers. -/
theorem settles_firstLine {first : Bytes} (plain : IsLine first) {msg' : μ}
    (accepted : HttpMessage.parseFirstLine first msg = .ok true msg')
    (next : Settles (machine μ) (.headers false 0, msg') rest v left) :
    Settles (machine μ) (.firstLine, msg) (first ++ kCRLF ++ rest) v left := by
  have step : (machine μ).step (.firstLine, msg) (first ++ kCRLF ++ rest) =
      afterFirstLine msg first (first.length + 2) :=
    step_firstLine (search_free plain) ..
  rw [afterFirstLine, accepted] at step
  refine .go step ?_
  rw [drop_line]
  exact next

/-! ## The parse of a stream -/

/-- The parse of a stream is what the machine makes of its bytes. -/
theorem parsed_of_settles {reads : List (Read (HttpMessage.maxBufferSize μ))} {r : Ended μ}
    (settles : Settles (machine μ) (.firstLine, msg) (bytesOf reads) (.stopped r) left) :
    parsed (HttpParser.parseMessage (reads.length + 2) (.ofReads reads) { msg := msg }) =
      (r.outcome, r.msg) := by
  obtain ⟨v, left', rest, drive, answers, -⟩ := parseMessage_starts reads msg
  obtain ⟨rfl, -⟩ := drive.settles.unique settles
  exact parsed_of_answers answers

end

end Reyao.Http
