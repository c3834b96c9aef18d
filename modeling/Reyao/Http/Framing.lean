import Reyao.Http.HeadEnd
import Reyao.Http.HeaderLine

/-!
# Framing by Content-Length

A request whose head has one Content-Length header and no chunks. `LengthHead` is such a
head in its parts, `Framed` what its length should do: frame the body when it is a numeral,
and refuse the request when it is none. `parseHeader` hands the text two bytes behind the
colon to `std::stoi`, which throws on what is no number, reads a number off the front of
what is one in part, and takes a sign; so the heads that are framed are those of
`LengthHead.Sound`.
-/

namespace Reyao.Http

open Lib

/-! ## Numerals -/

/-- A string of decimal digits, which is not empty. -/
def Digits (s : Bytes) : Prop := s ≠ [] ∧ ∀ c ∈ s, isdigit c = true

instance (s : Bytes) : Decidable (Digits s) :=
  inferInstanceAs (Decidable (s ≠ [] ∧ ∀ c ∈ s, isdigit c = true))

/-- A numeral, of a number below the bound. -/
def Numeral (bound : Nat) (s : Bytes) : Prop := Digits s ∧ decimalValue s < bound

instance (bound : Nat) (s : Bytes) : Decidable (Numeral bound s) :=
  inferInstanceAs (Decidable (Digits s ∧ decimalValue s < bound))

theorem decimalValue_cons (c : UInt8) (s : Bytes) :
    decimalValue (c :: s) = (c.toNat - 48) * 10 ^ s.length + decimalValue s := by
  have from_acc : ∀ acc, s.foldl (fun acc c => acc * 10 + (c.toNat - 48)) acc =
      acc * 10 ^ s.length + decimalValue s := by
    induction s with
    | nil =>
        intro acc
        simp [decimalValue]
    | cons d s ih =>
        intro acc
        rw [decimalValue, List.foldl_cons, List.foldl_cons, ih, ih, List.length_cons, pow_succ]
        ring
  rw [decimalValue, List.foldl_cons, from_acc]
  simp

/-- The first digit does not count just when it is a zero. -/
theorem decimalValue_cons_eq_iff {c : UInt8} (digit : isdigit c = true) (s : Bytes) :
    decimalValue s = decimalValue (c :: s) ↔ c = 48 := by
  rw [decimalValue_cons]
  constructor
  · intro same
    have nothing : (c.toNat - 48) * 10 ^ s.length = 0 := by omega
    have zero : c.toNat - 48 = 0 :=
      (Nat.mul_eq_zero.mp nothing).resolve_right (pow_pos (by decide) _).ne'
    simp only [isdigit, Bool.and_eq_true, decide_eq_true_eq, UInt8.le_iff_toNat_le] at digit
    have low : (48 : UInt8).toNat = 48 := rfl
    exact UInt8.toNat_inj.mp (by omega)
  · rintro rfl
    simp

theorem space_of_blank {c : UInt8} (blank : isBlank c = true) :
    isspace c = true ∧ isdigit c = false := by
  rw [isBlank, Bool.or_eq_true, beq_iff_eq, beq_iff_eq] at blank
  rcases blank with rfl | rfl
  · exact ⟨rfl, rfl⟩
  · exact ⟨rfl, rfl⟩

/-! ## Heads with a length -/

/-- The head of a request with one Content-Length header, and no header that announces
chunks. Names are compared as the parser compares them. -/
structure LengthHead : Type where
  first : Bytes
  before : List Bytes
  name : Bytes
  pre : Bytes
  value : Bytes
  post : Bytes
  after : List Bytes
  first_line : OneLine first
  header_lines : ∀ line ∈ before ++ after, OneLine line ∧ line ≠ []
  field : FieldLine name pre value post
  is_length : eqIgnoreCase name (ascii "content-length") = true
  single : ∀ line ∈ before ++ after,
    eqIgnoreCase (line.takeWhile (· ≠ 58)) (ascii "content-length") = false
  unchunked : ∀ line ∈ before ++ after, announcesChunks line = false

namespace LengthHead

/-- The header lines. -/
def lines (h : LengthHead) : List Bytes :=
  h.before ++ fieldText h.name h.pre h.value h.post :: h.after

/-- The head and what follows it. -/
def text (h : LengthHead) (rest : Bytes) : Bytes := requestText h.first h.lines rest

end LengthHead

/-- `parseRequest` returns false after `head`, whatever else is sent: it reads no more. -/
def Refuses (head : Bytes) (req : HttpRequest) : Prop :=
  ∀ reads more : List (Read 4096), bytesOf reads = head → ∃ p unread,
    parseRequest (.ofReads (reads ++ more)) req = .ok (false, .ofReads (unread ++ more)) p

/-- What a Content-Length should do: a request is accepted only if its length is a numeral,
and has the bytes after the blank line for its body, as many as the length says; a request
with a length that is no numeral below the bound is refused. -/
structure LengthHead.Framed (h : LengthHead) (bound : Nat) (req : HttpRequest) : Prop where
  accepts : ∀ (rest : Bytes) (reads : List (Read 4096)) (req' : HttpRequest),
    bytesOf reads = h.text rest → parsed (parseRequest (.ofReads reads) req) = (.ok true, req') →
      Digits h.value ∧ decimalValue h.value ≤ rest.length ∧
        req'.body = rest.take (decimalValue h.value)
  refuses : ¬Numeral bound h.value → Refuses (h.text []) req

/-- The heads whose length does what it should. -/
def LengthHead.Sound (h : LengthHead) (bound : Nat) : Prop :=
  isRequestLine h.first = false ∨ headersRefused false h.lines = true ∨
    Numeral bound h.value ∧
      (headersReadable false h.lines = false ∨ decimalValue h.value = 0 ∨
        (∀ line ∈ h.lines, line.head? ≠ some 13) ∧ (h.pre ≠ [] ∨ h.value.head? = some 48))

/-! ## Refusal -/

/-- A head is refused just when its own bytes stop the machine with false. -/
theorem refuses_iff (head : Bytes) (req : HttpRequest) :
    Refuses head req ↔ ∃ req' left,
      Settles (machine HttpRequest) (.firstLine, req) head (.stopped ⟨.ok false, req'⟩) left := by
  constructor
  · intro refuses
    obtain ⟨reads, carried⟩ := exists_reads (show 0 < 4096 by decide) head
    let extra : Read 4096 := ⟨[0], by decide, by decide⟩
    obtain ⟨p, unread, result⟩ := refuses reads [extra] carried
    obtain ⟨v, left, rest, drive, answers, -⟩ := parseRequest_drives (reads ++ [extra]) req
    rw [result] at answers
    have tail : ∀ {accepted : Bool} {p' : HttpParser HttpRequest},
        (EStateM.Result.ok (false, .ofReads (unread ++ [extra])) p :
          EStateM.Result Fault _ (Bool × SocketStream 4096)) = .ok (accepted, .ofReads rest) p' →
        accepted = false ∧ rest = unread ++ [extra] := by
      intro accepted p' same
      injection same with pair _
      rw [Prod.mk.injEq] at pair
      exact ⟨pair.1.symm, (congrArg SocketStream.incoming pair.2).symm⟩
    rcases v with s | ⟨accepted | accepted, req'⟩
    · obtain ⟨p', same, -⟩ := answers
      have all := drive.paused_all
      rw [(tail same).2] at all
      simp at all
    · obtain ⟨p', thrown, -⟩ := answers
      cases thrown
    · obtain ⟨p', same, -⟩ := answers
      obtain ⟨rfl, rfl⟩ := tail same
      obtain ⟨front, chunks, settles⟩ := drive.consumed
      rw [List.map_append, List.map_append, ← List.append_assoc] at chunks
      have front_eq : reads.map Read.data = front ++ unread.map Read.data :=
        List.append_cancel_right chunks
      have whole : head = front.flatten ++ (unread.map Read.data).flatten := by
        rw [← carried, ← List.flatten_append, ← front_eq]
        rfl
      rw [whole]
      exact ⟨req', _, settles.stopped_append _⟩
  · rintro ⟨req', left, settles⟩ reads more carried
    obtain ⟨v, left', rest, drive, answers, -⟩ := parseRequest_drives (reads ++ more) req
    rw [List.map_append] at drive
    have enough : Settles (machine HttpRequest) (.firstLine, req)
        ([] ++ (reads.map Read.data).flatten) (.stopped ⟨.ok false, req'⟩) left := by
      rw [List.nil_append, show (reads.map Read.data).flatten = bytesOf reads from rfl, carried]
      exact settles
    obtain ⟨rfl, unread, tail⟩ := drive.within enough
    obtain ⟨p, result, -⟩ := answers
    obtain ⟨unread', more', rfl, -, same⟩ := List.map_eq_append_iff.mp tail
    rw [List.map_injective_iff.mpr Read.data_injective same] at result
    exact ⟨p, unread', result⟩

/-! ## The length a head sets -/

theorem title_of_readHeader {line title value : Bytes} (read : readHeader line = .field title value) :
    title = line.takeWhile (· ≠ 58) := by
  obtain ⟨c, rfl, free, -⟩ := readHeader_parts read
  exact (takeWhile_delimiter free _).symm

section

variable {line : Bytes} {lines later : List Bytes} {chunked chunked' : Bool} {len len' : Nat}
  {before : Bytes}

/-- A line that leads to the body ends the head or is a field. -/
theorem headEnd_line (ends : headEnd chunked len (line :: lines) = .body chunked' len' before) :
    (readHeader line = .ends ∧ chunked' = chunked ∧ len' = len ∧ before ≠ []) ∨
    ∃ value len'', readHeader line = .field (line.takeWhile (· ≠ 58)) value ∧
      lengthAfter (chunked || announcesChunks line) len (line.takeWhile (· ≠ 58)) value =
        .ok len'' ∧
      headEnd (chunked || announcesChunks line) len'' lines = .body chunked' len' before := by
  rw [headEnd] at ends
  rw [announcesChunks]
  cases read : readHeader line with
  | ends =>
      rw [read] at ends
      cases ends
      exact Or.inl ⟨rfl, rfl, rfl, by simp [kCRLF]⟩
  | bad =>
      rw [read] at ends
      cases ends
  | throws e =>
      rw [read] at ends
      cases ends
  | field title value =>
      rw [read] at ends
      simp only at ends ⊢
      cases length : lengthAfter (chunked || isChunked title value) len title value with
      | error e =>
          rw [length] at ends
          cases ends
      | ok len'' =>
          rw [length] at ends
          rw [← title_of_readHeader read]
          exact Or.inr ⟨value, len'', rfl, length, ends⟩

/-- Lines that say nothing about the body lead to the next line, or end the head early. -/
theorem headEnd_skip
    (other : ∀ line ∈ lines,
      eqIgnoreCase (line.takeWhile (· ≠ 58)) (ascii "content-length") = false)
    (unchunked : ∀ line ∈ lines, announcesChunks line = false)
    (ends : headEnd chunked len (lines ++ later) = .body chunked' len' before) :
    headEnd chunked len later = .body chunked' len' before ∨
      chunked' = chunked ∧ len' = len ∧ before ≠ [] := by
  induction lines with
  | nil => exact Or.inl ends
  | cons line lines ih =>
      obtain ⟨no_length, other⟩ := List.forall_mem_cons.mp other
      obtain ⟨plain, unchunked⟩ := List.forall_mem_cons.mp unchunked
      rcases headEnd_line ends with ⟨-, early⟩ | ⟨value, len'', -, length, next⟩
      · exact Or.inr early
      · rw [lengthAfter, no_length, Bool.and_false] at length
        cases length
        rw [plain, Bool.or_false] at next
        exact ih other unchunked next

/-- Lines that say nothing about the body leave the framing as it is. -/
theorem headEnd_plain
    (other : ∀ line ∈ lines,
      eqIgnoreCase (line.takeWhile (· ≠ 58)) (ascii "content-length") = false)
    (unchunked : ∀ line ∈ lines, announcesChunks line = false)
    (ends : headEnd chunked len lines = .body chunked' len' before) :
    chunked' = chunked ∧ len' = len := by
  rw [← List.append_nil lines] at ends
  rcases headEnd_skip other unchunked ends with through | ⟨chunks, length, -⟩
  · cases through
    exact ⟨rfl, rfl⟩
  · exact ⟨chunks, length⟩

end

namespace LengthHead

variable {h : LengthHead} {chunked : Bool} {len : Nat} {before : Bytes}

theorem takeWhile_name (h : LengthHead) :
    (fieldText h.name h.pre h.value h.post).takeWhile (· ≠ 58) = h.name :=
  takeWhile_delimiter (fun member => (h.field.name_free 58 member).1 rfl) _

/-- A head that leads to the body has the length it names, or was ended before that. -/
theorem body_cases (ends : headEnd false 0 h.lines = .body chunked len before) :
    chunked = false ∧ ((len = 0 ∧ before ≠ []) ∨
      ∃ stored n, readHeader (fieldText h.name h.pre h.value h.post) = .field h.name stored ∧
        stoi stored = .ok n ∧ len = toSize n) := by
  obtain ⟨single, single'⟩ := List.forall_mem_append.mp h.single
  obtain ⟨unchunked, unchunked'⟩ := List.forall_mem_append.mp h.unchunked
  rcases headEnd_skip single unchunked ends with next | ⟨chunks, length, early⟩
  · rcases headEnd_line next with ⟨ends, chunks, length, early⟩ | ⟨stored, len', read, length, next⟩
    · exact ⟨chunks, Or.inl ⟨length, early⟩⟩
    · rw [h.takeWhile_name] at read length
      have plain : announcesChunks (fieldText h.name h.pre h.value h.post) = false := by
        rw [announcesChunks, read]
        exact isChunked_of_length h.is_length stored
      rw [plain] at length next
      obtain ⟨chunks, same⟩ := headEnd_plain single' unchunked' next
      rw [lengthAfter, h.is_length] at length
      refine ⟨chunks, Or.inr ⟨stored, ?_⟩⟩
      cases number : stoi stored with
      | error e =>
          rw [number] at length
          cases length
      | ok n =>
          rw [number] at length
          injection length with length
          exact ⟨n, read, rfl, same.trans length.symm⟩
  · exact ⟨chunks, Or.inl ⟨length, early⟩⟩

/-- What is read for a numeral: the number, if something stands between the colon and it;
without that, the number without its first digit. -/
theorem toSize_stored (digits : Digits h.value) {stored : Bytes} {n : Int}
    (read : readHeader (fieldText h.name h.pre h.value h.post) = .field h.name stored)
    (number : stoi stored = .ok n) :
    (toSize n = decimalValue h.value ↔ h.pre ≠ [] ∨ h.value.head? = some 48) ∧
      (decimalValue h.value = 0 → toSize n = 0) := by
  obtain ⟨-, -, c, whole⟩ := (h.field.readHeader_eq_field h.name stored).mp read
  have stops : ∀ d ∈ h.post.head?, isdigit d = false := fun d head =>
    (space_of_blank (h.field.post_blank d (List.mem_of_head? head))).2
  -- the number behind white space
  have value_of : ∀ {pre ds : Bytes}, (∀ d ∈ pre, isspace d = true) →
      (∀ d ∈ ds, isdigit d = true) → ds ≠ [] → stored = pre ++ (ds ++ h.post) →
      toSize n = decimalValue ds := by
    intro pre ds spaces all some_digit same
    rw [same, stoi_digits spaces all some_digit stops] at number
    split at number
    · rename_i small
      injection number with number
      rw [← number]
      exact toSize_natCast (by omega)
    · cases number
  rcases pre_eq : h.pre with _ | ⟨blank, pre⟩
  · obtain ⟨d, ds, value_eq⟩ := List.exists_cons_of_ne_nil digits.1
    rw [pre_eq, value_eq, List.nil_append, List.cons_append, List.cons.injEq] at whole
    have all := digits.2
    rw [value_eq, List.forall_mem_cons] at all
    have some_digit : ds ≠ [] := by
      rintro rfl
      rw [← whole.2, List.nil_append, stoi_space fun d member =>
        (space_of_blank (h.field.post_blank d member)).1] at number
      cases number
    have no_space : ∀ d ∈ ([] : Bytes), isspace d = true := by simp
    rw [value_of no_space all.2 some_digit whole.2.symm, value_eq,
      decimalValue_cons_eq_iff all.1]
    refine ⟨by simp, fun zero => ?_⟩
    rw [decimalValue_cons] at zero
    omega
  · rw [pre_eq, List.append_assoc, List.cons_append, List.cons.injEq] at whole
    have blanks := h.field.pre_blank
    rw [pre_eq, List.forall_mem_cons] at blanks
    have spaces : ∀ d ∈ pre, isspace d = true := fun d member =>
      (space_of_blank (blanks.2 d member)).1
    have same := value_of spaces digits.2 digits.1 whole.2.symm
    exact ⟨iff_of_true same (Or.inl (List.cons_ne_nil _ _)), fun zero => same.trans zero⟩

/-! ## Heads that are framed -/

variable {bound : Nat} {req : HttpRequest}

theorem field_free (h : LengthHead) :
    (13 : UInt8) ∉ fieldText h.name h.pre h.value h.post := by
  intro member
  simp only [fieldText, List.mem_append, List.mem_cons] at member
  rcases member with name | colon | (pre | value) | post
  · exact (h.field.name_free 13 name).2.1 rfl
  · exact absurd colon (by decide)
  · exact absurd (h.field.pre_blank 13 pre) (by decide)
  · exact (h.field.value_free 13 value).1 rfl
  · exact absurd (h.field.post_blank 13 post) (by decide)

theorem lines_whole (h : LengthHead) : ∀ line ∈ h.lines, OneLine line ∧ line ≠ [] := by
  intro line member
  rw [lines, List.mem_append, List.mem_cons] at member
  rcases member with before | rfl | after
  · exact h.header_lines line (List.mem_append_left _ before)
  · exact ⟨search_free h.field_free, by simp [fieldText]⟩
  · exact h.header_lines line (List.mem_append_right _ after)

/-- The head leads where `requestEnd` says, with the body still empty. -/
theorem leads (h : LengthHead) (fresh : req.body = []) (rest : Bytes) :
    (requestEnd h.first h.lines).Leads (fun req => req.body = []) (.firstLine, req) (h.text rest)
      rest := by
  refine settles_requestEnd (fun _ _ _ empty => empty) h.first_line
    (fun line member => (h.lines_whole line member).1) (fun req' accepted => ?_) rest
  obtain ⟨method, version, t, number, -, -, -, rfl⟩ := withLine_of_accepted accepted
  exact fresh

/-- A head that is refused is framed. -/
theorem framed_of_refused (fresh : req.body = []) (refused : requestEnd h.first h.lines = .refused) :
    h.Framed bound req := by
  have leads := h.leads fresh
  rw [refused] at leads
  constructor
  · intro rest reads req' carried accepted
    obtain ⟨msg, left, settles⟩ := leads rest
    rw [← carried] at settles
    rw [parsed_settled settles] at accepted
    cases accepted
  · intro _
    exact (refuses_iff _ _).mpr (leads [])

/-- A head that throws is framed if its length is a numeral. -/
theorem framed_iff_of_throws (fresh : req.body = []) {e : Fault}
    (throws : requestEnd h.first h.lines = .throws e) :
    h.Framed bound req ↔ Numeral bound h.value := by
  have leads := h.leads fresh
  rw [throws] at leads
  constructor
  · intro framed
    by_contra other
    obtain ⟨req', left, settles⟩ := (refuses_iff _ _).mp (framed.refuses other)
    obtain ⟨msg, left', settles'⟩ := leads []
    cases (settles.unique settles').1
  · intro numeral
    refine ⟨fun rest reads req' carried accepted => ?_, fun other => absurd numeral other⟩
    obtain ⟨msg, left, settles⟩ := leads rest
    rw [← carried] at settles
    rw [parsed_settled settles] at accepted
    cases accepted

/-- A head that leads to a body is framed if its length is a numeral and the body is what
the numeral says. -/
theorem framed_iff_of_body (fresh : req.body = [])
    (ends : requestEnd h.first h.lines = .body false len before) :
    h.Framed bound req ↔ Numeral bound h.value ∧
      len = decimalValue h.value ∧ (before = [] ∨ len = 0) := by
  have leads := h.leads fresh
  rw [ends] at leads
  -- what becomes of the request, by what follows the head
  have outcome : ∀ rest, ∃ req', req'.body = (before ++ rest).take len ∧
      (len ≤ (before ++ rest).length ∧ (∃ left, Settles (machine HttpRequest) (.firstLine, req)
          (h.text rest) (.stopped ⟨.ok true, req'⟩) left) ∨
        (before ++ rest).length < len ∧ (∃ s left, Settles (machine HttpRequest) (.firstLine, req)
          (h.text rest) (.paused s) left)) := by
    intro rest
    obtain ⟨msg, empty, through⟩ := leads rest
    refine ⟨{ msg with body := (before ++ rest).take len }, rfl, ?_⟩
    rcases settles_fixedBody len empty (before ++ rest) with
      ⟨enough, settles⟩ | ⟨short, settles⟩
    · exact Or.inl ⟨enough, _, (through _ _).mp settles⟩
    · exact Or.inr ⟨short, _, _, (through _ _).mp settles⟩
  constructor
  · intro framed
    have numeral : Numeral bound h.value := by
      by_contra other
      obtain ⟨req', left, settles⟩ := (refuses_iff _ _).mp (framed.refuses other)
      obtain ⟨msg, -, ⟨-, left', settles'⟩ | ⟨-, s, left', settles'⟩⟩ := outcome []
      · cases (settles.unique settles').1
      · cases (settles.unique settles').1
    refine ⟨numeral, ?_⟩
    -- enough bytes of a kind that is not the first of the unread lines
    obtain ⟨c, other⟩ : ∃ c : UInt8, before.head? ≠ some c := by
      by_cases head : before.head? = some 0
      · exact ⟨1, by rw [head]; decide⟩
      · exact ⟨0, head⟩
    obtain ⟨reads, carried⟩ := exists_reads (show 0 < 4096 by decide)
      (h.text (List.replicate (len + decimalValue h.value) c))
    obtain ⟨msg, body, ⟨-, left, settles⟩ | ⟨short, -⟩⟩ :=
      outcome (List.replicate (len + decimalValue h.value) c)
    · rw [← carried] at settles
      obtain ⟨-, -, same⟩ := framed.accepts _ reads msg carried (parsed_settled settles)
      rw [body] at same
      have length : len = decimalValue h.value := by
        have lengths := congrArg List.length same
        simp only [List.length_take, List.length_append, List.length_replicate] at lengths
        omega
      refine ⟨length, ?_⟩
      by_contra neither
      rw [not_or] at neither
      have heads := congrArg List.head? same
      rw [← length, List.head?_take, List.head?_take, if_neg neither.2, if_neg neither.2,
        List.head?_append_of_ne_nil _ neither.1, List.head?_replicate] at heads
      rw [if_neg (by omega)] at heads
      exact other heads
    · simp only [List.length_append, List.length_replicate] at short
      omega
  · rintro ⟨numeral, length, whole⟩
    refine ⟨fun rest reads req' carried accepted => ?_, fun other => absurd numeral other⟩
    obtain ⟨msg, body, ⟨enough, left, settles⟩ | ⟨-, s, left, settles⟩⟩ := outcome rest
    · rw [← carried] at settles
      rw [parsed_settled settles] at accepted
      cases accepted
      refine ⟨numeral.1, ?_⟩
      rw [body, ← length]
      rcases whole with rfl | zero
      · exact ⟨enough, rfl⟩
      · rw [zero]
        exact ⟨Nat.zero_le _, rfl⟩
    · rw [← carried] at settles
      rw [parsed_settled settles] at accepted
      cases accepted

end LengthHead

/-- **Framing by Content-Length.** A head with one Content-Length and no chunks frames its
requests, whatever follows it and however the stream is cut, exactly when one of its lines
is refused, or its length is a numeral and either an exception leaves the parser, or the
length is zero, or no header line begins with CR and something stands between the colon and
the numeral (or the numeral begins with a zero). -/
theorem content_length_framing (h : LengthHead) (bound : Nat) {req : HttpRequest}
    (fresh : req.body = []) : h.Framed bound req ↔ h.Sound bound := by
  rw [LengthHead.Sound]
  cases line : isRequestLine h.first with
  | false =>
      exact iff_of_true (LengthHead.framed_of_refused fresh (by rw [requestEnd, line]; rfl))
        (Or.inl rfl)
  | true =>
      have ends_eq : requestEnd h.first h.lines = headEnd false 0 h.lines := by
        rw [requestEnd, line]
        rfl
      rcases headEnd_cases false 0 (fun line member => (h.lines_whole line member).2) with
        ⟨ends, refused⟩ | ⟨e, ends, not_refused, unreadable⟩ |
          ⟨chunked, len, before, ends, not_refused, readable, inside⟩
      · exact iff_of_true (LengthHead.framed_of_refused fresh (ends_eq.trans ends))
          (Or.inr (Or.inl refused))
      · rw [LengthHead.framed_iff_of_throws fresh (ends_eq.trans ends), not_refused, unreadable]
        simp
      · obtain ⟨rfl, length⟩ := LengthHead.body_cases ends
        rw [LengthHead.framed_iff_of_body fresh (ends_eq.trans ends), not_refused, readable,
          ← inside]
        simp only [Bool.true_eq_false, Bool.false_eq_true, false_or]
        refine and_congr_right fun numeral => ?_
        rcases length with ⟨zero, early⟩ | ⟨stored, n, read, number, rfl⟩
        · simp only [zero, early, false_and, or_false]
          exact ⟨fun both => both.1.symm, fun same => ⟨same.symm, Or.inr trivial⟩⟩
        · obtain ⟨exact_iff, zero⟩ := LengthHead.toSize_stored numeral.1 read number
          rw [← exact_iff]
          constructor
          · rintro ⟨same, rfl | none⟩
            · exact Or.inr ⟨rfl, same⟩
            · exact Or.inl (same.symm.trans none)
          · rintro (none | ⟨whole, same⟩)
            · exact ⟨(zero none).trans none.symm, Or.inr (zero none)⟩
            · exact ⟨same, Or.inl whole⟩

/-- The head of a request with nothing but a length. -/
def postHead (pre value : Bytes) (field : FieldLine (ascii "Content-Length") pre value []) :
    LengthHead where
  first := ascii "POST /a HTTP/1.1"
  before := []
  name := ascii "Content-Length"
  pre := pre
  value := value
  post := []
  after := []
  first_line := by decide
  header_lines := by decide
  field := field
  is_length := by decide
  single := by decide
  unchunked := by decide

/-- The head of a request with a body of five bytes. -/
def fiveHead : LengthHead :=
  postHead [32] (ascii "5") (by decide)

theorem five_framed : fiveHead.Framed (2 ^ 31) (.new 0x11 false) :=
  (content_length_framing fiveHead (2 ^ 31) rfl).mpr
    (Or.inr (Or.inr ⟨by decide, Or.inr (Or.inr ⟨by decide, Or.inl (by decide)⟩)⟩))

/-- Lengths that are no numerals, and one that is not the length read: a number with more
behind it is read as that number, a negative one as a length no stream reaches, no number is
answered by an exception, and without a blank the first digit is lost. -/
theorem lengths_not_framed :
    (∃ h : LengthHead, h.value = ascii "5abc" ∧ requestEnd h.first h.lines = .body false 5 [] ∧
      ¬h.Framed (2 ^ 31) (.new 0x11 false)) ∧
    (∃ h : LengthHead, h.value = ascii "-1" ∧
      requestEnd h.first h.lines = .body false (2 ^ 64 - 1) [] ∧
      ¬h.Framed (2 ^ 31) (.new 0x11 false)) ∧
    (∃ h : LengthHead, h.value = ascii "abc" ∧
      requestEnd h.first h.lines = .throws (.invalidArgument "stoi") ∧
      ¬h.Framed (2 ^ 31) (.new 0x11 false)) ∧
    (∃ h : LengthHead, h.value = ascii "57" ∧ requestEnd h.first h.lines = .body false 7 [] ∧
      ¬h.Framed (2 ^ 31) (.new 0x11 false)) := by
  refine ⟨⟨postHead [32] (ascii "5abc") (by decide), rfl, ?_⟩,
    ⟨postHead [32] (ascii "-1") (by decide), rfl, ?_⟩,
    ⟨postHead [32] (ascii "abc") (by decide), rfl, ?_⟩,
    ⟨postHead [] (ascii "57") (by decide), rfl, ?_⟩⟩
  · have ends : requestEnd (ascii "POST /a HTTP/1.1") [ascii "Content-Length: 5abc"] =
        .body false 5 [] := by decide
    refine ⟨ends, fun framed => ?_⟩
    exact absurd ((LengthHead.framed_iff_of_body rfl ends).mp framed).1
      (show ¬Numeral (2 ^ 31) (ascii "5abc") by decide)
  · have ends : requestEnd (ascii "POST /a HTTP/1.1") [ascii "Content-Length: -1"] =
        .body false (2 ^ 64 - 1) [] := by decide
    refine ⟨ends, fun framed => ?_⟩
    exact absurd ((LengthHead.framed_iff_of_body rfl ends).mp framed).1
      (show ¬Numeral (2 ^ 31) (ascii "-1") by decide)
  · have ends : requestEnd (ascii "POST /a HTTP/1.1") [ascii "Content-Length: abc"] =
        .throws (.invalidArgument "stoi") := by decide
    refine ⟨ends, fun framed => ?_⟩
    exact absurd ((LengthHead.framed_iff_of_throws rfl ends).mp framed)
      (show ¬Numeral (2 ^ 31) (ascii "abc") by decide)
  · have ends : requestEnd (ascii "POST /a HTTP/1.1") [ascii "Content-Length:57"] =
        .body false 7 [] := by decide
    refine ⟨ends, fun framed => ?_⟩
    exact absurd ((LengthHead.framed_iff_of_body rfl ends).mp framed).2.1
      (show ¬(7 = decimalValue (ascii "57")) by decide)

end Reyao.Http
