import Reyao.Http.Framing

/-!
# The order of the header lines

`parseHeader` sets `chunked_` and `contentLen_` under conditions that depend on the headers
before: a length is read only as long as no header has announced chunks. The framing that
comes of it does not: `announce` is what one header does to it, and headers with different
names may be announced in either order. So may their entries be made in the header map, and
a parse has one result for all orders (`header_order_irrelevant`).
-/

namespace Reyao.Http

open Lib

/-- Header fields that make one line each, and no two of them one entry of the header map. A
length can be read. -/
structure DistinctFields (fields : List (Bytes × Bytes)) : Prop where
  name_ne_nil : ∀ e ∈ fields, e.1 ≠ []
  name_free : ∀ e ∈ fields, Free [58, 13, 10, 0] e.1
  value_ne_nil : ∀ e ∈ fields, e.2 ≠ []
  value_free : ∀ e ∈ fields, Free [13, 10] e.2
  different : fields.Pairwise fun a b => eqIgnoreCase a.1 b.1 = false
  length_numeral : ∀ e ∈ fields, eqIgnoreCase e.1 (ascii "content-length") = true →
    Numeral (2 ^ 31) e.2

/-- A request with these header lines, and what follows its head. -/
def fieldsText (first : Bytes) (fields : List (Bytes × Bytes)) (rest : Bytes) : Bytes :=
  first ++ kCRLF ++ (headerLines fields ++ (kCRLF ++ rest))

/-- The bytes that a parse which returns has not taken for its message: those in its buffer,
and those it has not read. -/
def remaining {μ : Type} {size : Nat} :
    EStateM.Result Fault (HttpParser μ) (Bool × SocketStream size) → Option Bytes
  | .ok (_, ss) p => some (p.ba.unread ++ bytesOf ss.incoming)
  | .error _ _ => none

/-! ## What the headers announce -/

/-- The body that is announced after one more header. Chunks are announced for good, and a
length only counts without them. -/
def announce (body : Phase) (e : Bytes × Bytes) : Phase :=
  if isChunked e.1 e.2 then .chunkHead []
  else match body with
    | .fixedBody len =>
        if eqIgnoreCase e.1 (ascii "content-length") then .fixedBody (decimalValue e.2)
        else .fixedBody len
    | other => other

theorem announce_chunked {e : Bytes × Bytes} (chunks : isChunked e.1 e.2 = true) (body : Phase) :
    announce body e = .chunkHead [] := if_pos chunks

theorem announce_chunks (e : Bytes × Bytes) : announce (.chunkHead []) e = .chunkHead [] := by
  unfold announce
  cases isChunked e.1 e.2 <;> rfl

theorem announce_length {e : Bytes × Bytes} (plain : isChunked e.1 e.2 = false) (len : Nat) :
    announce (.fixedBody len) e =
      if eqIgnoreCase e.1 (ascii "content-length") then .fixedBody (decimalValue e.2)
      else .fixedBody len := by
  rw [announce, plain]
  rfl

/-- Headers with different names announce the same in either order. -/
theorem announce_comm {a b : Bytes × Bytes} (different : eqIgnoreCase a.1 b.1 = false)
    (body : Phase) : announce (announce body a) b = announce (announce body b) a := by
  have not_both : eqIgnoreCase a.1 (ascii "content-length") = true →
      eqIgnoreCase b.1 (ascii "content-length") = false := by
    intro first
    refine Bool.eq_false_of_not_eq_true fun second => ?_
    rw [eqIgnoreCase_iff] at first second
    rw [(eqIgnoreCase_iff a.1 b.1).mpr (first.trans second.symm)] at different
    cases different
  cases chunks : isChunked a.1 a.2 with
  | true => rw [announce_chunked chunks, announce_chunked chunks, announce_chunks]
  | false =>
      cases chunks' : isChunked b.1 b.2 with
      | true => rw [announce_chunked chunks', announce_chunked chunks', announce_chunks]
      | false =>
          cases body with
          | fixedBody len =>
              rw [announce_length chunks, announce_length chunks']
              cases sized : eqIgnoreCase a.1 (ascii "content-length") with
              | true =>
                  rw [not_both sized, if_pos rfl, if_neg Bool.false_ne_true,
                    announce_length chunks, announce_length chunks', sized, not_both sized]
                  rfl
              | false =>
                  rw [if_neg Bool.false_ne_true, announce_length chunks']
                  split <;> rw [announce_length chunks, sized, if_neg Bool.false_ne_true]
          | _ => simp only [announce, chunks, chunks', Bool.false_eq_true, if_false]

/-- `parseHeader` does to the framing what the header announces. -/
theorem lengthAfter_announces {e : Bytes × Bytes}
    (readable : eqIgnoreCase e.1 (ascii "content-length") = true → Numeral (2 ^ 31) e.2)
    (chunked : Bool) (len : Nat) :
    ∃ len', lengthAfter (chunked || isChunked e.1 e.2) len e.1 e.2 = .ok len' ∧
      bodyPhase (chunked || isChunked e.1 e.2) len' = announce (bodyPhase chunked len) e := by
  cases chunks : isChunked e.1 e.2 with
  | true =>
      rw [Bool.or_true, announce_chunked chunks]
      exact ⟨len, rfl, rfl⟩
  | false =>
      rw [Bool.or_false]
      cases chunked with
      | true => exact ⟨len, rfl, (announce_chunks e).symm⟩
      | false =>
          rw [show bodyPhase false len = .fixedBody len from rfl, announce_length chunks,
            lengthAfter]
          cases sized : eqIgnoreCase e.1 (ascii "content-length") with
          | false => exact ⟨len, rfl, rfl⟩
          | true =>
              obtain ⟨⟨some_digit, digits⟩, small⟩ := readable sized
              have number : stoi ([] ++ (e.2 ++ [])) = _ :=
                stoi_digits (by simp) digits some_digit (by simp)
              rw [List.nil_append, List.append_nil, if_pos small] at number
              refine ⟨decimalValue e.2, ?_, rfl⟩
              rw [number]
              exact congrArg Except.ok (toSize_natCast (by omega))

/-! ## The header lines -/

/-- One header: what it announces, and its entry in the message. -/
def takeField {μ : Type} [HttpMessage μ] (s : Phase × μ) (e : Bytes × Bytes) : Phase × μ :=
  (announce s.1 e, HttpMessage.addHeader e.1 e.2 s.2)

/-- The header section does what its fields do one after the other. -/
theorem settles_takeField {μ : Type} [HttpMessage μ] {fields : List (Bytes × Bytes)}
    (valid : ∀ e ∈ fields, Field e)
    (readable : ∀ e ∈ fields, eqIgnoreCase e.1 (ascii "content-length") = true →
      Numeral (2 ^ 31) e.2)
    {chunked : Bool} {len : Nat} {msg : μ} {rest left : Bytes}
    {v : Verdict (Phase × μ) (Ended μ)} :
    Settles (machine μ) (fields.foldl takeField (bodyPhase chunked len, msg)) rest v left ↔
      Settles (machine μ) (.headers chunked len, msg) (headerLines fields ++ (kCRLF ++ rest)) v
        left := by
  induction fields generalizing chunked len msg with
  | nil =>
      have step : (machine μ).step (.headers chunked len, msg) (kCRLF ++ rest) =
          .go (bodyPhase chunked len, msg) 2 := rfl
      exact Settles.go_iff step
  | cons e fields ih =>
      obtain ⟨len', length, announced⟩ :=
        lengthAfter_announces (readable e List.mem_cons_self) chunked len
      have step := (valid e List.mem_cons_self).step_line chunked len msg
        (headerLines fields ++ (kCRLF ++ rest))
      rw [length] at step
      rw [headerLines_cons, List.append_assoc, ← Settles.go_iff step, drop_headerLine,
        ← ih (fun e member => valid e (List.mem_cons_of_mem _ member))
          (fun e member => readable e (List.mem_cons_of_mem _ member)), announced]
      rfl

theorem StrMap.assign_comm {a b : Bytes × Bytes} (different : eqIgnoreCase a.1 b.1 = false)
    (map : StrMap) :
    (map.assign a.1 a.2).assign b.1 b.2 = (map.assign b.1 b.2).assign a.1 a.2 := by
  have ranks : caseKey a.1 ≠ caseKey b.1 := by
    intro same
    rw [(eqIgnoreCase_iff a.1 b.1).mpr same] at different
    cases different
  have entries : ((map.assign a.1 a.2).assign b.1 b.2).entries =
      ((map.assign b.1 b.2).assign a.1 a.2).entries := OrderedMap.assign_comm ranks
  refine StrMap.ext fun e => ?_
  rw [entries]

theorem takeField_comm {a b : Bytes × Bytes} (different : eqIgnoreCase a.1 b.1 = false)
    (s : Phase × HttpRequest) : takeField (takeField s a) b = takeField (takeField s b) a := by
  have entries := StrMap.assign_comm different s.2.headers
  exact Prod.ext (announce_comm different s.1)
    (congrArg (fun headers => { s.2 with headers := headers }) entries)

theorem symm_different : Std.Symm fun a b : Bytes × Bytes => eqIgnoreCase a.1 b.1 = false := by
  constructor
  intro a b different
  rw [eqIgnoreCase, Bool.beq_comm]
  exact different

namespace DistinctFields

variable {fields fields' : List (Bytes × Bytes)}

theorem of_perm (distinct : DistinctFields fields) (perm : fields.Perm fields') :
    DistinctFields fields' := by
  have symmetric := symm_different
  have there : ∀ e ∈ fields', e ∈ fields := fun e member => perm.mem_iff.mpr member
  exact ⟨fun e member => distinct.name_ne_nil e (there e member),
    fun e member => distinct.name_free e (there e member),
    fun e member => distinct.value_ne_nil e (there e member),
    fun e member => distinct.value_free e (there e member),
    distinct.different.perm perm fun {a b} => symmetric.symm a b,
    fun e member => distinct.length_numeral e (there e member)⟩

theorem field (distinct : DistinctFields fields) : ∀ e ∈ fields, Field e := by
  intro e member
  have wider : ∀ d ∈ ascii ":\r", d ∈ ([58, 13, 10, 0] : Bytes) := by decide
  exact ⟨fun d inside => distinct.name_free e member d (wider d inside),
    distinct.value_free e member 13 (by decide), distinct.value_ne_nil e member⟩

/-- The fields may be taken in any order. -/
theorem foldl_perm (distinct : DistinctFields fields) (perm : fields.Perm fields')
    (s : Phase × HttpRequest) : fields.foldl takeField s = fields'.foldl takeField s := by
  refine perm.foldl_eq' (fun a here b there s => ?_) s
  by_cases same : a = b
  · rw [same]
  · have symmetric := symm_different
    exact takeField_comm (distinct.different.forall here there same) s


variable {first rest left : Bytes} {req : HttpRequest}
  {v : Verdict (Phase × HttpRequest) (Ended HttpRequest)}

/-- The machine ends the same with the lines in another order. Where the first line is
refused it has not taken them. -/
theorem settles_perm (distinct : DistinctFields fields) (perm : fields.Perm fields')
    (first_line : OneLine first)
    (settles : Settles (machine HttpRequest) (.firstLine, req) (fieldsText first fields rest) v
      left) :
    ∃ left', Settles (machine HttpRequest) (.firstLine, req) (fieldsText first fields' rest) v
      left' ∧ (isRequestLine first = true → left' = left) := by
  have distinct' := distinct.of_perm perm
  have step : ∀ fields, (machine HttpRequest).step (.firstLine, req)
      (fieldsText first fields rest) = afterFirstLine req first (first.length + 2) :=
    fun fields => step_firstLine first_line ..
  obtain ⟨req', line⟩ := HttpRequest.parseFirstLine_accepts first req
  have line' : HttpMessage.parseFirstLine first req = .ok (isRequestLine first) req' := line
  rw [afterFirstLine, line'] at step
  cases accepted : isRequestLine first with
  | false =>
      rw [accepted] at step
      obtain ⟨rfl, -⟩ := settles.unique (.stop (step fields))
      exact ⟨_, .stop (step fields'), fun yes => by cases yes⟩
  | true =>
      rw [accepted] at step
      refine ⟨left, ?_, fun _ => rfl⟩
      rw [← Settles.go_iff (step fields), fieldsText, drop_line,
        ← settles_takeField distinct.field distinct.length_numeral,
        distinct.foldl_perm perm] at settles
      rw [← Settles.go_iff (step fields'), fieldsText, drop_line,
        ← settles_takeField distinct'.field distinct'.length_numeral]
      exact settles

end DistinctFields

/-! ## The parse -/

/-- What is left over when the machine ends, unless it ends with an exception. -/
def leftOver (left : Bytes) : Verdict (Phase × HttpRequest) (Ended HttpRequest) → Option Bytes
  | .stopped ⟨.error _, _⟩ => none
  | _ => some left

/-- What a parse has not taken is what the machine leaves over. -/
theorem remaining_settled {reads : List (Read 4096)} {req : HttpRequest} {left : Bytes}
    {v : Verdict (Phase × HttpRequest) (Ended HttpRequest)}
    (settles : Settles (machine HttpRequest) (.firstLine, req) (bytesOf reads) v left) :
    remaining (parseRequest (.ofReads reads) req) = leftOver left v := by
  obtain ⟨v', left', rest, drive, answers, unread⟩ := parseRequest_drives reads req
  obtain ⟨rfl, rfl⟩ := drive.settles.unique settles
  match v' with
  | .paused s =>
      obtain ⟨p, result, -⟩ := answers
      rw [result] at unread ⊢
      cases unread
      rfl
  | .stopped ⟨.ok accepted, msg⟩ =>
      obtain ⟨p, result, -⟩ := answers
      rw [result] at unread ⊢
      cases unread
      rfl
  | .stopped ⟨.error e, msg⟩ =>
      obtain ⟨p, result, -⟩ := answers
      rw [result]
      rfl

/-- A request parses to one answer, one header map and one body for all orders of its header
lines, also where it announces both chunks and a length; and where its first line is
accepted, so that its header lines are read, its body ends at the same byte of what follows
the head. The two texts may arrive in any pieces. -/
theorem header_order_irrelevant {first : Bytes} (first_line : OneLine first)
    {fields fields' : List (Bytes × Bytes)} (distinct : DistinctFields fields)
    (perm : fields.Perm fields') (rest : Bytes) (req : HttpRequest)
    {reads reads' : List (Read 4096)} (carried : bytesOf reads = fieldsText first fields rest)
    (carried' : bytesOf reads' = fieldsText first fields' rest) :
    parsed (parseRequest (.ofReads reads) req) = parsed (parseRequest (.ofReads reads') req) ∧
      (isRequestLine first = true → remaining (parseRequest (.ofReads reads) req) =
        remaining (parseRequest (.ofReads reads') req)) := by
  obtain ⟨v, left, unread, drive, -⟩ := parseRequest_drives reads req
  have settles : Settles (machine HttpRequest) (.firstLine, req) (bytesOf reads) v
    (left ++ (unread.map Read.data).flatten) := drive.settles
  have text := settles
  rw [carried] at text
  obtain ⟨left', settles', same⟩ := distinct.settles_perm perm first_line text
  rw [← carried'] at settles'
  constructor
  · have result := parsed_settled settles
    have result' := parsed_settled settles'
    cases v with
    | paused s => exact result.trans result'.symm
    | stopped r => exact result.trans result'.symm
  · intro accepted
    rw [remaining_settled settles, remaining_settled settles', same accepted]

/-- A host, chunks and a length, in two orders. -/
def framedTwice : List (Bytes × Bytes) :=
  [(ascii "Host", ascii "a"), (ascii "Transfer-Encoding", ascii "chunked"),
    (ascii "Content-Length", ascii "5")]

def framedTwice' : List (Bytes × Bytes) :=
  [(ascii "Content-Length", ascii "5"), (ascii "Host", ascii "a"),
    (ascii "Transfer-Encoding", ascii "chunked")]

/-- A request with two chunks behind these headers, in one piece. -/
def postRead (fields : List (Bytes × Bytes))
    (fits : (fieldsText (ascii "POST / HTTP/1.1") fields
      (ascii "3\r\nabc\r\n0\r\n\r\n")).length ≤ 4096) : Read 4096 where
  data := fieldsText (ascii "POST / HTTP/1.1") fields (ascii "3\r\nabc\r\n0\r\n\r\n")
  nonempty := by simp [fieldsText, kCRLF]
  within := fits

theorem framedTwice_distinct : DistinctFields framedTwice := by
  constructor <;> decide

/-- Chunks and a length are the same framing in either order. -/
theorem framedTwice_either_order :
    parsed (parseRequest (.ofReads [postRead framedTwice (by decide)]) (.new 0x11 false)) =
        parsed (parseRequest (.ofReads [postRead framedTwice' (by decide)]) (.new 0x11 false)) ∧
      remaining (parseRequest (.ofReads [postRead framedTwice (by decide)]) (.new 0x11 false)) =
        remaining (parseRequest (.ofReads [postRead framedTwice' (by decide)])
          (.new 0x11 false)) := by
  have perm : framedTwice.Perm framedTwice' := by decide
  have carried : ∀ fields fits, bytesOf [postRead fields fits] =
      fieldsText (ascii "POST / HTTP/1.1") fields (ascii "3\r\nabc\r\n0\r\n\r\n") :=
    fun fields fits => List.append_nil _
  have same := header_order_irrelevant (by decide) framedTwice_distinct perm _ (.new 0x11 false)
    (carried framedTwice (by decide)) (carried framedTwice' (by decide))
  exact ⟨same.1, same.2 (by decide)⟩

end Reyao.Http
