import Reyao.Http.ParserRun
import Reyao.Http.RequestLine

/-!
# What a dumped request parses to

The machine reads the text of a request up to its last byte and stops with the
fields of the request and its headers, those included that `dump` generates
(`settles_dump`).
-/

namespace Reyao.Http

open Lib

/-- None of the bytes `ds` occurs in `s`. -/
def Free (ds s : Bytes) : Prop := ∀ d ∈ ds, d ∉ s

instance (ds s : Bytes) : Decidable (Free ds s) :=
  inferInstanceAs (Decidable (∀ d ∈ ds, d ∉ s))

/-- A request whose text can be taken apart again: no field holds a byte at which
the parser cuts it. -/
structure WellFormed (r : HttpRequest) : Prop where
  method : r.method ≠ .INVALID_METHOD
  version : r.version = 0x10 ∨ r.version = 0x11
  path_slash : r.path.head? = some 47
  path_free : Free (ascii " ?#\r") r.path
  query_free : Free (ascii " #\r") r.query
  fragment_free : Free (ascii " \r") r.fragment
  names_free : ∀ e ∈ r.headers.entries, Free (ascii ":\r") e.1
  /-- The headers `dump` generates or the body depends on are not set by hand. -/
  names_own : ∀ e ∈ r.headers.entries, ∀ name ∈
    [ascii "connection", ascii "content-length", ascii "transfer-encoding"],
    caseKey e.1 ≠ caseKey name
  values_ne_nil : ∀ e ∈ r.headers.entries, e.2 ≠ []
  values_free : ∀ e ∈ r.headers.entries, (13 : UInt8) ∉ e.2

/-! ## Lines -/

/-- The first line end of a text is the one behind a line without any. -/
theorem search_text {a : Bytes} (whole : search kCRLF a = none) (rest : Bytes) :
    search kCRLF (a ++ kCRLF ++ rest) = some a.length := by
  induction a with
  | nil => rfl
  | cons c a ih =>
      rw [search] at whole
      split at whole
      · cases whole
      · rename_i inside
        have other : ¬(kCRLF.isPrefixOf (c :: (a ++ kCRLF ++ rest)) = true) := by
          cases a with
          | nil => simp [kCRLF, List.isPrefixOf]
          | cons d a => simpa [kCRLF, List.isPrefixOf] using inside
        rw [List.cons_append, List.cons_append, search, if_neg other,
          ih (Option.map_eq_none_iff.mp whole)]
        rfl

theorem search_free {a : Bytes} (free : (13 : UInt8) ∉ a) : search kCRLF a = none := by
  induction a with
  | nil => rfl
  | cons c a ih =>
      rw [List.mem_cons, not_or] at free
      have other : ¬(kCRLF.isPrefixOf (c :: a) = true) := by
        intro here
        simp only [kCRLF, List.isPrefixOf, Bool.and_eq_true, beq_iff_eq] at here
        exact free.1 here.1
      rw [search, if_neg other, ih free.2]
      rfl

/-- The next line of the input. -/
theorem byLine_text {S R : Type} {line : Bytes} (whole : search kCRLF line = none) (rest : Bytes)
    (move : Bytes → Nat → Move S R) :
    byLine (line ++ kCRLF ++ rest) move = move line (line.length + 2) := by
  rw [byLine, search_text whole]
  simp only [List.append_assoc, List.take_left]

theorem byLine_line {S R : Type} {line : Bytes} (free : (13 : UInt8) ∉ line) (rest : Bytes)
    (move : Bytes → Nat → Move S R) :
    byLine (line ++ kCRLF ++ rest) move = move line (line.length + 2) :=
  byLine_text (search_free free) rest move

/-- The move on the first line of a message. -/
theorem step_firstLine {μ : Type} [HttpMessage μ] {line : Bytes} (whole : search kCRLF line = none)
    (rest : Bytes) (msg : μ) :
    (machine μ).step (.firstLine, msg) (line ++ kCRLF ++ rest) =
      afterFirstLine msg line (line.length + 2) :=
  byLine_text whole rest (afterFirstLine msg)

/-- The move on a line of the header section. -/
theorem step_headerLine {μ : Type} [HttpMessage μ] {line : Bytes}
    (whole : search kCRLF line = none) (rest : Bytes) (chunked : Bool) (len : Nat) (msg : μ) :
    (machine μ).step (.headers chunked len, msg) (line ++ kCRLF ++ rest) =
      afterHeader chunked len msg line (line.length + 2) :=
  byLine_text whole rest (afterHeader chunked len msg)

/-! ## The first line -/

namespace HttpRequest

def uri (r : HttpRequest) : Bytes :=
  r.path ++ (if r.query = [] then [] else 63 :: r.query) ++
    (if r.fragment = [] then [] else 35 :: r.fragment)

def versionText (r : HttpRequest) : Bytes :=
  if r.version = 0x10 then ascii "HTTP/1.0" else ascii "HTTP/1.1"

end HttpRequest

variable {r : HttpRequest}

/-- A request whose first line can be taken apart again. -/
structure Separable (r : HttpRequest) : Prop where
  version : r.version = 0x10 ∨ r.version = 0x11
  path_slash : r.path.head? = some 47
  path_free : Free (ascii " ?#") r.path
  query_free : Free (ascii " #") r.query
  fragment_free : (32 : UInt8) ∉ r.fragment

theorem WellFormed.separable (wf : WellFormed r) : Separable r := by
  have wider : (∀ d ∈ ascii " ?#", d ∈ ascii " ?#\r") ∧ ∀ d ∈ ascii " #", d ∈ ascii " #\r" := by
    decide
  exact ⟨wf.version, wf.path_slash, fun d member => wf.path_free d (wider.1 d member),
    fun d member => wf.query_free d (wider.2 d member), wf.fragment_free 32 (by decide)⟩

theorem Separable.firstLine_eq (sep : Separable r) :
    r.firstLine = HttpMethodToString r.method ++ 32 :: (r.uri ++ 32 :: r.versionText) := by
  have version : ascii " HTTP/" ++ showNat (r.version / 16) ++ ascii "." ++
      showNat (r.version % 16) = 32 :: r.versionText := by
    rcases sep.version with is10 | is11
    · rw [HttpRequest.versionText, is10]
      decide
    · rw [HttpRequest.versionText, is11]
      decide
  have question : ∀ s : Bytes, (if s = [] then [] else ascii "?") ++ s =
      if s = [] then [] else 63 :: s := by
    intro s
    split
    · assumption
    · rfl
  have hash : ∀ s : Bytes, (if s = [] then [] else ascii "#") ++ s =
      if s = [] then [] else 35 :: s := by
    intro s
    split
    · assumption
    · rfl
  rw [HttpRequest.firstLine, HttpRequest.uri, ← version, ← question, ← hash]
  simp only [List.append_assoc]
  rfl

theorem Separable.versionOf_eq (sep : Separable r) :
    HttpRequest.versionOf r.versionText = some r.version := by
  rcases sep.version with is10 | is11
  · rw [HttpRequest.versionText, is10]
    decide
  · rw [HttpRequest.versionText, is11]
    decide

theorem method_free (m : HttpMethod) : Free (ascii " \r") (HttpMethodToString m) := by
  cases m <;> decide

theorem StringToHttpMethod_toString (m : HttpMethod) :
    StringToHttpMethod (HttpMethodToString m) = m := by
  cases m <;> decide

theorem WellFormed.uri_free (wf : WellFormed r) : (13 : UInt8) ∉ r.uri := by
  simp only [HttpRequest.uri, List.mem_append, not_or]
  refine ⟨⟨wf.path_free 13 (by decide), ?_⟩, ?_⟩
  · split
    · exact List.not_mem_nil
    · rw [List.mem_cons, not_or]
      exact ⟨by decide, wf.query_free 13 (by decide)⟩
  · split
    · exact List.not_mem_nil
    · rw [List.mem_cons, not_or]
      exact ⟨by decide, wf.fragment_free 13 (by decide)⟩

/-- A part of the target that is left out when it is empty. -/
def unlessEmpty (part : Bytes) : Option Bytes := if part = [] then none else some part

theorem withDelimiter_unlessEmpty (d : UInt8) (part : Bytes) :
    withDelimiter d (unlessEmpty part) = if part = [] then [] else d :: part := by
  rw [unlessEmpty]
  split <;> rfl

theorem unlessEmpty_getD (part : Bytes) : (unlessEmpty part).getD [] = part := by
  rw [unlessEmpty]
  split
  · rename_i empty
    exact empty.symm
  · rfl

/-- The target of a dumped request. -/
def HttpRequest.target (r : HttpRequest) : Target :=
  ⟨[], r.path, unlessEmpty r.query, unlessEmpty r.fragment⟩

theorem Separable.target_valid (sep : Separable r) : r.target.Valid := by
  refine ⟨List.not_mem_nil, sep.path_slash, ⟨sep.path_free 63 (by decide),
    sep.path_free 35 (by decide)⟩, fun query some_query => ?_⟩
  have same : r.query = query := by
    have part := unlessEmpty_getD r.query
    rw [show unlessEmpty r.query = some query from some_query] at part
    exact part.symm
  rw [← same]
  exact sep.query_free 35 (by decide)

theorem HttpRequest.target_text (r : HttpRequest) : r.target.text = r.uri := by
  rw [Target.text, Target.main, HttpRequest.uri]
  simp only [HttpRequest.target, withDelimiter_unlessEmpty, List.nil_append]

/-- The request a server parses the text into, before its headers. -/
def afterLine (r : HttpRequest) : HttpRequest :=
  { HttpRequest.new 0x11 false with
    method := r.method
    version := r.version
    path := r.path
    query := r.query
    fragment := r.fragment }

theorem Separable.text_free (sep : Separable r) : (32 : UInt8) ∉ r.target.text := by
  have delimited : ∀ {d : UInt8} {part : Bytes}, (32 : UInt8) ≠ d → (32 : UInt8) ∉ part →
      (32 : UInt8) ∉ withDelimiter d (unlessEmpty part) := by
    intro d part other free
    rw [withDelimiter_unlessEmpty]
    split
    · exact List.not_mem_nil
    · rw [List.mem_cons, not_or]
      exact ⟨other, free⟩
  simp only [Target.text, Target.main, HttpRequest.target, List.nil_append, List.mem_append, not_or]
  exact ⟨⟨sep.path_free 32 (by decide), delimited (by decide) (sep.query_free 32 (by decide))⟩,
    delimited (by decide) sep.fragment_free⟩

/-- The first line is read back. -/
theorem Separable.parseFirstLine_eq (sep : Separable r) (version : Nat) (keepAlive : Bool) :
    HttpRequest.parseFirstLine r.firstLine (HttpRequest.new version keepAlive) =
      .ok true { HttpRequest.new version keepAlive with
        method := r.method
        version := r.version
        path := r.path
        query := r.query
        fragment := r.fragment } := by
  have parsed := HttpRequest.parseFirstLine_target (method_free r.method 32 (by decide))
    sep.target_valid sep.text_free sep.versionOf_eq (HttpRequest.new version keepAlive)
  rw [sep.firstLine_eq, ← r.target_text, parsed, HttpRequest.withLine,
    StringToHttpMethod_toString]
  have query := unlessEmpty_getD r.query
  have fragment := unlessEmpty_getD r.fragment
  simp only [HttpRequest.target, HttpRequest.new, query, fragment]

theorem WellFormed.parseFirstLine_eq (wf : WellFormed r) :
    HttpRequest.parseFirstLine r.firstLine (HttpRequest.new 0x11 false) =
      .ok true (afterLine r) :=
  wf.separable.parseFirstLine_eq 0x11 false

/-! ## Header lines -/

/-- A line that is a field in its parts: what stands behind the colon is not looked at. -/
theorem readHeader_parts {line title value : Bytes} (read : readHeader line = .field title value) :
    ∃ c, line = title ++ 58 :: c :: value ∧ (58 : UInt8) ∉ title ∧ line.head? ≠ some 13 ∧
      value ≠ [] := by
  rw [readHeader] at read
  split at read
  · cases read
  · rename_i inside
    rcases cut_cases 58 line with ⟨-, uncut⟩ | ⟨name, rest, rfl, free, cut⟩
    · rw [uncut] at read
      cases read
    · rw [cut, takeWhile_delimiter free] at read
      rcases rest with _ | ⟨c, _ | ⟨c', rest⟩⟩
      · cases read
      · cases read
      · cases read
        refine ⟨c, rfl, free, fun head => inside ?_, List.cons_ne_nil _ _⟩
        rw [List.head?_append_of_ne_nil _ (by simp), head]

theorem eqIgnoreCase_iff (a b : Bytes) : eqIgnoreCase a b = true ↔ caseKey a = caseKey b := by
  rw [eqIgnoreCase, beq_iff_eq, caseKey, caseKey]
  exact (List.map_injective_iff.mpr fun _ _ same => UInt8.toNat_inj.mp same).eq_iff.symm

/-- A name and a value that make a header line. -/
structure Field (e : Bytes × Bytes) : Prop where
  name_free : Free (ascii ":\r") e.1
  value_free : (13 : UInt8) ∉ e.2
  value_ne_nil : e.2 ≠ []

theorem Field.line_free {e : Bytes × Bytes} (field : Field e) :
    (13 : UInt8) ∉ e.1 ++ 58 :: 32 :: e.2 := by
  simp only [List.mem_append, List.mem_cons, not_or]
  exact ⟨field.name_free 13 (by decide), by decide, by decide, field.value_free⟩

theorem readHeader_of_parts {title value : Bytes} (free : (58 : UInt8) ∉ title)
    (head : title.head? ≠ some 13) (some_value : value ≠ []) (c : UInt8) :
    readHeader (title ++ 58 :: c :: value) = .field title value := by
  have inside : ¬((title ++ 58 :: c :: value ++ kCRLF).head? = some 13) := by
    intro first
    rw [List.append_assoc, List.head?_append] at first
    cases title with
    | nil => exact absurd first (by simp)
    | cons d title => exact head first
  rw [readHeader, if_neg inside, dropWhile_delimiter free, takeWhile_delimiter free]
  obtain ⟨d, rest, rfl⟩ := List.exists_cons_of_ne_nil some_value
  rfl

theorem Field.readHeader_eq {e : Bytes × Bytes} (field : Field e) :
    readHeader (e.1 ++ 58 :: 32 :: e.2) = .field e.1 e.2 :=
  readHeader_of_parts (field.name_free 58 (by decide))
    (fun head => field.name_free 13 (by decide) (List.mem_of_head? head)) field.value_ne_nil 32

/-- The lines of a list of fields. -/
def headerLines (fields : List (Bytes × Bytes)) : Bytes :=
  fields.flatMap fun e => HttpRequest.headerLine e.1 e.2

theorem headerLines_cons (e : Bytes × Bytes) (fields : List (Bytes × Bytes)) :
    headerLines (e :: fields) = HttpRequest.headerLine e.1 e.2 ++ headerLines fields := rfl

theorem headerLine_append (e : Bytes × Bytes) (rest : Bytes) :
    HttpRequest.headerLine e.1 e.2 ++ rest = e.1 ++ 58 :: 32 :: e.2 ++ kCRLF ++ rest := by
  rw [HttpRequest.headerLine, kCRLF]
  simp only [List.append_assoc]
  rfl

section

variable {μ : Type} [HttpMessage μ] {v : Verdict (Phase × μ) (Ended μ)} {left rest : Bytes}

/-- A header line: what it does to the framing is up to `lengthAfter`. -/
theorem Field.step_line {e : Bytes × Bytes} (field : Field e) (chunked : Bool) (len : Nat)
    (msg : μ) (rest : Bytes) :
    (machine μ).step (.headers chunked len, msg) (HttpRequest.headerLine e.1 e.2 ++ rest) =
      match lengthAfter (chunked || isChunked e.1 e.2) len e.1 e.2 with
      | .error fault => .stop ⟨.error fault, msg⟩ ((e.1 ++ 58 :: 32 :: e.2).length + 2)
      | .ok len' => .go (.headers (chunked || isChunked e.1 e.2) len',
          HttpMessage.addHeader e.1 e.2 msg) ((e.1 ++ 58 :: 32 :: e.2).length + 2) := by
  rw [headerLine_append, step_headerLine (search_free field.line_free)]
  unfold afterHeader
  cases framed : lengthAfter (chunked || isChunked e.1 e.2) len e.1 e.2 with
  | error fault => simp only [field.readHeader_eq, framed]
  | ok len' => simp only [field.readHeader_eq, framed]

/-- What follows a header line. -/
theorem drop_headerLine (e : Bytes × Bytes) (rest : Bytes) :
    (HttpRequest.headerLine e.1 e.2 ++ rest).drop ((e.1 ++ 58 :: 32 :: e.2).length + 2) = rest := by
  rw [headerLine_append]
  exact List.drop_left' List.length_append

/-- A header line in a message that is not chunked. -/
theorem Field.step_eq {e : Bytes × Bytes} (field : Field e)
    (plain : caseKey e.1 ≠ caseKey (ascii "transfer-encoding")) (len : Nat) (msg : μ)
    (rest : Bytes) :
    (machine μ).step (.headers false len, msg) (HttpRequest.headerLine e.1 e.2 ++ rest) =
      match lengthAfter false len e.1 e.2 with
      | .error fault => .stop ⟨.error fault, msg⟩ ((e.1 ++ 58 :: 32 :: e.2).length + 2)
      | .ok len' => .go (.headers false len', HttpMessage.addHeader e.1 e.2 msg)
          ((e.1 ++ 58 :: 32 :: e.2).length + 2) := by
  have notChunked : isChunked e.1 e.2 = false := by
    have other : eqIgnoreCase e.1 (ascii "transfer-encoding") = false :=
      Bool.eq_false_of_not_eq_true fun same => plain ((eqIgnoreCase_iff _ _).mp same)
    rw [isChunked, other, Bool.false_and]
  have step := field.step_line false len msg rest
  rwa [notChunked, Bool.or_false] at step

/-- A header line adds its header; what it does to the framing is up to
`lengthAfter`. -/
theorem settles_field {e : Bytes × Bytes} (field : Field e)
    (plain : caseKey e.1 ≠ caseKey (ascii "transfer-encoding")) {len len' : Nat}
    (framing : lengthAfter false len e.1 e.2 = .ok len') {msg : μ}
    (next : Settles (machine μ) (.headers false len', HttpMessage.addHeader e.1 e.2 msg) rest v
      left) :
    Settles (machine μ) (.headers false len, msg) (HttpRequest.headerLine e.1 e.2 ++ rest) v
      left := by
  have move := field.step_eq plain len msg rest
  rw [framing] at move
  refine .go move ?_
  rw [drop_headerLine]
  exact next

theorem lengthAfter_of_ne {e : Bytes × Bytes}
    (other : caseKey e.1 ≠ caseKey (ascii "content-length")) (len : Nat) :
    lengthAfter false len e.1 e.2 = .ok len := by
  have different : eqIgnoreCase e.1 (ascii "content-length") = false :=
    Bool.eq_false_of_not_eq_true fun same => other ((eqIgnoreCase_iff _ _).mp same)
  rw [lengthAfter, different]
  rfl

/-- The length of a body that `std::stoi` can read. -/
theorem lengthAfter_showNat {name : Bytes}
    (same : caseKey name = caseKey (ascii "content-length")) (len : Nat) {n : Nat}
    (small : n < 2 ^ 31) : lengthAfter false len name (showNat n) = .ok n := by
  have due : (!false && eqIgnoreCase name (ascii "content-length")) = true := by
    rw [(eqIgnoreCase_iff _ _).mpr same]
    rfl
  rw [lengthAfter, if_pos due, stoi_showNat, if_pos small]
  exact congrArg Except.ok (toSize_natCast (by omega))

/-- A run of header lines that say nothing about the body. -/
theorem settles_fields {fields : List (Bytes × Bytes)} (valid : ∀ e ∈ fields, Field e)
    (plain : ∀ e ∈ fields, caseKey e.1 ≠ caseKey (ascii "transfer-encoding") ∧
      caseKey e.1 ≠ caseKey (ascii "content-length")) {len : Nat} {msg : μ}
    (next : Settles (machine μ) (.headers false len,
      fields.foldl (fun msg e => HttpMessage.addHeader e.1 e.2 msg) msg) rest v left) :
    Settles (machine μ) (.headers false len, msg) (headerLines fields ++ rest) v left := by
  induction fields generalizing msg with
  | nil => exact next
  | cons e fields ih =>
      obtain ⟨notChunked, notLength⟩ := plain e List.mem_cons_self
      rw [headerLines_cons, List.append_assoc]
      refine settles_field (valid e List.mem_cons_self) notChunked
        (lengthAfter_of_ne notLength len) ?_
      exact ih (fun e member => valid e (List.mem_cons_of_mem _ member))
        (fun e member => plain e (List.mem_cons_of_mem _ member)) next

/-- The empty line and the body it announces. -/
theorem settles_body (body rest : Bytes) {msg : μ} (fresh : HttpMessage.setBody [] msg = msg) :
    Settles (machine μ) (.headers false body.length, msg) (kCRLF ++ (body ++ rest))
      (.stopped ⟨.ok true, HttpMessage.setBody body msg⟩) rest := by
  have empty : (machine μ).step (.headers false body.length, msg)
      (kCRLF ++ (body ++ rest)) = .go (.fixedBody body.length, msg) 2 := rfl
  refine .go empty ?_
  rw [List.drop_left' (show kCRLF.length = 2 from rfl)]
  cases body with
  | nil =>
      have done : (machine μ).step (.fixedBody 0, msg) rest = .stop ⟨.ok true, msg⟩ 0 := rfl
      rw [fresh]
      exact .stop done
  | cons c body =>
      have inside : (c :: body).length ≤ (c :: body ++ rest).length := by
        rw [List.length_append]
        exact Nat.le_add_right _ _
      have done : (machine μ).step (.fixedBody (c :: body).length, msg)
          (c :: body ++ rest) =
          .stop ⟨.ok true, HttpMessage.setBody (c :: body) msg⟩ (c :: body).length := by
        change advance (.fixedBody (c :: body).length, msg) _ = _
        rw [advance, if_neg (List.length_pos_iff.mpr (List.cons_ne_nil c body)).ne', if_pos inside,
          List.take_left]
      have settled := Settles.stop done
      rwa [List.drop_left] at settled

end

variable {v : Verdict (Phase × HttpRequest) (Ended HttpRequest)} {left rest : Bytes}

/-! ## The whole text -/

/-- The headers `dump` writes before the length of the body. -/
def sentFields (r : HttpRequest) : List (Bytes × Bytes) :=
  (ascii "connection", if r.keepAlive then ascii "keep-alive" else ascii "close") ::
    r.headers.entries

/-- The header with the length of the body, if there is a body. -/
def lengthField (r : HttpRequest) : List (Bytes × Bytes) :=
  if r.body = [] then [] else [(ascii "content-length", showNat r.body.length)]

/-- What `dump` writes after the headers, with the name it uses for the length. -/
theorem bodyText_eq (title body : Bytes) :
    (if body = [] then [13, 10]
      else HttpRequest.headerLine title (showNat body.length) ++ [13, 10] ++ body) =
      headerLines (if body = [] then [] else [(title, showNat body.length)]) ++ (kCRLF ++ body) := by
  by_cases empty : body = []
  · rw [if_pos empty, if_pos empty, empty]
    rfl
  · rw [if_neg empty, if_neg empty, List.append_assoc]
    simp only [headerLines, List.flatMap_singleton]
    rfl

/-- Headers that are all different, and the length of the body behind them. -/
theorem pairwise_length {fields : List (Bytes × Bytes)} {title body : Bytes}
    (different : fields.Pairwise fun a b => caseKey a.1 ≠ caseKey b.1)
    (others : ∀ e ∈ fields, caseKey e.1 ≠ caseKey title) :
    (fields ++ if body = [] then [] else [(title, showNat body.length)]).Pairwise
      fun a b => caseKey a.1 ≠ caseKey b.1 := by
  refine List.pairwise_append.mpr ⟨different, ?_, fun a first b second => ?_⟩
  · split
    · exact List.Pairwise.nil
    · exact List.pairwise_singleton _ _
  · split at second
    · cases second
    · rw [List.mem_singleton] at second
      rw [second]
      exact others a first

/-- The text of a request in its parts. -/
theorem WellFormed.dump_eq (wf : WellFormed r) :
    r.dump = r.firstLine ++ kCRLF ++
      (headerLines (sentFields r) ++ (headerLines (lengthField r) ++ (kCRLF ++ r.body))) := by
  have own : (r.headers.entries.flatMap fun entry =>
      if eqIgnoreCase entry.1 (ascii "connection") then []
      else HttpRequest.headerLine entry.1 entry.2) = headerLines r.headers.entries := by
    refine List.flatMap_congr fun e member => if_neg fun same => ?_
    exact wf.names_own e member (ascii "connection") (by decide) ((eqIgnoreCase_iff _ _).mp same)
  rw [HttpRequest.dump, own, bodyText_eq, lengthField, sentFields, headerLines_cons]
  simp only [List.append_assoc]
  rfl

/-- The headers a server finds in the text of a request. -/
def sentHeaders (r : HttpRequest) : StrMap :=
  (sentFields r ++ lengthField r).foldl (fun m e => m.assign e.1 e.2) .empty

/-- The request a server makes of the text of a request. -/
def received (r : HttpRequest) : HttpRequest :=
  { afterLine r with headers := sentHeaders r, body := r.body }

theorem WellFormed.firstLine_free (wf : WellFormed r) : (13 : UInt8) ∉ r.firstLine := by
  have version : (13 : UInt8) ∉ r.versionText := by
    rw [HttpRequest.versionText]
    split <;> decide
  rw [wf.separable.firstLine_eq]
  simp only [List.mem_append, List.mem_cons, not_or]
  exact ⟨method_free r.method 13 (by decide), by decide, wf.uri_free, by decide,
    version⟩

theorem WellFormed.sentFields_valid (wf : WellFormed r) : ∀ e ∈ sentFields r, Field e ∧
    caseKey e.1 ≠ caseKey (ascii "transfer-encoding") ∧
    caseKey e.1 ≠ caseKey (ascii "content-length") := by
  intro e member
  rcases List.mem_cons.mp member with rfl | own
  · cases r.keepAlive with
    | true => exact ⟨⟨by decide, by decide, by decide⟩, by decide, by decide⟩
    | false => exact ⟨⟨by decide, by decide, by decide⟩, by decide, by decide⟩
  · exact ⟨⟨wf.names_free e own, wf.values_free e own, wf.values_ne_nil e own⟩,
      wf.names_own e own _ (by decide), wf.names_own e own _ (by decide)⟩

theorem cr_not_mem_showNat (n : Nat) : (13 : UInt8) ∉ showNat n :=
  fun member => absurd (showNat_digit member) (by decide)

/-- The text up to the length of the body. -/
theorem WellFormed.settles_head (wf : WellFormed r)
    (next : Settles (machine HttpRequest)
      (.headers false 0, (sentFields r).foldl (fun msg e => msg.addHeader e.1 e.2) (afterLine r))
      (headerLines (lengthField r) ++ (kCRLF ++ (r.body ++ rest))) v left) :
    Settles (machine HttpRequest) (.firstLine, HttpRequest.new 0x11 false) (r.dump ++ rest) v
      left := by
  have fields := wf.sentFields_valid
  rw [wf.dump_eq, List.append_assoc]
  have first : (machine HttpRequest).step (.firstLine, HttpRequest.new 0x11 false)
      (r.firstLine ++ kCRLF ++ (headerLines (sentFields r) ++
        (headerLines (lengthField r) ++ (kCRLF ++ r.body)) ++ rest)) =
      .go (.headers false 0, afterLine r) (r.firstLine.length + 2) := by
    have parsed : (HttpMessage.parseFirstLine r.firstLine (HttpRequest.new 0x11 false) :
        EStateM.Result Fault HttpRequest Bool) = .ok true (afterLine r) := wf.parseFirstLine_eq
    rw [step_firstLine (search_free wf.firstLine_free), afterFirstLine, parsed]
  refine .go first ?_
  rw [List.drop_left' (show (r.firstLine ++ kCRLF).length = r.firstLine.length + 2 from
    List.length_append)]
  simp only [List.append_assoc]
  exact settles_fields (fun e member => (fields e member).1) (fun e member => (fields e member).2)
    next

theorem lengthField_eq (some_body : r.body ≠ []) :
    lengthField r = [(ascii "content-length", showNat r.body.length)] := if_neg some_body

theorem lengthField_valid (n : Nat) : Field (ascii "content-length", showNat n) := by
  have name_free : Free (ascii ":\r") (ascii "content-length") := by decide
  exact ⟨name_free, cr_not_mem_showNat n, showNat_ne_nil n⟩

theorem contentLength_ne : caseKey (ascii "content-length") ≠ caseKey (ascii "transfer-encoding") :=
  by decide

/-- **A dumped request is read up to its last byte.** Whatever follows is left
over. -/
theorem WellFormed.settles_dump (wf : WellFormed r) (small : r.body.length < 2 ^ 31)
    (rest : Bytes) :
    Settles (machine HttpRequest) (.firstLine, HttpRequest.new 0x11 false) (r.dump ++ rest)
      (.stopped ⟨.ok true, received r⟩) rest := by
  refine wf.settles_head ?_
  have headers : ∀ msg : HttpRequest, msg =
      (sentFields r ++ lengthField r).foldl (fun msg e => msg.addHeader e.1 e.2) (afterLine r) →
      Settles (machine HttpRequest) (.headers false r.body.length, msg) (kCRLF ++ (r.body ++ rest))
        (.stopped ⟨.ok true, received r⟩) rest := by
    rintro _ rfl
    have filled : (sentFields r ++ lengthField r).foldl (fun msg e => msg.addHeader e.1 e.2)
        (afterLine r) = { afterLine r with headers := sentHeaders r } :=
      List.foldl_hom (fun headers => { afterLine r with headers := headers }) fun _ _ => rfl
    rw [filled]
    exact settles_body r.body rest rfl
  by_cases empty : r.body = []
  · have unsized : lengthField r = [] := if_pos empty
    have length : r.body.length = 0 := by rw [empty]; rfl
    rw [unsized, List.append_nil, length] at headers
    rw [unsized]
    exact headers _ rfl
  · have field := lengthField_valid r.body.length
    have framing := lengthAfter_showNat (Eq.refl (caseKey (ascii "content-length"))) 0 small
    have plain := contentLength_ne
    rw [lengthField_eq empty] at headers ⊢
    generalize ascii "content-length" = name at field framing plain headers ⊢
    rw [headerLines_cons, List.append_assoc]
    refine settles_field field plain framing (headers _ ?_)
    rw [List.foldl_append]
    rfl

/-- A body whose length `std::stoi` cannot read is not read at all. -/
theorem WellFormed.settles_dump_large (wf : WellFormed r) (large : 2 ^ 31 ≤ r.body.length)
    (rest : Bytes) :
    ∃ msg left, Settles (machine HttpRequest) (.firstLine, HttpRequest.new 0x11 false)
      (r.dump ++ rest) (.stopped ⟨.error (.outOfRange "stoi"), msg⟩) left := by
  have some_body : r.body ≠ [] := by
    intro empty
    rw [empty] at large
    exact absurd large (by decide)
  have due : (!false && eqIgnoreCase (ascii "content-length") (ascii "content-length")) = true := by
    decide
  have framing : lengthAfter false 0 (ascii "content-length") (showNat r.body.length) =
      .error (.outOfRange "stoi") := by
    rw [lengthAfter, if_pos due, stoi_showNat, if_neg (Nat.not_lt.mpr large)]
    rfl
  have move := (lengthField_valid r.body.length).step_eq contentLength_ne 0
    ((sentFields r).foldl (fun msg e => msg.addHeader e.1 e.2) (afterLine r))
    (headerLines [] ++ (kCRLF ++ (r.body ++ rest)))
  rw [framing] at move
  have text : headerLines (lengthField r) ++ (kCRLF ++ (r.body ++ rest)) =
      HttpRequest.headerLine (ascii "content-length") (showNat r.body.length) ++
        (headerLines [] ++ (kCRLF ++ (r.body ++ rest))) := by
    rw [lengthField_eq some_body, headerLines_cons, List.append_assoc]
  have stopped := Settles.stop move
  exact ⟨_, _, wf.settles_head (by rw [text]; exact stopped)⟩

/-! ## The headers that arrive -/

namespace StrMap

theorem ext {m m' : StrMap} (same : ∀ e, e ∈ m.entries ↔ e ∈ m'.entries) : m = m' := by
  have entries := m.sorted.ext m'.sorted same
  cases m
  cases m'
  cases entries
  rfl

/-- The map of a row of headers. -/
def ofFields (fields : List (Bytes × Bytes)) : StrMap :=
  fields.foldl (fun m e => m.assign e.1 e.2) .empty

/-- Headers with different names are all there. -/
theorem mem_ofFields {fields : List (Bytes × Bytes)}
    (different : fields.Pairwise fun a b => caseKey a.1 ≠ caseKey b.1) (e : Bytes × Bytes) :
    e ∈ (ofFields fields).entries ↔ e ∈ fields := by
  have entries : ∀ (fields : List (Bytes × Bytes)) (map : StrMap),
      (fields.foldl (fun m e => m.assign e.1 e.2) map).entries =
        fields.foldl (fun m e => OrderedMap.assign caseKey e.1 e.2 m) map.entries := by
    intro fields
    induction fields with
    | nil => exact fun _ => rfl
    | cons e fields ih => exact fun map => ih _
  rw [ofFields, entries, OrderedMap.mem_foldl_assign different]
  · exact or_iff_right List.not_mem_nil
  · intro _ _ entry member
    exact absurd member List.not_mem_nil

end StrMap

/-- The headers of a request and those `dump` generates. -/
def withGenerated (r : HttpRequest) : StrMap :=
  let headers := r.headers.assign (ascii "connection")
    (if r.keepAlive then ascii "keep-alive" else ascii "close")
  if r.body = [] then headers else headers.assign (ascii "content-length") (showNat r.body.length)

/-- No header is sent twice. -/
theorem WellFormed.fields_different (wf : WellFormed r) :
    (sentFields r ++ lengthField r).Pairwise fun a b => caseKey a.1 ≠ caseKey b.1 := by
  refine pairwise_length (List.pairwise_cons.mpr ⟨fun e member => ?_, ?_⟩) fun e member => ?_
  · exact (wf.names_own e member _ List.mem_cons_self).symm
  · exact r.headers.sorted.imp fun less => ne_of_lt less
  · exact (wf.sentFields_valid e member).2.2

theorem mem_sentHeaders (wf : WellFormed r) (e : Bytes × Bytes) :
    e ∈ (sentHeaders r).entries ↔ e ∈ sentFields r ++ lengthField r :=
  StrMap.mem_ofFields wf.fields_different e

theorem mem_withGenerated (wf : WellFormed r) (e : Bytes × Bytes) :
    e ∈ (withGenerated r).entries ↔ e ∈ sentFields r ++ lengthField r := by
  have connection : ∀ e, e ∈ (r.headers.assign (ascii "connection")
      (if r.keepAlive then ascii "keep-alive" else ascii "close")).entries ↔ e ∈ sentFields r := by
    intro e
    rw [sentFields, List.mem_cons]
    exact OrderedMap.mem_assign (fun e member => wf.names_own e member _ (by decide)) e
  rw [withGenerated, lengthField]
  by_cases empty : r.body = []
  · simp only [if_pos empty, List.append_nil]
    exact connection e
  · simp only [if_neg empty]
    rw [List.mem_append, List.mem_singleton, or_comm, ← connection]
    refine OrderedMap.mem_assign (fun e member => ?_) e
    exact (wf.sentFields_valid e ((connection e).mp member)).2.2

theorem WellFormed.sentHeaders_eq (wf : WellFormed r) : sentHeaders r = withGenerated r :=
  StrMap.ext fun e => (mem_sentHeaders wf e).trans (mem_withGenerated wf e).symm

theorem WellFormed.perm_withGenerated (wf : WellFormed r) :
    (withGenerated r).entries.Perm (sentFields r ++ lengthField r) := by
  refine (List.perm_ext_iff_of_nodup (withGenerated r).sorted.nodup ?_).mpr
    (mem_withGenerated wf)
  exact wf.fields_different.imp fun other same => other (by rw [same])

end Reyao.Http
