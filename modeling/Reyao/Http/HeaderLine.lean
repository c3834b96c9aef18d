import Reyao.Http.ParserRun
import Reyao.Http.RequestLine
import Reyao.Http.Response

/-!
# Header lines

A header line is a name, a colon and a value, with optional blanks and tabs around the
value. `parseHeader` takes the value two bytes behind the colon, whatever stands there, so
it stores the value of the lines with exactly one blank before it and none behind it, and
of no others; and it takes a line for the end of the headers by its first byte.
-/

namespace Reyao.Http

open Lib

/-! ## The grammar -/

/-- A blank or a tab. -/
def isBlank (c : UInt8) : Bool := c == 32 || c == 9

/-- The parts of a header line: the name, and the value between its white space. -/
structure FieldLine (name pre value post : Bytes) : Prop where
  name_ne : name ≠ []
  name_free : ∀ c ∈ name, c ≠ 58 ∧ c ≠ 13 ∧ c ≠ 10 ∧ c ≠ 0
  pre_blank : ∀ c ∈ pre, isBlank c = true
  post_blank : ∀ c ∈ post, isBlank c = true
  value_free : ∀ c ∈ value, c ≠ 13 ∧ c ≠ 10
  value_head : ∀ c ∈ value.head?, isBlank c = false
  value_last : ∀ c ∈ value.getLast?, isBlank c = false

instance (name pre value post : Bytes) : Decidable (FieldLine name pre value post) :=
  decidable_of_iff (name ≠ [] ∧ (∀ c ∈ name, c ≠ 58 ∧ c ≠ 13 ∧ c ≠ 10 ∧ c ≠ 0) ∧
      (∀ c ∈ pre, isBlank c = true) ∧ (∀ c ∈ post, isBlank c = true) ∧
      (∀ c ∈ value, c ≠ 13 ∧ c ≠ 10) ∧ value.head?.any isBlank = false ∧
      value.getLast?.any isBlank = false) <| by
    simp only [Option.any_eq_false]
    exact ⟨fun ⟨name_ne, name_free, pre, post, value, head, last⟩ =>
        ⟨name_ne, name_free, pre, post, value, head, last⟩,
      fun ⟨name_ne, name_free, pre, post, value, head, last⟩ =>
        ⟨name_ne, name_free, pre, post, value, head, last⟩⟩

/-- The text of a header line. -/
def fieldText (name pre value post : Bytes) : Bytes := name ++ 58 :: (pre ++ value ++ post)

/-- What is read off a line with a colon: the byte behind the colon is dropped. -/
theorem readHeader_colon {name : Bytes} (some_name : name ≠ [])
    (free : ∀ c ∈ name, c ≠ 58 ∧ c ≠ 13) (text : Bytes) :
    readHeader (name ++ 58 :: text) =
      match text with
      | [] => .throws (.lengthError "basic_string::_M_create")
      | [_] => .bad
      | _ :: value => .field name value := by
  have colon_free : (58 : UInt8) ∉ name := fun member => (free 58 member).1 rfl
  have inside : ¬((name ++ 58 :: text ++ kCRLF).head? = some 13) := by
    intro head
    rw [List.append_assoc, List.head?_append_of_ne_nil _ some_name] at head
    exact (free 13 (List.mem_of_head? head)).2 rfl
  rw [readHeader, if_neg inside, dropWhile_delimiter colon_free, takeWhile_delimiter colon_free]
  rcases text with _ | ⟨blank, _ | ⟨c, value⟩⟩
  · rfl
  · rfl
  · rfl

namespace FieldLine

variable {name pre value post : Bytes}

theorem readHeader_eq_field (field : FieldLine name pre value post) (title stored : Bytes) :
    readHeader (fieldText name pre value post) = .field title stored ↔
      title = name ∧ stored ≠ [] ∧ ∃ c, pre ++ value ++ post = c :: stored := by
  rw [fieldText, readHeader_colon field.name_ne fun c member =>
    ⟨(field.name_free c member).1, (field.name_free c member).2.1⟩]
  rcases pre ++ value ++ post with _ | ⟨c, _ | ⟨c', text⟩⟩
  · simp
  · constructor
    · intro bad
      cases bad
    · rintro ⟨-, some_value, c', whole⟩
      rw [List.cons.injEq] at whole
      exact absurd whole.2.symm some_value
  · constructor
    · intro whole
      injection whole with same_name same
      subst same
      exact ⟨same_name.symm, List.cons_ne_nil _ _, c, rfl⟩
    · rintro ⟨rfl, -, c'', whole⟩
      rw [List.cons.injEq] at whole
      rw [← whole.2]

/-- The value is what stands two bytes behind the colon just when one blank is before it
and none is behind it. -/
theorem value_at_two (field : FieldLine name pre value post) :
    readHeader (fieldText name pre value post) = .field name value ↔
      pre.length = 1 ∧ value ≠ [] ∧ post = [] := by
  rw [field.readHeader_eq_field]
  constructor
  · rintro ⟨-, some_value, c, whole⟩
    have length : pre.length + post.length = 1 := by
      have both := congrArg List.length whole
      rw [List.length_append, List.length_append, List.length_cons] at both
      omega
    cases post with
    | nil => exact ⟨length, some_value, rfl⟩
    | cons blank post =>
        -- the first byte is dropped, so a blank behind the value would be its last byte
        have none_before : pre = [] := List.eq_nil_of_length_eq_zero (by
          rw [List.length_cons] at length
          omega)
        have none_later : post = [] := List.eq_nil_of_length_eq_zero (by
          rw [List.length_cons] at length
          omega)
        have last := congrArg List.getLast? whole
        rw [none_before, none_later, List.nil_append, List.getLast?_append, List.getLast?_singleton,
          Option.some_or, ← List.singleton_append, List.getLast?_append_of_ne_nil _ some_value]
          at last
        have visible := field.value_last blank last.symm
        rw [field.post_blank blank List.mem_cons_self] at visible
        cases visible
  · rintro ⟨one, some_value, rfl⟩
    obtain ⟨blank, rfl⟩ := List.length_eq_one_iff.mp one
    exact ⟨rfl, some_value, blank, by rw [List.append_nil, List.singleton_append]⟩

end FieldLine

/-! ## The parsers on header lines -/

/-- A parser that has to read a header line. -/
structure HttpParser.InHeader {μ : Type} (p : HttpParser μ) : Prop where
  state : p.parseState = .header
  going : p.error = false

section

variable {μ : Type} [HttpMessage μ]

/-- `parseHeader` accepts the line and stores the value under the name. -/
def Stores (line name value : Bytes) (p : HttpParser μ) : Prop :=
  ∃ p', HttpParser.parseHeader line p = .ok () p' ∧ p'.InHeader ∧
    p'.msg = HttpMessage.addHeader name value p.msg

/-- `parseHeader` takes the line for the end of the headers. -/
def EndsHeaders (line : Bytes) (p : HttpParser μ) : Prop :=
  ∃ p', HttpParser.parseHeader line p = .ok () p' ∧ p'.parseState = .body

/-- A length that matters is a number. -/
def LengthReadable (name value : Bytes) (p : HttpParser μ) : Prop :=
  p.chunked = true ∨ eqIgnoreCase name (ascii "content-length") = false ∨
    (stoi value).isOk = true

/-- No header announces chunks and a length. -/
theorem isChunked_of_length {name : Bytes}
    (length : eqIgnoreCase name (ascii "content-length") = true) (value : Bytes) :
    isChunked name value = false := by
  have other : (foldCase (ascii "content-length") == foldCase (ascii "transfer-encoding")) =
      false := by decide
  rw [eqIgnoreCase, beq_iff_eq] at length
  rw [isChunked, eqIgnoreCase, length, other, Bool.false_and]

omit [HttpMessage μ] in
theorem lengthAfter_isOk_iff (name value : Bytes) (p : HttpParser μ) :
    (lengthAfter (p.chunked || isChunked name value) p.contentLen name value).isOk = true ↔
      LengthReadable name value p := by
  rw [lengthAfter, LengthReadable]
  cases length : eqIgnoreCase name (ascii "content-length") with
  | false => simp [Except.isOk, Except.toBool]
  | true =>
      rw [isChunked_of_length length, Bool.or_false, Bool.and_true]
      cases p.chunked with
      | true => simp [Except.isOk, Except.toBool]
      | false =>
          cases stoi value with
          | error e => simp [Except.isOk, Except.toBool, Except.map]
          | ok n => simp [Except.isOk, Except.toBool, Except.map]

/-- What a line that is a field is stored as. -/
theorem stores_of_field {line title stored : Bytes} {p : HttpParser μ} (here : p.InHeader)
    (read : readHeader line = .field title stored) (name value : Bytes) :
    Stores line name value p ↔ LengthReadable title stored p ∧
      HttpMessage.addHeader title stored p.msg = HttpMessage.addHeader name value p.msg := by
  rw [Stores, HttpParser.parseHeader_eq, read, ← lengthAfter_isOk_iff]
  simp only
  rw [HttpParser.parseField_eq]
  cases lengthAfter (p.chunked || isChunked title stored) p.contentLen title stored with
  | error e => simp [Except.isOk, Except.toBool]
  | ok len =>
      constructor
      · rintro ⟨p', parsed, -, same⟩
        cases parsed
        exact ⟨rfl, same⟩
      · rintro ⟨-, same⟩
        exact ⟨_, rfl, ⟨here.state, here.going⟩, same⟩

/-- A line that is no field is not stored. -/
theorem not_stores {line : Bytes} {p : HttpParser μ}
    (other : ∀ title value, readHeader line ≠ .field title value) (name value : Bytes) :
    ¬Stores line name value p := by
  rintro ⟨p', parsed, here, -⟩
  rw [HttpParser.parseHeader_eq] at parsed
  cases read : readHeader line with
  | ends =>
      rw [read] at parsed
      cases parsed
      exact absurd here.state (by simp)
  | bad =>
      rw [read] at parsed
      cases parsed
      exact absurd here.going (by simp)
  | throws e =>
      rw [read] at parsed
      cases parsed
  | field title value => exact other title value read

/-- A message keeps what is stored in it. -/
def Keeps (μ : Type) [HttpMessage μ] : Prop :=
  ∀ (name value value' : Bytes) (msg : μ),
    HttpMessage.addHeader name value msg = HttpMessage.addHeader name value' msg → value = value'

/-- The lines whose value is stored. -/
theorem FieldLine.stores_iff {name pre value post : Bytes} (keeps : Keeps μ)
    (field : FieldLine name pre value post) {p : HttpParser μ} (here : p.InHeader) :
    Stores (fieldText name pre value post) name value p ↔
      (pre.length = 1 ∧ value ≠ [] ∧ post = []) ∧ LengthReadable name value p := by
  rw [← field.value_at_two]
  constructor
  · intro stores
    by_cases read : ∃ title stored,
        readHeader (fieldText name pre value post) = .field title stored
    · obtain ⟨title, stored, read⟩ := read
      obtain ⟨rfl, -⟩ := (field.readHeader_eq_field title stored).mp read
      obtain ⟨readable, same⟩ := (stores_of_field here read title value).mp stores
      have equal : stored = value := keeps title stored value p.msg same
      rw [equal] at read readable
      exact ⟨read, readable⟩
    · exact absurd stores
        (not_stores (fun title stored is_field => read ⟨title, stored, is_field⟩) name value)
  · rintro ⟨read, readable⟩
    exact (stores_of_field here read name value).mpr ⟨readable, rfl⟩

theorem head?_line (line : Bytes) :
    (line ++ kCRLF).head? = some 13 ↔ line = [] ∨ line.head? = some 13 := by
  cases line with
  | nil => exact iff_of_true rfl (Or.inl rfl)
  | cons c line => simp

/-- A line ends the headers when it is empty or begins with CR. -/
theorem endsHeaders_iff (line : Bytes) {p : HttpParser μ} (here : p.InHeader) :
    EndsHeaders line p ↔ line = [] ∨ line.head? = some 13 := by
  rw [← head?_line, EndsHeaders]
  constructor
  · rintro ⟨p', parsed, body⟩
    by_contra inside
    rw [HttpParser.parseHeader_eq] at parsed
    have other : readHeader line ≠ .ends := by
      rw [readHeader, if_neg inside]
      split <;> simp
    cases read : readHeader line with
    | ends => exact other read
    | bad =>
        rw [read] at parsed
        cases parsed
        exact absurd (here.state.symm.trans body) (by simp)
    | throws e =>
        rw [read] at parsed
        cases parsed
    | field title value =>
        rw [read] at parsed
        simp only at parsed
        rw [HttpParser.parseField_eq] at parsed
        split at parsed
        · cases parsed
        · cases parsed
          exact absurd (here.state.symm.trans body) (by simp)
  · intro ends
    refine ⟨{ p with parseState := .body }, ?_, rfl⟩
    rw [HttpParser.parseHeader, if_pos ends]
    rfl

end

theorem StrMap.assign_inj {key val val' : Bytes} {map : StrMap}
    (same : map.assign key val = map.assign key val') : val = val' := by
  have found := congrArg (StrMap.find key) same
  rw [StrMap.find, StrMap.find, StrMap.assign, StrMap.assign, OrderedMap.lookup_assign,
    OrderedMap.lookup_assign, if_pos rfl, if_pos rfl] at found
  exact Option.some.inj found

theorem HttpRequest.keeps : Keeps HttpRequest := fun _ _ _ _ same =>
  StrMap.assign_inj (congrArg HttpRequest.headers same)

theorem HttpResponse.keeps : Keeps HttpResponse := fun _ _ _ _ same =>
  StrMap.assign_inj (congrArg HttpResponse.headers same)

/-- **The grammar of header lines.** Both parsers store the value of a line under its name
just when one blank is before the value and none behind it, the value is not empty, and a
length that matters is a number. Only the empty line ends the headers, but for the lines
that begin with CR. -/
theorem header_line_grammar {name pre value post : Bytes} (field : FieldLine name pre value post)
    (line : Bytes) :
    ((∀ p : HttpParser HttpRequest, p.InHeader →
        (Stores (fieldText name pre value post) name value p ↔
          (pre.length = 1 ∧ value ≠ [] ∧ post = []) ∧ LengthReadable name value p)) ∧
      (∀ p : HttpParser HttpResponse, p.InHeader →
        (Stores (fieldText name pre value post) name value p ↔
          (pre.length = 1 ∧ value ≠ [] ∧ post = []) ∧ LengthReadable name value p))) ∧
    (∀ p : HttpParser HttpRequest, p.InHeader →
      ((EndsHeaders line p → line = []) ↔ line.head? ≠ some 13)) ∧
    (∀ p : HttpParser HttpResponse, p.InHeader →
      ((EndsHeaders line p → line = []) ↔ line.head? ≠ some 13)) := by
  have only_empty : (line = [] ∨ line.head? = some 13 → line = []) ↔ line.head? ≠ some 13 := by
    cases line with
    | nil => simp
    | cons c line => simp
  refine ⟨⟨fun p here => ?_, fun p here => ?_⟩, fun p here => ?_, fun p here => ?_⟩
  · exact field.stores_iff HttpRequest.keeps here
  · exact field.stores_iff HttpResponse.keeps here
  · rw [endsHeaders_iff line here]
    exact only_empty
  · rw [endsHeaders_iff line here]
    exact only_empty

/-- A parser at its first header. -/
def atHeader (req : HttpRequest) : HttpParser HttpRequest := { msg := req, parseState := .header }

theorem atHeader_inHeader (req : HttpRequest) : (atHeader req).InHeader := ⟨rfl, rfl⟩

/-- A header as clients write it is stored, and the empty line ends the section. -/
theorem one_blank_stored :
    Stores (fieldText (ascii "Host") [32] (ascii "a.b") []) (ascii "Host") (ascii "a.b")
      (atHeader (.new 0x11 false)) ∧
    (EndsHeaders [] (atHeader (.new 0x11 false)) → ([] : Bytes) = []) := by
  have field : FieldLine (ascii "Host") [32] (ascii "a.b") [] := by decide
  have here := atHeader_inHeader (.new 0x11 false)
  obtain ⟨⟨stores, -⟩, ends, -⟩ := header_line_grammar field []
  refine ⟨(stores _ here).mpr ⟨⟨rfl, by decide, rfl⟩, ?_⟩, (ends _ here).mpr (by decide)⟩
  exact Or.inr (Or.inl (by decide))

/-- Header lines that are not stored: without white space, with more of it than a blank
before the value, and with none but a blank. A line of CR and more ends the section. -/
theorem white_space_not_optional :
    (FieldLine (ascii "a") [] (ascii "b") [] ∧
      ¬Stores (ascii "a:b") (ascii "a") (ascii "b") (atHeader (.new 0x11 false))) ∧
    (FieldLine (ascii "a") [32, 9] (ascii "b") [] ∧
      ¬Stores (ascii "a: \tb") (ascii "a") (ascii "b") (atHeader (.new 0x11 false))) ∧
    (FieldLine (ascii "a") [32] (ascii "b") [32] ∧
      ¬Stores (ascii "a: b ") (ascii "a") (ascii "b") (atHeader (.new 0x11 false))) ∧
    (FieldLine (ascii "a") [32] [] [] ∧
      ¬Stores (ascii "a: ") (ascii "a") [] (atHeader (.new 0x11 false))) ∧
    EndsHeaders (ascii "\rfoo") (atHeader (.new 0x11 false)) := by
  have here := atHeader_inHeader (.new 0x11 false)
  have tight : FieldLine (ascii "a") [] (ascii "b") [] := by decide
  have wide : FieldLine (ascii "a") [32, 9] (ascii "b") [] := by decide
  have trailing : FieldLine (ascii "a") [32] (ascii "b") [32] := by decide
  have empty : FieldLine (ascii "a") [32] [] [] := by decide
  refine ⟨⟨tight, fun stores => ?_⟩, ⟨wide, fun stores => ?_⟩, ⟨trailing, fun stores => ?_⟩,
    ⟨empty, fun stores => ?_⟩, (endsHeaders_iff _ here).mpr (Or.inr (by decide))⟩
  · exact absurd ((tight.stores_iff HttpRequest.keeps here).mp stores).1.1 (by decide)
  · exact absurd ((wide.stores_iff HttpRequest.keeps here).mp stores).1.1 (by decide)
  · exact absurd ((trailing.stores_iff HttpRequest.keeps here).mp stores).1.2.2 (by decide)
  · exact absurd rfl ((empty.stores_iff HttpRequest.keeps here).mp stores).1.2.1

end Reyao.Http
