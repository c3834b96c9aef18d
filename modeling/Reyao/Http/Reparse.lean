import Reyao.Http.HeadEnd

/-!
# Dumping what was parsed

A request that `parseRequest` has made is dumped and parsed again. What the parser makes
can be taken apart again line by line (`Stored`), so the text is accepted unless its
framing stands in the way: `dump` writes the framing headers the request came with next to
the length it computes itself. `reparse_iff` says when the second parse gives the same
request.
-/

namespace Reyao.Http

open Lib

/-! ## Texts without a line end -/

/-- No line end: no CR has an LF behind it. -/
theorem oneLine_iff (s : Bytes) : OneLine s ↔ s.IsChain fun x y => ¬(x = 13 ∧ y = 10) := by
  rw [OneLine]
  induction s with
  | nil => exact iff_of_true rfl List.IsChain.nil
  | cons c s ih =>
      cases s with
      | nil => simp [search, kCRLF]
      | cons d s =>
          rw [search, List.isChain_cons_cons, ← ih]
          by_cases here : c = 13 ∧ d = 10
          · obtain ⟨rfl, rfl⟩ := here
            simp [kCRLF]
          · have inside : ¬(kCRLF.isPrefixOf (c :: d :: s) = true) := by
              simp only [kCRLF, List.isPrefixOf, Bool.and_eq_true, beq_iff_eq, and_true]
              exact fun both => here ⟨both.1.symm, both.2.symm⟩
            rw [if_neg inside, Option.map_eq_none_iff]
            exact (and_iff_right here).symm

theorem OneLine.part {s t : Bytes} (whole : OneLine s) (part : t <:+: s) : OneLine t := by
  obtain ⟨before, after, rfl⟩ := part
  rw [oneLine_iff] at whole ⊢
  exact whole.left_of_append.right_of_append

/-- Texts with a byte between them that belongs to no line end. -/
theorem OneLine.join {a b : Bytes} {c : UInt8} (first : OneLine a) (second : OneLine b)
    (other : c ≠ 13 ∧ c ≠ 10) : OneLine (a ++ c :: b) := by
  rw [oneLine_iff] at first second ⊢
  refine List.isChain_append.mpr ⟨first, ?_, ?_⟩
  · cases b with
    | nil => exact List.isChain_singleton _
    | cons d b => exact List.isChain_cons_cons.mpr ⟨fun both => other.1 both.1, second⟩
  · rintro x - y head ⟨-, rfl⟩
    rw [List.head?_cons, Option.mem_def, Option.some.injEq] at head
    exact other.2 head

/-- The text before the first line end has none. -/
theorem oneLine_take {q : Bytes} {n : Nat} (found : search kCRLF q = some n) :
    OneLine (q.take n) := by
  induction q generalizing n with
  | nil => cases found
  | cons c q ih =>
      rw [search] at found
      split at found
      · cases found
        rfl
      · rename_i inside
        obtain ⟨m, later, rfl⟩ := Option.map_eq_some_iff.mp found
        have rest := ih later
        rw [OneLine] at rest ⊢
        have inside' : ¬(kCRLF.isPrefixOf (c :: q.take m) = true) := by
          rw [List.isPrefixOf_iff_prefix] at inside ⊢
          exact fun front => inside (front.trans
            (List.cons_prefix_cons.mpr ⟨rfl, List.take_prefix m q⟩))
        rw [List.take_succ_cons, search, if_neg inside', rest]
        rfl

/-! ## What the parser makes -/

/-- A header that was taken from a line. -/
structure StoredField (e : Bytes × Bytes) : Prop where
  name_free : (58 : UInt8) ∉ e.1
  name_head : e.1.head? ≠ some 13
  name_whole : OneLine e.1
  value_ne_nil : e.2 ≠ []
  value_whole : OneLine e.2

/-- A request whose parts were taken from lines. -/
structure Stored (r : HttpRequest) : Prop extends Separable r where
  path_whole : OneLine r.path
  query_whole : OneLine r.query
  fragment_whole : OneLine r.fragment
  fields : ∀ e ∈ r.headers.entries, StoredField e

/-- A part of the target is a part of its text. -/
theorem withDelimiter_part {d : UInt8} {part : Option Bytes} {before after line : Bytes}
    (whole : line = before ++ (withDelimiter d part ++ after)) : part.getD [] <:+: line := by
  cases part with
  | none => exact ⟨[], line, rfl⟩
  | some part =>
      refine ⟨before ++ [d], after, ?_⟩
      rw [whole]
      simp [withDelimiter]

theorem stored_of_accepted {line : Bytes} {version : Nat} {keepAlive : Bool} {req : HttpRequest}
    (whole : OneLine line)
    (accepted : HttpRequest.parseFirstLine line (HttpRequest.new version keepAlive) = .ok true req) :
    Stored req := by
  obtain ⟨method, text, t, number, valid, is_line, known, rfl⟩ := withLine_of_accepted accepted
  have parts := is_line.parts
  have target_free := is_line.target_free
  simp only [Target.text, Target.main, List.mem_append, not_or] at target_free
  obtain ⟨-, ⟨path_free, query_free⟩, fragment_free⟩ := target_free
  -- no delimiter, no blank in the parts
  have inside : ∀ {d : UInt8} {part : Option Bytes}, (32 : UInt8) ∉ withDelimiter d part →
      (32 : UInt8) ∉ part.getD [] := by
    intro d part free
    cases part with
    | none => exact List.not_mem_nil
    | some part => exact fun member => free (List.mem_cons_of_mem _ member)
  have query_hash : (35 : UInt8) ∉ t.query.getD [] := by
    cases query : t.query with
    | none => exact List.not_mem_nil
    | some part => exact valid.query_free part query
  have version_known : number = 0x10 ∨ number = 0x11 := by
    rw [HttpRequest.versionOf] at known
    split at known
    · exact Or.inl (Option.some.inj known).symm
    · split at known
      · exact Or.inr (Option.some.inj known).symm
      · cases known
  refine ⟨⟨version_known, valid.path_slash, ?_, ?_, inside fragment_free⟩, whole.part ?_,
    whole.part ?_, whole.part ?_, fun e member => by cases member⟩
  · intro d member
    have cases : d = 32 ∨ d = 63 ∨ d = 35 := by
      simpa [ascii] using member
    rcases cases with rfl | rfl | rfl
    · exact path_free
    · exact valid.path_free.1
    · exact valid.path_free.2
  · intro d member
    have cases : d = 32 ∨ d = 35 := by
      simpa [ascii] using member
    rcases cases with rfl | rfl
    · exact inside query_free
    · exact query_hash
  · refine ⟨method ++ 32 :: t.pre,
      withDelimiter 63 t.query ++ withDelimiter 35 t.fragment ++ 32 :: text, ?_⟩
    rw [parts]
    simp [Target.text, Target.main, HttpRequest.withLine]
  · have query_part : line = method ++ 32 :: (t.pre ++ t.path) ++
        (withDelimiter 63 t.query ++ (withDelimiter 35 t.fragment ++ 32 :: text)) := by
      rw [parts]
      simp [Target.text, Target.main]
    exact withDelimiter_part query_part
  · have fragment_part : line = method ++ 32 :: (t.pre ++ (t.path ++ withDelimiter 63 t.query)) ++
        (withDelimiter 35 t.fragment ++ 32 :: text) := by
      rw [parts]
      simp [Target.text, Target.main]
    exact withDelimiter_part fragment_part

theorem storedField_of_read {line title value : Bytes} (whole : OneLine line)
    (read : readHeader line = .field title value) : StoredField (title, value) := by
  obtain ⟨c, rfl, free, head, some_value⟩ := readHeader_parts read
  refine ⟨free, ?_, whole.part ⟨[], _, rfl⟩, some_value, whole.part ⟨title ++ [58, c], [], ?_⟩⟩
  · cases title with
    | nil => simp
    | cons d title => exact head
  · simp

theorem Stored.addHeader {req : HttpRequest} (stored : Stored req) {title value : Bytes}
    (field : StoredField (title, value)) : Stored (req.addHeader title value) := by
  refine ⟨⟨stored.version, stored.path_slash, stored.path_free, stored.query_free,
    stored.fragment_free⟩, stored.path_whole, stored.query_whole, stored.fragment_whole, ?_⟩
  refine OrderedMap.forall_assign stored.fields field fun {k' v'} _ old => ?_
  exact ⟨old.name_free, old.name_head, old.name_whole, field.value_ne_nil, field.value_whole⟩

theorem Stored.setBody {req : HttpRequest} (stored : Stored req) (body : Bytes) :
    Stored { req with body := body } :=
  ⟨⟨stored.version, stored.path_slash, stored.path_free, stored.query_free,
    stored.fragment_free⟩, stored.path_whole, stored.query_whole, stored.fragment_whole,
    stored.fields⟩

/-- What a request is made of in each phase. -/
def Holding : Phase × HttpRequest → Prop
  | (.firstLine, req) => ∃ version keepAlive, req = HttpRequest.new version keepAlive
  | (_, req) => Stored req

/-- Every move keeps what the request is made of, and a request that is passed on is made
of lines. -/
def Keeping : Move (Phase × HttpRequest) (Ended HttpRequest) → Prop
  | .wait => True
  | .go s _ => Holding s
  | .stop r _ => r.outcome = .ok true → Stored r.msg

theorem byLine_keeping {q : Bytes}
    {move : Bytes → Nat → Move (Phase × HttpRequest) (Ended HttpRequest)}
    (keeping : ∀ line n, OneLine line → Keeping (move line n)) : Keeping (byLine q move) := by
  rcases byLine_cases q move with ⟨-, waits⟩ | ⟨n, found, -, moves⟩
  · rw [waits]
    trivial
  · rw [moves]
    exact keeping _ _ (oneLine_take found)

theorem advance_keeping {s : Phase × HttpRequest} (holding : Holding s) (q : Bytes) :
    Keeping (advance s q) := by
  obtain ⟨phase, req⟩ := s
  cases phase with
  | firstLine =>
      obtain ⟨version, keepAlive, rfl⟩ := holding
      refine byLine_keeping fun line n whole => ?_
      rw [afterFirstLine]
      cases parsed : HttpMessage.parseFirstLine line (HttpRequest.new version keepAlive) with
      | error e req => exact fun accepted => by cases accepted
      | ok good req =>
          cases good with
          | false => exact fun accepted => by cases accepted
          | true => exact stored_of_accepted whole parsed
  | headers chunked contentLen =>
      refine byLine_keeping fun line n whole => ?_
      rw [afterHeader]
      cases read : readHeader line with
      | ends =>
          cases chunked with
          | false => exact holding
          | true => exact holding
      | bad => exact fun accepted => by cases accepted
      | throws e => exact fun accepted => by cases accepted
      | field title value =>
          simp only
          cases lengthAfter (chunked || isChunked title value) contentLen title value with
          | error e => exact fun accepted => by cases accepted
          | ok len => exact Stored.addHeader holding (storedField_of_read whole read)
  | fixedBody len =>
      have stored : Stored req := holding
      rw [advance]
      split
      · exact fun _ => stored
      · split
        · exact fun _ => stored.setBody _
        · trivial
  | chunkHead body =>
      have stored : Stored req := holding
      refine byLine_keeping fun line n whole => ?_
      simp only [afterChunkHead]
      split
      · exact fun accepted => by cases accepted
      · split
        · exact fun _ => stored.setBody _
        · exact stored
  | chunkData size body =>
      have stored : Stored req := holding
      simp only [advance]
      split
      · exact stored
      · trivial

/-- A request that was parsed is made of lines. -/
theorem stored_of_settles {version : Nat} {keepAlive : Bool} {q left : Bytes} {r : HttpRequest}
    (settles : Settles (machine HttpRequest) (.firstLine, HttpRequest.new version keepAlive) q
      (.stopped ⟨.ok true, r⟩) left) : Stored r := by
  have start : Holding (.firstLine, HttpRequest.new version keepAlive) :=
    ⟨version, keepAlive, rfl⟩
  refine Settles.holds (I := Holding) (J := fun r => r.outcome = .ok true → Stored r.msg)
    (fun {s s' q n} holding moved => ?_) (fun {s q r n} holding moved => ?_) start settles rfl
  · have keeping := advance_keeping holding q
    rwa [show advance s q = .go s' n from moved] at keeping
  · have keeping := advance_keeping holding q
    rwa [show advance s q = .stop r n from moved] at keeping

/-! ## The lines of the text -/

/-- A header as `dump` writes it. -/
def lineOf (e : Bytes × Bytes) : Bytes := e.1 ++ 58 :: 32 :: e.2

/-- The headers `dump` writes: one of its own for the connection, those of the request but
for such ones, and the length of the body. -/
def dumpFields (r : HttpRequest) : List (Bytes × Bytes) :=
  (ascii "connection", if r.keepAlive then ascii "keep-alive" else ascii "close") ::
    (r.headers.entries.filter (fun e => !eqIgnoreCase e.1 (ascii "connection")) ++ lengthField r)

theorem headerLines_eq (fields : List (Bytes × Bytes)) :
    headerLines fields = joinLines (fields.map lineOf) := by
  induction fields with
  | nil => rfl
  | cons e fields ih =>
      rw [headerLines_cons, headerLine_append, ih, List.map_cons]
      rfl

theorem headerLines_append (front back : List (Bytes × Bytes)) :
    headerLines (front ++ back) = headerLines front ++ headerLines back := List.flatMap_append

theorem headerLines_filter (fields : List (Bytes × Bytes)) :
    (fields.flatMap fun entry => if eqIgnoreCase entry.1 (ascii "connection") then []
      else HttpRequest.headerLine entry.1 entry.2) =
      headerLines (fields.filter fun e => !eqIgnoreCase e.1 (ascii "connection")) := by
  induction fields with
  | nil => rfl
  | cons e fields ih =>
      rw [List.flatMap_cons, ih, List.filter_cons]
      cases eqIgnoreCase e.1 (ascii "connection") with
      | false => rfl
      | true => rfl

/-- The text of any request is a head and a body. -/
theorem dump_eq_requestText (r : HttpRequest) :
    r.dump = requestText r.firstLine ((dumpFields r).map lineOf) r.body := by
  rw [HttpRequest.dump, headerLines_filter, bodyText_eq, requestText, ← headerLines_eq, dumpFields,
    headerLines_cons, headerLines_append, lengthField]
  simp only [List.append_assoc]
  rfl

theorem StoredField.lineOf_whole {e : Bytes × Bytes} (field : StoredField e) :
    OneLine (lineOf e) := by
  have blank : OneLine (32 :: e.2) :=
    OneLine.join (a := []) (c := 32) rfl field.value_whole (by decide)
  exact field.name_whole.join blank (by decide)

theorem StoredField.readHeader_eq {e : Bytes × Bytes} (field : StoredField e) :
    readHeader (lineOf e) = .field e.1 e.2 :=
  readHeader_of_parts field.name_free field.name_head field.value_ne_nil 32

variable {r : HttpRequest}

theorem Stored.dumpFields_stored (stored : Stored r) : ∀ e ∈ dumpFields r, StoredField e := by
  intro e member
  rw [dumpFields, List.mem_cons, List.mem_append] at member
  rcases member with rfl | own | length
  · cases r.keepAlive with
    | true => exact ⟨by decide, by decide, by decide, by decide, by decide⟩
    | false => exact ⟨by decide, by decide, by decide, by decide, by decide⟩
  · exact stored.fields e (List.mem_of_mem_filter own)
  · rw [lengthField] at length
    split at length
    · cases length
    · rw [List.mem_singleton] at length
      rw [length]
      have name : (58 : UInt8) ∉ ascii "content-length" ∧
          (ascii "content-length").head? ≠ some 13 ∧ OneLine (ascii "content-length") := by decide
      exact ⟨name.1, name.2.1, name.2.2, showNat_ne_nil _, search_free (cr_not_mem_showNat _)⟩

theorem Stored.firstLine_whole (stored : Stored r) : OneLine r.firstLine := by
  have method : OneLine (HttpMethodToString r.method) := by
    cases r.method <;> decide
  have version : OneLine r.versionText := by
    rw [HttpRequest.versionText]
    split <;> decide
  have part : ∀ {front s : Bytes} {d : UInt8}, OneLine front → OneLine s → d ≠ 13 ∧ d ≠ 10 →
      OneLine (front ++ if s = [] then [] else d :: s) := by
    intro front s d first second other
    split
    · rwa [List.append_nil]
    · exact first.join second other
  have uri : OneLine r.uri :=
    part (part stored.path_whole stored.query_whole (by decide)) stored.fragment_whole (by decide)
  rw [stored.toSeparable.firstLine_eq]
  exact method.join (uri.join version (by decide)) (by decide)

theorem Separable.isRequestLine (sep : Separable r) : isRequestLine r.firstLine = true := by
  obtain ⟨req, accepts⟩ := HttpRequest.parseFirstLine_accepts r.firstLine (.new 0x11 false)
  rw [sep.parseFirstLine_eq] at accepts
  injection accepts with same
  exact same.symm

/-! ## The framing of the text -/

section

variable {fields : List (Bytes × Bytes)} {e : Bytes × Bytes}

theorem StoredField.headEnd_cons (field : StoredField e) (chunked : Bool) (len : Nat)
    (lines : List Bytes) :
    headEnd chunked len (lineOf e :: lines) =
      match lengthAfter (chunked || isChunked e.1 e.2) len e.1 e.2 with
      | .error fault => .throws fault
      | .ok len' => headEnd (chunked || isChunked e.1 e.2) len' lines := by
  cases length : lengthAfter (chunked || isChunked e.1 e.2) len e.1 e.2 with
  | error fault => simp only [headEnd, field.readHeader_eq, length]
  | ok len' => simp only [headEnd, field.readHeader_eq, length]

/-- A text of headers alone leads to a chunked body just when one of them announces it. -/
theorem headEnd_chunked (stored : ∀ e ∈ fields, StoredField e) {chunked chunked' : Bool}
    {len len' : Nat} {before : Bytes}
    (ends : headEnd chunked len (fields.map lineOf) = .body chunked' len' before) :
    chunked' = (chunked || fields.any fun e => isChunked e.1 e.2) ∧ before = [] := by
  induction fields generalizing chunked len with
  | nil =>
      cases ends
      exact ⟨(Bool.or_false _).symm, rfl⟩
  | cons e fields ih =>
      obtain ⟨field, stored⟩ := List.forall_mem_cons.mp stored
      rw [List.map_cons, field.headEnd_cons] at ends
      split at ends
      · cases ends
      · obtain ⟨chunks, whole⟩ := ih stored ends
        rw [chunks, List.any_cons, Bool.or_assoc]
        exact ⟨rfl, whole⟩

/-- The length a list of headers sets, none of which announces chunks. -/
def sentLength : Nat → List (Bytes × Bytes) → Except Fault Nat
  | len, [] => .ok len
  | len, e :: fields =>
      match lengthAfter false len e.1 e.2 with
      | .error fault => .error fault
      | .ok len => sentLength len fields

theorem headEnd_sentLength (stored : ∀ e ∈ fields, StoredField e)
    (plain : ∀ e ∈ fields, isChunked e.1 e.2 = false) (len : Nat) :
    headEnd false len (fields.map lineOf) =
      match sentLength len fields with
      | .error fault => .throws fault
      | .ok len' => .body false len' [] := by
  induction fields generalizing len with
  | nil => rfl
  | cons e fields ih =>
      obtain ⟨field, stored⟩ := List.forall_mem_cons.mp stored
      obtain ⟨no_chunks, plain⟩ := List.forall_mem_cons.mp plain
      rw [List.map_cons, field.headEnd_cons, no_chunks, Bool.or_false, sentLength]
      cases lengthAfter false len e.1 e.2 with
      | error fault => rfl
      | ok len' => exact ih stored plain len'

theorem sentLength_append (len : Nat) (front back : List (Bytes × Bytes)) :
    sentLength len (front ++ back) =
      match sentLength len front with
      | .error fault => .error fault
      | .ok len' => sentLength len' back := by
  induction front generalizing len with
  | nil => rfl
  | cons e front ih =>
      rw [List.cons_append, sentLength, sentLength]
      cases lengthAfter false len e.1 e.2 with
      | error fault => rfl
      | ok len' => exact ih len'

theorem sentLength_other (other : ∀ e ∈ fields, caseKey e.1 ≠ caseKey (ascii "content-length"))
    (len : Nat) : sentLength len fields = .ok len := by
  induction fields with
  | nil => rfl
  | cons e fields ih =>
      obtain ⟨here, other⟩ := List.forall_mem_cons.mp other
      rw [sentLength, lengthAfter_of_ne here]
      exact ih other

theorem not_connection {name other : Bytes} (same : caseKey name = caseKey other)
    (different : caseKey other ≠ caseKey (ascii "connection")) :
    eqIgnoreCase name (ascii "connection") = false := by
  refine Bool.eq_false_of_not_eq_true fun connection => different ?_
  rw [← same]
  exact (eqIgnoreCase_iff _ _).mp connection

/-- The length that the headers of a map set is the one they hold. -/
theorem sentLength_map (map : StrMap) (len : Nat) :
    sentLength len
        (map.entries.filter fun e => !eqIgnoreCase e.1 (ascii "connection")) =
      match map.find (ascii "content-length") with
      | none => .ok len
      | some value => (stoi value).map toSize := by
  obtain ⟨entries, sorted⟩ := map
  rw [StrMap.find]
  induction entries with
  | nil => rfl
  | cons e entries ih =>
      obtain ⟨least, tail⟩ := List.pairwise_cons.mp sorted
      have ih := ih tail
      rw [List.filter_cons, OrderedMap.lookup_cons]
      by_cases same : caseKey e.1 = caseKey (ascii "content-length")
      · have kept := not_connection same (by decide)
        have due : (!false && eqIgnoreCase e.1 (ascii "content-length")) = true := by
          rw [(eqIgnoreCase_iff _ _).mpr same]
          rfl
        have later : ∀ e' ∈ entries.filter (fun e => !eqIgnoreCase e.1 (ascii "connection")),
            caseKey e'.1 ≠ caseKey (ascii "content-length") := by
          intro e' member equal
          have less := least e' (List.mem_of_mem_filter member)
          rw [same, equal] at less
          exact lt_irrefl _ less
        rw [kept, if_pos same, Bool.not_false, if_pos rfl]
        rw [sentLength, lengthAfter, if_pos due]
        simp only
        cases stoi e.2 with
        | error fault => rfl
        | ok n => exact sentLength_other later (toSize n)
      · rw [if_neg same]
        cases eqIgnoreCase e.1 (ascii "connection") with
        | true => exact ih
        | false =>
            rw [Bool.not_false, if_pos rfl, sentLength, lengthAfter_of_ne same]
            exact ih

end

/-! ## The body of the text -/

/-- The chunks read so far. -/
def chunksRead : Phase × HttpRequest → Option Bytes
  | (.chunkHead body, _) => some body
  | (.chunkData _ body, _) => some body
  | _ => none

/-- A move in a chunked body reads no more than it takes, and less when it ends the body. -/
def Chunks (body : Bytes) : Move (Phase × HttpRequest) (Ended HttpRequest) → Prop
  | .wait => True
  | .go s n => ∃ body', chunksRead s = some body' ∧ body'.length ≤ body.length + n
  | .stop r n => r.outcome = .ok true → r.msg.body.length + 1 ≤ body.length + n

theorem advance_chunks {s : Phase × HttpRequest} {body : Bytes} (inside : chunksRead s = some body)
    (q : Bytes) : Chunks body (advance s q) := by
  obtain ⟨phase, req⟩ := s
  cases phase with
  | firstLine => cases inside
  | headers chunked contentLen => cases inside
  | fixedBody len => cases inside
  | chunkHead body =>
      cases inside
      rcases byLine_cases q (afterChunkHead body req) with ⟨-, waits⟩ | ⟨n, -, -, moves⟩
      · rw [show advance (.chunkHead body, req) q = .wait from waits]
        trivial
      · rw [show advance (.chunkHead body, req) q = _ from moves, afterChunkHead]
        split
        · exact fun accepted => by cases accepted
        · split
          · intro _
            change body.length + 1 ≤ body.length + (n + 2)
            omega
          · exact ⟨body, rfl, Nat.le_add_right _ _⟩
  | chunkData size body =>
      cases inside
      simp only [advance]
      split
      · refine ⟨_, rfl, ?_⟩
        rw [List.length_append]
        exact Nat.add_le_add_left (List.length_take_le _ _) _
      · trivial

/-- A chunked body is shorter than what it was read from. -/
theorem chunks_shorter {req r' : HttpRequest} {q left : Bytes}
    (settles : Settles (machine HttpRequest) (.chunkHead [], req) q (.stopped ⟨.ok true, r'⟩) left) :
    r'.body.length < q.length := by
  let spent : Phase × HttpRequest → Nat := fun s => ((chunksRead s).getD []).length
  let gained : Ended HttpRequest → Nat := fun r =>
    if r.outcome = .ok true then r.msg.body.length + 1 else 0
  have goes : ∀ {s s' : Phase × HttpRequest} {q : Bytes} {n : Nat},
      (∃ body, chunksRead s = some body) → (machine HttpRequest).step s q = .go s' n →
      (∃ body, chunksRead s' = some body) ∧ spent s' ≤ spent s + n := by
    rintro s s' q n ⟨body, inside⟩ moved
    have chunks := advance_chunks inside q
    rw [show advance s q = .go s' n from moved] at chunks
    obtain ⟨body', later, longer⟩ := chunks
    simp only [spent, inside, later]
    exact ⟨⟨body', rfl⟩, longer⟩
  have stops : ∀ {s : Phase × HttpRequest} {q : Bytes} {r : Ended HttpRequest} {n : Nat},
      (∃ body, chunksRead s = some body) → (machine HttpRequest).step s q = .stop r n →
      gained r ≤ spent s + n := by
    rintro s q r n ⟨body, inside⟩ moved
    have chunks := advance_chunks inside q
    rw [show advance s q = .stop r n from moved] at chunks
    simp only [spent, gained, inside]
    split
    · exact chunks ‹_›
    · exact Nat.zero_le _
  have paid := Settles.paid goes stops ⟨[], rfl⟩ settles
  simp only [spent, gained, chunksRead, Option.getD_some, List.length_nil, if_true] at paid
  omega

/-- The headers and the body of a request frame the text `dump` makes of it: the transfer
encoding it came with is not chunked, a length it came with is a number, zero if there is no
body, and the length of the body is an `int`. -/
structure Reframes (r : HttpRequest) : Prop where
  plain : ∀ value, r.headers.find (ascii "transfer-encoding") = some value →
    eqIgnoreCase value (ascii "chunked") = false
  length : ∀ value, r.headers.find (ascii "content-length") = some value →
    ∃ n, stoi value = .ok n ∧ (r.body = [] → n = 0)
  small : r.body.length < 2 ^ 31

/-- Two requests that agree but for their headers. -/
structure SameRequest (r r' : HttpRequest) : Prop where
  method : r'.method = r.method
  version : r'.version = r.version
  path : r'.path = r.path
  query : r'.query = r.query
  fragment : r'.fragment = r.fragment
  body : r'.body = r.body

/-- A header announces chunks in the text just when it does so in the request. -/
theorem any_isChunked (r : HttpRequest) :
    ((dumpFields r).any fun e => isChunked e.1 e.2) = false ↔
      ∀ value, r.headers.find (ascii "transfer-encoding") = some value →
        eqIgnoreCase value (ascii "chunked") = false := by
  have other : ∀ {name : Bytes}, eqIgnoreCase name (ascii "transfer-encoding") = false →
      ∀ value, isChunked name value = false := by
    intro name different value
    rw [isChunked, different, Bool.false_and]
  have length : (lengthField r).any (fun e => isChunked e.1 e.2) = false := by
    rw [lengthField]
    split
    · rfl
    · rw [List.any_cons, List.any_nil, other (show eqIgnoreCase (ascii "content-length")
        (ascii "transfer-encoding") = false by decide)]
      rfl
  rw [dumpFields, List.any_cons, List.any_append, length, other (show eqIgnoreCase
    (ascii "connection") (ascii "transfer-encoding") = false by decide), Bool.false_or,
    Bool.or_false, List.any_eq_false]
  constructor
  · intro none_chunked value found
    obtain ⟨e, member, same, rfl⟩ := r.headers.sorted.lookup_eq_some_iff.mp found
    refine Bool.eq_false_of_not_eq_true fun chunked => ?_
    refine none_chunked e (List.mem_filter.mpr ⟨member, ?_⟩) ?_
    · rw [not_connection same (by decide)]
      rfl
    · rw [isChunked, (eqIgnoreCase_iff _ _).mpr same, chunked]
      rfl
  · intro plain e member chunked
    rw [isChunked, Bool.and_eq_true] at chunked
    have found := r.headers.sorted.lookup_mem (List.mem_of_mem_filter member)
      ((eqIgnoreCase_iff _ _).mp chunked.1)
    rw [plain e.2 found] at chunked
    exact Bool.false_ne_true chunked.2

/-- The length the text announces. -/
theorem sentLength_dumpFields (r : HttpRequest) :
    sentLength 0 (dumpFields r) = .ok r.body.length ↔
      (∀ value, r.headers.find (ascii "content-length") = some value →
        ∃ n, stoi value = .ok n ∧ (r.body = [] → n = 0)) ∧ r.body.length < 2 ^ 31 := by
  have own : sentLength 0 (dumpFields r) =
      match sentLength 0 (r.headers.entries.filter fun e =>
        !eqIgnoreCase e.1 (ascii "connection")) with
      | .error fault => .error fault
      | .ok len => sentLength len (lengthField r) := by
    rw [dumpFields, sentLength, lengthAfter_of_ne (show caseKey (ascii "connection") ≠
      caseKey (ascii "content-length") by decide)]
    exact sentLength_append 0 _ _
  -- the length of the body comes last
  have last : ∀ len, sentLength len (lengthField r) = .ok r.body.length ↔
      (r.body = [] → len = 0) ∧ r.body.length < 2 ^ 31 := by
    intro len
    by_cases empty : r.body = []
    · rw [lengthField, if_pos empty, empty]
      change Except.ok len = .ok 0 ↔ _
      simp
    · rw [lengthField_eq empty, sentLength, lengthAfter,
        if_pos (show (!false && eqIgnoreCase (ascii "content-length") (ascii "content-length")) =
          true by decide), stoi_showNat]
      by_cases small : r.body.length < 2 ^ 31
      · rw [if_pos small]
        have size : toSize (r.body.length : Int) = r.body.length := toSize_natCast (by omega)
        change sentLength (toSize r.body.length) [] = _ ↔ _
        rw [size]
        exact iff_of_true rfl ⟨fun none => absurd none empty, small⟩
      · rw [if_neg small]
        exact iff_of_false (fun same => by cases same) fun both => small both.2
  rw [own, sentLength_map]
  cases r.headers.find (ascii "content-length") with
  | none =>
      simp only
      rw [last]
      simp
  | some value =>
      simp only
      cases number : stoi value with
      | error fault => simp [Except.map, number]
      | ok n =>
          have range := stoi_range number
          have zero : toSize n = 0 ↔ n = 0 := by
            rw [toSize]
            omega
          change sentLength (toSize n) (lengthField r) = _ ↔ _
          rw [last, zero]
          simp [number]

/-- The text of a request leads where its headers say, to a request that agrees with it. -/
theorem Stored.leads (stored : Stored r) (version : Nat) (keepAlive : Bool) :
    (headEnd false 0 ((dumpFields r).map lineOf)).Leads (SameRequest { r with body := [] })
      (.firstLine, .new version keepAlive) r.dump r.body := by
  have fields := stored.dumpFields_stored
  have whole : ∀ line ∈ (dumpFields r).map lineOf, OneLine line := by
    intro line member
    obtain ⟨e, inside, rfl⟩ := List.mem_map.mp member
    exact (fields e inside).lineOf_whole
  have leads : (requestEnd _ _).Leads _ (_, HttpRequest.new version keepAlive) _ _ :=
    settles_requestEnd (I := SameRequest { r with body := [] })
    (fun _ _ _ same => ⟨same.method, same.version, same.path, same.query, same.fragment, same.body⟩)
    stored.firstLine_whole whole
    (fun req accepted => by
      rw [stored.toSeparable.parseFirstLine_eq] at accepted
      injection accepted with _ same
      rw [← same]
      exact ⟨rfl, rfl, rfl, rfl, rfl, rfl⟩) r.body
  rw [requestEnd, stored.toSeparable.isRequestLine, if_pos rfl] at leads
  rw [dump_eq_requestText]
  exact leads

/-- The text of `r` is parsed to a request that agrees with it. -/
def Reparses (r : HttpRequest) (version : Nat) (keepAlive : Bool) : Prop :=
  ∃ r', (∃ left, Settles (machine HttpRequest) (.firstLine, .new version keepAlive) r.dump
    (.stopped ⟨.ok true, r'⟩) left) ∧ SameRequest r r'

/-- A text that announces chunks is not parsed to the same request: the body would be read
in chunks, and come out shorter. -/
theorem Stored.not_reparses (stored : Stored r) (version : Nat) (keepAlive : Bool)
    (announced : ((dumpFields r).any fun e => isChunked e.1 e.2) = true) :
    ¬Reparses r version keepAlive := by
  rintro ⟨r', ⟨left, settles⟩, same⟩
  have leads := stored.leads version keepAlive
  cases ends : headEnd false 0 ((dumpFields r).map lineOf) with
  | refused =>
      rw [ends] at leads
      obtain ⟨msg, left', settles'⟩ := leads
      cases (settles.unique settles').1
  | throws e =>
      rw [ends] at leads
      obtain ⟨msg, left', settles'⟩ := leads
      cases (settles.unique settles').1
  | body chunked len before =>
      obtain ⟨rfl, rfl⟩ := headEnd_chunked stored.dumpFields_stored ends
      rw [ends, announced, Bool.or_true] at leads
      obtain ⟨msg, -, through⟩ := leads
      have shorter := chunks_shorter ((through _ _).mpr settles)
      rw [same.body] at shorter
      exact lt_irrefl _ shorter

/-- A text that announces no chunks is parsed to the same request if it announces the
length of the body. -/
theorem Stored.reparses_iff (stored : Stored r) (version : Nat) (keepAlive : Bool)
    (plain : ((dumpFields r).any fun e => isChunked e.1 e.2) = false) :
    Reparses r version keepAlive ↔ sentLength 0 (dumpFields r) = .ok r.body.length := by
  have leads := stored.leads version keepAlive
  rw [List.any_eq_false] at plain
  rw [headEnd_sentLength stored.dumpFields_stored fun e member =>
    Bool.eq_false_of_not_eq_true (plain e member)] at leads
  cases framing : sentLength 0 (dumpFields r) with
  | error fault =>
      rw [framing] at leads
      obtain ⟨msg, left, settles⟩ := leads
      refine iff_of_false ?_ (fun same => by cases same)
      rintro ⟨r', ⟨left', settles'⟩, -⟩
      cases (settles.unique settles').1
  | ok len =>
      rw [framing] at leads
      obtain ⟨msg, same, through⟩ := leads
      rw [Except.ok.injEq]
      rcases settles_fixedBody len (show msg.body = [] from same.body) r.body with
        ⟨enough, settles⟩ | ⟨short, settles⟩
      · have whole := (through _ _).mp settles
        constructor
        · rintro ⟨r', ⟨left', settles'⟩, agrees⟩
          cases (whole.unique settles').1
          have lengths := congrArg List.length agrees.body
          rw [List.length_take] at lengths
          omega
        · rintro rfl
          refine ⟨_, ⟨_, whole⟩, same.method, same.version, same.path, same.query, same.fragment, ?_⟩
          exact List.take_length
      · have whole := (through _ _).mp settles
        refine iff_of_false ?_ (by omega)
        rintro ⟨r', ⟨left', settles'⟩, -⟩
        cases (whole.unique settles').1

/-- **Dumping what was parsed.** A request that was parsed, from any stream and however it
was cut, is dumped to a text that is parsed to the same request, exactly when the framing
headers it came with are those of the text. -/
theorem reparse_iff {version version' : Nat} {keepAlive keepAlive' : Bool}
    {reads reads' : List (Read 4096)}
    (accepted : parsed (parseRequest (.ofReads reads) (.new version keepAlive)) = (.ok true, r))
    (carried : bytesOf reads' = r.dump) :
    (∃ r', parsed (parseRequest (.ofReads reads') (.new version' keepAlive')) = (.ok true, r') ∧
      SameRequest r r') ↔ Reframes r := by
  obtain ⟨left, settles⟩ := parsed_true_iff.mp accepted
  have stored := stored_of_settles settles
  simp only [parsed_true_iff, carried]
  change Reparses r version' keepAlive' ↔ _
  cases announced : (dumpFields r).any fun e => isChunked e.1 e.2 with
  | true =>
      refine iff_of_false (stored.not_reparses _ _ announced) fun reframes => ?_
      rw [(any_isChunked r).mpr reframes.plain] at announced
      cases announced
  | false =>
      have plain := (any_isChunked r).mp announced
      rw [stored.reparses_iff _ _ announced, sentLength_dumpFields]
      exact ⟨fun both => ⟨plain, both.1, both.2⟩, fun reframes => ⟨reframes.length, reframes.small⟩⟩

/-- A form, as a client sends it. -/
def formRead : Read 4096 :=
  ⟨ascii "POST /a HTTP/1.1\r\nContent-Length: 3\r\n\r\nx=1", by decide, by decide⟩

/-- What it is parsed to. -/
def formRequest : HttpRequest :=
  { HttpRequest.new 0x11 false with
    method := .POST
    path := ascii "/a"
    headers := ⟨[(ascii "Content-Length", ascii "3")], List.pairwise_singleton _ _⟩
    body := ascii "x=1" }

theorem form_reparsed :
    parsed (parseRequest (.ofReads [formRead]) (.new 0x11 false)) = (.ok true, formRequest) ∧
    ∃ r', parsed (parseRequest (.ofReads [⟨formRequest.dump, by decide, by decide⟩])
      (.new 0x11 false)) = (.ok true, r') ∧ SameRequest formRequest r' := by
  have accepted : parsed (parseRequest (.ofReads [formRead]) (.new 0x11 false)) =
      (.ok true, formRequest) := by decide +kernel
  refine ⟨accepted, (reparse_iff accepted (by decide)).mpr ⟨?_, ?_, by decide⟩⟩
  · intro value found
    cases found
  · intro value found
    cases found
    exact ⟨3, by decide, fun empty => absurd empty (by decide)⟩

/-- The same form in one chunk. -/
def chunkedRead : Read 4096 :=
  ⟨ascii "POST /a HTTP/1.1\r\nTransfer-Encoding: chunked\r\n\r\n3\r\nx=1\r\n0\r\n\r\n",
    by decide, by decide⟩

/-- What it is parsed to, with the line end behind its chunk. -/
def chunkedRequest : HttpRequest :=
  { HttpRequest.new 0x11 false with
    method := .POST
    path := ascii "/a"
    headers := ⟨[(ascii "Transfer-Encoding", ascii "chunked")], List.pairwise_singleton _ _⟩
    body := ascii "x=1\r\n" }

/-- The text of a request that came in chunks announces chunks, and is refused. -/
theorem chunked_not_reparsed :
    parsed (parseRequest (.ofReads [chunkedRead]) (.new 0x11 false)) = (.ok true, chunkedRequest) ∧
    ¬∃ r', parsed (parseRequest (.ofReads [⟨chunkedRequest.dump, by decide, by decide⟩])
      (.new 0x11 false)) = (.ok true, r') ∧ SameRequest chunkedRequest r' := by
  refine ⟨by decide +kernel, ?_⟩
  have refused : (parsed (parseRequest (.ofReads [⟨chunkedRequest.dump, by decide, by decide⟩])
      (.new 0x11 false))).1 = .ok false := by decide +kernel
  rintro ⟨r', accepted, -⟩
  rw [accepted] at refused
  cases refused

end Reyao.Http
