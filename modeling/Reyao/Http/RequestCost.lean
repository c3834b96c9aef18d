import Reyao.Http.RequestText

/-!
# What a request costs

A request that was parsed cannot be larger than the text it was parsed from.
`worth` measures a request by the text `dump` would make of it, and every move of
the machine takes at least as many bytes as it adds to the worth of the message
(`settles_worth`).
-/

namespace Reyao.Http

open Lib

/-- The bytes a method takes in a first line, at least. -/
def methodWorth : HttpMethod → Nat
  | .GET => 3
  | .HEAD => 4
  | .POST => 4
  | .INVALID_METHOD => 0

/-- The bytes a part of the target takes with its delimiter. -/
def partWorth (part : Bytes) : Nat := if part = [] then 0 else part.length + 1

/-- The bytes a header takes. -/
def fieldWorth (e : Bytes × Bytes) : Nat := e.1.length + e.2.length + 4

/-- The bytes of a first line. -/
def lineWorth (r : HttpRequest) : Nat :=
  methodWorth r.method + 1 + (r.path.length + partWorth r.query + partWorth r.fragment) + 9

def headersWorth (r : HttpRequest) : Nat := OrderedMap.weight fieldWorth r.headers.entries

def worth (r : HttpRequest) : Nat :=
  lineWorth r + 2 + headersWorth r + 2 + r.body.length

/-! ## The first line -/

theorem methodWorth_le (s : Bytes) : methodWorth (StringToHttpMethod s) ≤ s.length := by
  have short : (cstr s).length ≤ s.length := (List.takeWhile_sublist _).length_le
  rw [StringToHttpMethod]
  split
  · rename_i get
    rw [get] at short
    exact short
  · split
    · rename_i head
      rw [head] at short
      exact short
    · split
      · rename_i post
        rw [post] at short
        exact short
      · exact Nat.zero_le _

/-- A delimiter that occurs cuts a string in two. -/
theorem length_cut {d : UInt8} {s after : Bytes} {c : UInt8}
    (cut : s.dropWhile (· ≠ d) = c :: after) :
    s.length = (s.takeWhile (· ≠ d)).length + 1 + after.length := by
  have whole := congrArg List.length (List.takeWhile_append_dropWhile (p := (· ≠ d)) (l := s))
  rw [List.length_append, cut, List.length_cons] at whole
  omega

/-- Cutting a target that begins with a slash keeps the slash, and the parts have
room in the target. -/
theorem parseURI_worth (rest : Bytes) {des : UInt8} (other : (47 : UInt8) ≠ des) :
    ∃ rest', (HttpRequest.parseURI (47 :: rest) des).1 = 47 :: rest' ∧
      rest'.length + partWorth ((HttpRequest.parseURI (47 :: rest) des).2.getD []) ≤
        rest.length := by
  have kept : (47 :: rest).takeWhile (· ≠ des) = 47 :: rest.takeWhile (· ≠ des) :=
    List.takeWhile_cons_of_pos (decide_eq_true other)
  rw [HttpRequest.parseURI]
  cases cut : (47 :: rest).dropWhile (· ≠ des) with
  | nil => exact ⟨rest, rfl, le_refl _⟩
  | cons c after =>
      refine ⟨rest.takeWhile (· ≠ des), kept, ?_⟩
      have length := length_cut cut
      rw [kept, List.length_cons, List.length_cons] at length
      change _ + partWorth after ≤ _
      rw [partWorth]
      split <;> omega

theorem versionOf_length {text : Bytes} {version : Nat}
    (known : HttpRequest.versionOf text = some version) : text.length = 8 := by
  rw [HttpRequest.versionOf] at known
  split at known
  · rename_i is10
    rw [is10]
    rfl
  · split at known
    · rename_i is11
      rw [is11]
      rfl
    · cases known

theorem slash_or_nil (s : Bytes) :
    (∃ target, s.dropWhile (· ≠ 47) = 47 :: target) ∨ s.dropWhile (· ≠ 47) = [] := by
  cases cut : s.dropWhile (· ≠ 47) with
  | nil => exact Or.inr rfl
  | cons c target =>
      have stops := List.head?_dropWhile_not (· ≠ (47 : UInt8)) s
      rw [cut] at stops
      have slash : c = 47 := of_not_not (of_decide_eq_false stops)
      exact Or.inl ⟨target, by rw [slash]⟩

/-- A first line that is accepted pays for what it sets. -/
theorem parseFirstLine_worth {line : Bytes} {msg : HttpRequest}
    (parsed : HttpRequest.parseFirstLine line (HttpRequest.new 0x11 false) = .ok true msg) :
    lineWorth msg ≤ line.length ∧ msg.headers = .empty ∧ msg.body = [] := by
  rw [HttpRequest.parseFirstLine] at parsed
  cases methodCut : line.dropWhile (· ≠ 32) with
  | nil =>
      rw [methodCut] at parsed
      cases parsed
  | cons c rest =>
      rw [methodCut] at parsed
      cases uriCut : rest.dropWhile (· ≠ 32) with
      | nil =>
          simp only [uriCut] at parsed
          cases parsed
      | cons c' text =>
          simp only [uriCut] at parsed
          cases known : HttpRequest.versionOf text with
          | none =>
              rw [known] at parsed
              cases parsed
          | some version =>
              simp only [known] at parsed
              obtain ⟨target, atSlash⟩ | none_there := slash_or_nil (rest.takeWhile (· ≠ 32))
              · obtain ⟨uri, fragmentCut, fragmentRoom⟩ :=
                  parseURI_worth target (show (47 : UInt8) ≠ 35 by decide)
                obtain ⟨path, queryCut, queryRoom⟩ :=
                  parseURI_worth uri (show (47 : UInt8) ≠ 63 by decide)
                have pathSlash : (47 :: path).dropWhile (· ≠ (47 : UInt8)) = 47 :: path := rfl
                simp only [atSlash, fragmentCut, queryCut, pathSlash] at parsed
                cases parsed
                refine ⟨?_, rfl, rfl⟩
                have method := methodWorth_le (line.takeWhile (· ≠ 32))
                have lineLength := length_cut methodCut
                have restLength := length_cut uriCut
                have versionLength := versionOf_length known
                have targetLength := (List.dropWhile_sublist (l := rest.takeWhile (· ≠ 32))
                  (· ≠ (47 : UInt8))).length_le
                rw [atSlash, List.length_cons] at targetLength
                change methodWorth (StringToHttpMethod (line.takeWhile (· ≠ 32))) + 1 +
                  ((47 :: path).length +
                    partWorth ((HttpRequest.parseURI (47 :: uri) 63).2.getD []) +
                    partWorth ((HttpRequest.parseURI (47 :: target) 35).2.getD [])) + 9 ≤ _
                rw [List.length_cons]
                omega
              · rw [none_there] at parsed
                cases parsed

/-! ## Every move pays -/

/-- A server starts with a new request; before the body is set there is none. -/
def Unfilled : Phase × HttpRequest → Prop
  | (.firstLine, msg) => msg = HttpRequest.new 0x11 false
  | (_, msg) => msg.body = []

/-- The bytes taken for what a message has in each phase. -/
def spent : Phase × HttpRequest → Nat
  | (.firstLine, _) => 0
  | (.headers _ _, msg) => lineWorth msg + 2 + headersWorth msg
  | (.fixedBody _, msg) => lineWorth msg + 2 + headersWorth msg + 2
  | (.chunkHead body, msg) => lineWorth msg + 2 + headersWorth msg + 2 + body.length
  | (.chunkData _ body, msg) => lineWorth msg + 2 + headersWorth msg + 2 + body.length

/-- Only a request that is passed on is worth something. -/
def gained : Ended HttpRequest → Nat
  | ⟨.ok true, msg⟩ => worth msg
  | _ => 0

/-- A move takes at least as much as it adds to what was spent. -/
def Pays (before : Nat) : Move (Phase × HttpRequest) (Ended HttpRequest) → Prop
  | .wait => True
  | .go s n => Unfilled s ∧ spent s ≤ before + n
  | .stop r n => gained r ≤ before + n

variable {msg : HttpRequest} {line : Bytes} {n : Nat}

/-- Only the end of a message is worth something, so all other stops are paid. -/
theorem pays_stop {outcome : Except Fault Bool} (refused : outcome ≠ .ok true) (before : Nat) :
    Pays before (.stop ⟨outcome, msg⟩ n) := by
  cases outcome with
  | error e => exact Nat.zero_le _
  | ok accepted =>
      cases accepted with
      | false => exact Nat.zero_le _
      | true => exact absurd rfl refused

theorem afterFirstLine_pays (length : line.length + 2 = n) :
    Pays 0 (afterFirstLine (HttpRequest.new 0x11 false) line n) := by
  rw [afterFirstLine]
  cases parsed : HttpMessage.parseFirstLine line (HttpRequest.new 0x11 false) with
  | error e msg => exact pays_stop (by simp) 0
  | ok good msg =>
      cases good with
      | false => exact pays_stop (by simp) 0
      | true =>
          obtain ⟨room, headers, body⟩ := parseFirstLine_worth parsed
          refine ⟨body, ?_⟩
          rw [spent, headersWorth, headers]
          change lineWorth msg + 2 + 0 ≤ 0 + n
          omega

theorem headersWorth_addHeader (msg : HttpRequest) (title value : Bytes) :
    headersWorth (msg.addHeader title value) ≤
      headersWorth msg + (title.length + value.length + 4) :=
  OrderedMap.weight_assign_le

theorem readHeader_field {title value : Bytes} (read : readHeader line = .field title value) :
    title.length + value.length + 2 = line.length := by
  obtain ⟨c, rfl, -⟩ := readHeader_parts read
  simp only [List.length_append, List.length_cons]
  omega

theorem afterHeader_pays {chunked : Bool} {contentLen : Nat} (fresh : msg.body = [])
    (length : line.length + 2 = n) :
    Pays (spent (.headers chunked contentLen, msg)) (afterHeader chunked contentLen msg line n) := by
  rw [afterHeader]
  cases read : readHeader line with
  | ends =>
      cases chunked with
      | false =>
          refine ⟨fresh, ?_⟩
          change lineWorth msg + 2 + headersWorth msg + 2 ≤ lineWorth msg + 2 + headersWorth msg + n
          omega
      | true =>
          refine ⟨fresh, ?_⟩
          change lineWorth msg + 2 + headersWorth msg + 2 + 0 ≤
            lineWorth msg + 2 + headersWorth msg + n
          omega
  | bad => exact pays_stop (by simp) _
  | throws e => exact pays_stop (by simp) _
  | field title value =>
      simp only
      cases lengthAfter (chunked || isChunked title value) contentLen title value with
      | error e => exact pays_stop (by simp) _
      | ok len =>
          refine ⟨fresh, ?_⟩
          have room := readHeader_field read
          have added := headersWorth_addHeader msg title value
          change lineWorth msg + 2 + headersWorth (msg.addHeader title value) ≤
            lineWorth msg + 2 + headersWorth msg + n
          omega

theorem afterChunkHead_pays {body : Bytes} (fresh : msg.body = []) :
    Pays (spent (.chunkHead body, msg)) (afterChunkHead body msg line n) := by
  simp only [afterChunkHead]
  split
  · exact pays_stop (by simp) _
  · split
    · exact Nat.le_add_right _ _
    · exact ⟨fresh, Nat.le_add_right _ _⟩

theorem byLine_pays {before : Nat} {q : Bytes}
    {move : Bytes → Nat → Move (Phase × HttpRequest) (Ended HttpRequest)}
    (pays : ∀ line : Bytes, Pays before (move line (line.length + 2))) :
    Pays before (byLine q move) := by
  rcases byLine_cases q move with ⟨-, waits⟩ | ⟨n, -, inside, moves⟩
  · rw [waits]
    trivial
  · have length : (q.take n).length = n := List.length_take_of_le (by omega)
    have paid := pays (q.take n)
    rw [length] at paid
    rwa [moves]

/-- Every move of the machine is paid. -/
theorem advance_pays {s : Phase × HttpRequest} (fresh : Unfilled s) (q : Bytes) :
    Pays (spent s) (advance s q) := by
  obtain ⟨phase, msg⟩ := s
  cases phase with
  | firstLine =>
      cases fresh
      exact byLine_pays fun line => afterFirstLine_pays rfl
  | headers chunked contentLen => exact byLine_pays fun line => afterHeader_pays fresh rfl
  | fixedBody len =>
      have none_yet : msg.body.length = 0 := by
        rw [show msg.body = [] from fresh]
        rfl
      rw [advance]
      split
      · change worth msg ≤ _
        rw [worth, none_yet]
        exact Nat.le_add_right _ _
      · split
        · exact Nat.add_le_add_left (List.length_take_le _ _) _
        · trivial
  | chunkHead body => exact byLine_pays fun line => afterChunkHead_pays fresh
  | chunkData size body =>
      simp only [advance]
      split
      · refine ⟨fresh, ?_⟩
        have room := List.length_take_le ((size + 2) % 2 ^ 64) q
        simp only [spent, List.length_append]
        omega
      · trivial

/-- **A request is worth no more than the text it came from.** -/
theorem settles_worth {req : HttpRequest} {q left : Bytes}
    (settled : Settles (machine HttpRequest) (.firstLine, HttpRequest.new 0x11 false) q
      (.stopped ⟨.ok true, req⟩) left) : worth req + left.length ≤ q.length := by
  have goes : ∀ {s s' : Phase × HttpRequest} {q : Bytes} {n : Nat}, Unfilled s →
      (machine HttpRequest).step s q = .go s' n → Unfilled s' ∧ spent s' ≤ spent s + n := by
    intro s s' q n fresh moved
    have pays := advance_pays fresh q
    rwa [show advance s q = .go s' n from moved] at pays
  have stops : ∀ {s : Phase × HttpRequest} {q : Bytes} {r : Ended HttpRequest} {n : Nat},
      Unfilled s → (machine HttpRequest).step s q = .stop r n → gained r ≤ spent s + n := by
    intro s q r n fresh moved
    have pays := advance_pays fresh q
    rwa [show advance s q = .stop r n from moved] at pays
  have start : Unfilled (.firstLine, HttpRequest.new 0x11 false) := rfl
  exact le_of_le_of_eq (Settles.paid goes stops start settled) (Nat.zero_add _)

/-! ## The worth of a request that is sent -/

theorem weight_append (front back : List (Bytes × Bytes)) :
    OrderedMap.weight fieldWorth (front ++ back) =
      OrderedMap.weight fieldWorth front + OrderedMap.weight fieldWorth back := by
  simp only [OrderedMap.weight, List.map_append, List.sum_append]

theorem length_headerLines (fields : List (Bytes × Bytes)) :
    (headerLines fields).length = OrderedMap.weight fieldWorth fields := by
  induction fields with
  | nil => rfl
  | cons e fields ih =>
      have line : (HttpRequest.headerLine e.1 e.2).length = fieldWorth e := by
        simp only [HttpRequest.headerLine, fieldWorth, List.length_append]
        change e.1.length + 2 + e.2.length + 2 = _
        omega
      rw [headerLines_cons, List.length_append, line, ih]
      rfl

theorem length_firstLine {r : HttpRequest} (wf : WellFormed r) :
    r.firstLine.length = lineWorth r := by
  have method : (HttpMethodToString r.method).length = methodWorth r.method := by
    have valid := wf.method
    cases is : r.method with
    | INVALID_METHOD => exact absurd is valid
    | GET => rfl
    | HEAD => rfl
    | POST => rfl
  have part : ∀ (d : UInt8) (s : Bytes), (if s = [] then [] else d :: s).length = partWorth s := by
    intro d s
    rw [partWorth]
    split <;> rfl
  have version : r.versionText.length = 8 := by
    rw [HttpRequest.versionText]
    split <;> rfl
  rw [wf.separable.firstLine_eq]
  simp only [HttpRequest.uri, List.length_append, List.length_cons, part, version, method,
    lineWorth]
  omega

/-- The text of a request is as long as the request is worth with the headers that
are sent. -/
theorem length_dump {r : HttpRequest} (wf : WellFormed r) :
    r.dump.length = lineWorth r + 2 +
      OrderedMap.weight fieldWorth (sentFields r ++ lengthField r) + 2 + r.body.length := by
  have lineEnd : kCRLF.length = 2 := rfl
  rw [wf.dump_eq, weight_append]
  simp only [List.length_append, length_firstLine wf, length_headerLines, lineEnd]
  omega

end Reyao.Http
