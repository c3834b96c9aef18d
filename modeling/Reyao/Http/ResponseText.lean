import Reyao.Http.Heads

/-!
# What a dumped response parses to

The parser keeps the blank before the reason, so a response never comes back as it
was sent: the reason is one blank longer (`received`), and so is that of every
response that is relayed once more.
-/

namespace Reyao.Http

open Lib

namespace HttpResponse

/-- The reason `dump` prints. -/
def reasonText (r : HttpResponse) : Bytes := if r.reason = [] then r.status.toString else r.reason

def versionText (r : HttpResponse) : Bytes :=
  if r.version = 0x10 then ascii "HTTP/1.0" else ascii "HTTP/1.1"

/-- The first line `dump` writes, without its line end. -/
def statusLine (r : HttpResponse) : Bytes :=
  r.versionText ++ 32 :: (showNat r.status.code ++ 32 :: r.reasonText)

/-- The value of the connection header `dump` generates. -/
def connection (r : HttpResponse) : Bytes :=
  if r.keepAlive then ascii "Keep-Alive" else ascii "Close"

/-- The headers `dump` writes before the length of the body. -/
def sentFields (r : HttpResponse) : List (Bytes × Bytes) :=
  (ascii "Connection", r.connection) ::
    r.headers.entries.filter fun e => !eqIgnoreCase e.1 (ascii "connection")

/-- The header with the length of the body, if there is a body. -/
def lengthField (r : HttpResponse) : List (Bytes × Bytes) :=
  if r.body = [] then [] else [(ascii "Content-Length", showNat r.body.length)]

/-- The response a client makes of the text of a response. -/
def received (r : HttpResponse) : HttpResponse :=
  { HttpResponse.new 0x11 false with
    version := r.version
    status := r.status
    reason := 32 :: r.reasonText
    headers := .ofFields (r.sentFields ++ r.lengthField)
    body := r.body }

/-- A header that can be sent with a body of `size` bytes. -/
structure Sends (size : Nat) (e : Bytes × Bytes) : Prop extends Field e where
  plain : caseKey e.1 ≠ caseKey (ascii "transfer-encoding")
  sized : caseKey e.1 = caseKey (ascii "content-length") → e.2 = showNat size

/-- A response whose text the parser accepts. -/
structure Sendable (r : HttpResponse) : Prop where
  version : r.version = 0x10 ∨ r.version = 0x11
  reason_free : (13 : UInt8) ∉ r.reason
  headers : ∀ e ∈ r.headers.entries, Sends r.body.length e
  body_small : r.body.length < 2 ^ 31

variable {r : HttpResponse} {rest : Bytes}

/-! ## The first line -/

theorem code_cases (status : HttpStatus) :
    (32 : UInt8) ∉ showNat status.code ∧ (13 : UInt8) ∉ showNat status.code ∧
      stoi (showNat status.code) = .ok (status.code : Int) ∧
      HttpStatus.ofCode status.code = some status := by
  have small : status.code < 2 ^ 31 := by
    cases status <;> decide
  refine ⟨fun member => ?_, cr_not_mem_showNat _, ?_, ?_⟩
  · exact absurd (showNat_digit member) (by decide)
  · rw [stoi_showNat, if_pos small]
  · cases status <;> decide

theorem Sendable.reasonText_free (sendable : r.Sendable) : (13 : UInt8) ∉ r.reasonText := by
  rw [reasonText]
  split
  · cases r.status <;> decide
  · exact sendable.reason_free

theorem Sendable.version_cases (sendable : r.Sendable) :
    (32 : UInt8) ∉ r.versionText ∧ (13 : UInt8) ∉ r.versionText ∧
      HttpRequest.versionOf r.versionText = some r.version ∧
      ascii "HTTP/" ++ showNat (r.version / 16) ++ ascii "." ++ showNat (r.version % 16) =
        r.versionText := by
  rw [versionText]
  rcases sendable.version with is10 | is11
  · rw [is10]
    decide
  · rw [is11]
    decide

theorem Sendable.statusLine_free (sendable : r.Sendable) : IsLine r.statusLine := by
  rw [IsLine, statusLine]
  simp only [List.mem_append, List.mem_cons, not_or]
  exact ⟨sendable.version_cases.2.1, by decide, (code_cases r.status).2.1, by decide,
    sendable.reasonText_free⟩

/-- The first line is read back, with the blank before the reason. -/
theorem Sendable.parseFirstLine_eq (sendable : r.Sendable) (rsp : HttpResponse) :
    HttpResponse.parseFirstLine r.statusLine rsp =
      .ok true { rsp with
        version := r.version, status := r.status, reason := 32 :: r.reasonText } := by
  obtain ⟨versionFree, -, version, -⟩ := sendable.version_cases
  obtain ⟨codeFree, -, code, status⟩ := code_cases r.status
  rw [statusLine, HttpResponse.parseFirstLine]
  simp only [dropWhile_delimiter versionFree, takeWhile_delimiter versionFree, version,
    dropWhile_delimiter codeFree, takeWhile_delimiter codeFree, code, status]
  rfl

/-! ## The whole text -/

theorem Sendable.dump_eq (sendable : r.Sendable) :
    r.dump = r.statusLine ++ kCRLF ++
      (headerLines r.sentFields ++ (headerLines r.lengthField ++ (kCRLF ++ r.body))) := by
  have own : ∀ entries : List (Bytes × Bytes), (entries.flatMap fun entry =>
      if eqIgnoreCase entry.1 (ascii "connection") then []
      else HttpRequest.headerLine entry.1 entry.2) =
      headerLines (entries.filter fun e => !eqIgnoreCase e.1 (ascii "connection")) := by
    intro entries
    induction entries with
    | nil => rfl
    | cons e entries ih =>
        rw [List.flatMap_cons, ih, List.filter_cons]
        cases eqIgnoreCase e.1 (ascii "connection") <;> rfl
  rw [HttpResponse.dump, own, bodyText_eq, lengthField, sentFields, headerLines_cons, statusLine,
    sendable.version_cases.2.2.2]
  simp only [List.append_assoc, List.cons_append]
  rfl

/-- Header lines that say nothing about the body but its length. -/
theorem settles_sized {n : Nat} (small : n < 2 ^ 31) {fields : List (Bytes × Bytes)}
    (sends : ∀ e ∈ fields, Sends n e) (len : Nat) (msg : HttpResponse) (rest : Bytes) :
    ∃ len', (len' = len ∨ len' = n) ∧ ∀ v left,
      Settles (machine HttpResponse) (.headers false len',
        fields.foldl (fun msg e => msg.addHeader e.1 e.2) msg) rest v left →
      Settles (machine HttpResponse) (.headers false len, msg) (headerLines fields ++ rest) v
        left := by
  induction fields generalizing len msg with
  | nil => exact ⟨len, Or.inl rfl, fun v left next => next⟩
  | cons e fields ih =>
      have send := sends e List.mem_cons_self
      obtain ⟨len₁, keeps, framing⟩ : ∃ len₁, (len₁ = len ∨ len₁ = n) ∧
          lengthAfter false len e.1 e.2 = .ok len₁ := by
        by_cases same : caseKey e.1 = caseKey (ascii "content-length")
        · rw [send.sized same]
          exact ⟨n, Or.inr rfl, lengthAfter_showNat same len small⟩
        · exact ⟨len, Or.inl rfl, lengthAfter_of_ne same len⟩
      obtain ⟨len', keeps', later⟩ :=
        ih (fun e member => sends e (List.mem_cons_of_mem _ member)) len₁ (msg.addHeader e.1 e.2)
      refine ⟨len', ?_, fun v left next => ?_⟩
      · rcases keeps' with rfl | rfl
        · exact keeps
        · exact Or.inr rfl
      · rw [headerLines_cons, List.append_assoc]
        exact settles_field send.toField send.plain framing (later v left next)

theorem Sendable.sentFields_sends (sendable : r.Sendable) :
    ∀ e ∈ r.sentFields ++ r.lengthField, Sends r.body.length e := by
  intro e member
  rcases List.mem_append.mp member with early | length
  · rcases List.mem_cons.mp early with rfl | own
    · rw [connection]
      cases r.keepAlive with
      | true =>
          exact ⟨⟨by decide, by decide, by decide⟩, by decide,
            fun same => absurd same (by decide)⟩
      | false =>
          exact ⟨⟨by decide, by decide, by decide⟩, by decide,
            fun same => absurd same (by decide)⟩
    · exact sendable.headers e (List.mem_of_mem_filter own)
  · rw [lengthField] at length
    split at length
    · cases length
    · rw [List.mem_singleton] at length
      rw [length]
      have free : Free (ascii ":\r") (ascii "Content-Length") := by decide
      have plain : caseKey (ascii "Content-Length") ≠ caseKey (ascii "transfer-encoding") := by
        decide
      exact ⟨⟨free, cr_not_mem_showNat _, showNat_ne_nil _⟩, plain, fun _ => rfl⟩

/-- **A dumped response is read up to its last byte.** Whatever follows is left over. -/
theorem Sendable.settles_dump (sendable : r.Sendable) (rest : Bytes) :
    Settles (machine HttpResponse) (.firstLine, HttpResponse.new 0x11 false) (r.dump ++ rest)
      (.stopped ⟨.ok true, r.received⟩) rest := by
  have sends := sendable.sentFields_sends
  rw [sendable.dump_eq, List.append_assoc]
  refine settles_firstLine sendable.statusLine_free (sendable.parseFirstLine_eq _) ?_
  simp only [List.append_assoc]
  obtain ⟨len, keeps, early⟩ := settles_sized sendable.body_small
    (fun e member => sends e (List.mem_append_left _ member)) 0
    { HttpResponse.new 0x11 false with
      version := r.version, status := r.status, reason := 32 :: r.reasonText }
    (headerLines r.lengthField ++ (kCRLF ++ (r.body ++ rest)))
  refine early _ _ ?_
  -- the length is known after the last header, if not before
  have headers : ∀ msg : HttpResponse, msg = (r.sentFields ++ r.lengthField).foldl
      (fun msg e => msg.addHeader e.1 e.2) { HttpResponse.new 0x11 false with
        version := r.version, status := r.status, reason := 32 :: r.reasonText } →
      Settles (machine HttpResponse) (.headers false r.body.length, msg)
        (kCRLF ++ (r.body ++ rest)) (.stopped ⟨.ok true, r.received⟩) rest := by
    rintro _ rfl
    have filled : (r.sentFields ++ r.lengthField).foldl (fun msg e => msg.addHeader e.1 e.2)
        { HttpResponse.new 0x11 false with
          version := r.version, status := r.status, reason := 32 :: r.reasonText } =
          { r.received with body := [] } :=
      List.foldl_hom (fun headers => { r.received with headers := headers, body := [] })
        fun _ _ => rfl
    rw [filled]
    exact settles_body r.body rest rfl
  by_cases empty : r.body = []
  · have unsized : r.lengthField = [] := if_pos empty
    have length : len = r.body.length := by
      rw [empty] at keeps ⊢
      exact keeps.elim id id
    rw [unsized, List.append_nil] at headers
    rw [unsized, length]
    exact headers _ rfl
  · have sized : r.lengthField = [(ascii "Content-Length", showNat r.body.length)] := if_neg empty
    rw [sized] at headers sends ⊢
    have send := sends _ (List.mem_append_right _ List.mem_cons_self)
    have name : caseKey (ascii "Content-Length") = caseKey (ascii "content-length") := by decide
    have framing := lengthAfter_showNat name len sendable.body_small
    rw [headerLines_cons, List.append_assoc]
    refine settles_field send.toField send.plain framing (headers _ ?_)
    rw [List.foldl_append]
    rfl

/-! ## Relaying -/

/-- Headers that can be sent make a map of headers that can be sent. -/
theorem sends_ofFields {n : Nat} {fields : List (Bytes × Bytes)}
    (sends : ∀ e ∈ fields, Sends n e) : ∀ e ∈ (StrMap.ofFields fields).entries, Sends n e := by
  have fold : ∀ (fields : List (Bytes × Bytes)) (map : StrMap), (∀ e ∈ fields, Sends n e) →
      (∀ e ∈ map.entries, Sends n e) →
      ∀ e ∈ (fields.foldl (fun m e => m.assign e.1 e.2) map).entries, Sends n e := by
    intro fields
    induction fields with
    | nil => exact fun map _ old => old
    | cons e fields ih =>
        intro map sends old
        have send := sends e List.mem_cons_self
        refine ih _ (fun e member => sends e (List.mem_cons_of_mem _ member)) ?_
        refine OrderedMap.forall_assign old send fun {k' v'} same was => ?_
        refine ⟨⟨was.name_free, send.value_free, send.value_ne_nil⟩, ?_, fun length => ?_⟩
        · exact was.plain
        · exact send.sized (same.symm.trans length)
  exact fold fields .empty sends fun e member => absurd member List.not_mem_nil

/-- What was received can be sent again. -/
theorem Sendable.received (sendable : r.Sendable) : r.received.Sendable := by
  refine ⟨sendable.version, ?_, sends_ofFields sendable.sentFields_sends, sendable.body_small⟩
  exact List.not_mem_cons_of_ne_of_not_mem (by decide) sendable.reasonText_free

/-- The parse of the text of a response, however it arrives. -/
theorem Sendable.parsed_eq (sendable : r.Sendable)
    {reads : List (Read (HttpMessage.maxBufferSize HttpResponse))} (sent : bytesOf reads = r.dump) :
    parsed (parseResponse (.ofReads reads) (HttpResponse.new 0x11 false)) =
      (.ok true, r.received) := by
  have settles := sendable.settles_dump []
  rw [List.append_nil, ← sent] at settles
  exact parsed_of_settles settles

/-- The text of a response begins with its first line. -/
theorem Sendable.takeWhile_dump (sendable : r.Sendable) :
    r.dump.takeWhile (· ≠ 13) = r.statusLine := by
  rw [sendable.dump_eq, List.append_assoc]
  exact takeWhile_delimiter sendable.statusLine_free _

theorem reasonText_received (r : HttpResponse) : r.received.reasonText = 32 :: r.reasonText :=
  if_neg (List.cons_ne_nil _ _)

/-- The text of a response that is relayed once more is another one. -/
theorem Sendable.dump_received_ne (sendable : r.Sendable) :
    r.received.dump ≠ r.received.received.dump := by
  intro same
  have lines := congrArg (List.takeWhile (· ≠ 13)) same
  rw [sendable.received.takeWhile_dump, sendable.received.received.takeWhile_dump, statusLine,
    statusLine] at lines
  have reasons : 32 :: r.received.reasonText = 32 :: r.received.received.reasonText :=
    List.append_cancel_left (List.cons.inj (List.append_cancel_left lines)).2
  rw [reasonText_received r.received] at reasons
  have lengths := congrArg List.length reasons
  simp only [List.length_cons] at lengths
  omega

/-! ## The headers that arrive -/

/-- A response whose text can be taken apart again. -/
structure WellFormed (r : HttpResponse) : Prop where
  version : r.version = 0x10 ∨ r.version = 0x11
  reason_free : (13 : UInt8) ∉ r.reason
  names_free : ∀ e ∈ r.headers.entries, Free (ascii ":\r") e.1
  /-- The headers `dump` generates or the body depends on are not set by hand. -/
  names_own : ∀ e ∈ r.headers.entries, ∀ name ∈
    [ascii "connection", ascii "content-length", ascii "transfer-encoding"],
    caseKey e.1 ≠ caseKey name
  values_ne_nil : ∀ e ∈ r.headers.entries, e.2 ≠ []
  values_free : ∀ e ∈ r.headers.entries, (13 : UInt8) ∉ e.2
  body_small : r.body.length < 2 ^ 31

theorem WellFormed.sendable (wf : r.WellFormed) : r.Sendable := by
  refine ⟨wf.version, wf.reason_free, fun e member => ⟨⟨wf.names_free e member,
    wf.values_free e member, wf.values_ne_nil e member⟩, ?_, fun same => ?_⟩, wf.body_small⟩
  · exact wf.names_own e member _ (by decide)
  · exact absurd same (wf.names_own e member _ (by decide))

/-- The headers of a response and those `dump` generates. -/
def withGenerated (r : HttpResponse) : StrMap :=
  let headers := r.headers.assign (ascii "Connection") r.connection
  if r.body = [] then headers else headers.assign (ascii "Content-Length") (showNat r.body.length)

theorem WellFormed.sentFields_eq (wf : r.WellFormed) :
    r.sentFields = (ascii "Connection", r.connection) :: r.headers.entries := by
  rw [sentFields, List.filter_eq_self.mpr]
  intro e member
  have other : ¬(eqIgnoreCase e.1 (ascii "connection") = true) := fun same =>
    wf.names_own e member _ List.mem_cons_self ((eqIgnoreCase_iff _ _).mp same)
  rw [Bool.eq_false_of_not_eq_true other]
  rfl

theorem caseKey_connection : caseKey (ascii "Connection") = caseKey (ascii "connection") := by
  decide

theorem caseKey_contentLength :
    caseKey (ascii "Content-Length") = caseKey (ascii "content-length") := by
  decide

/-- No header that is sent early is the length of the body. -/
theorem WellFormed.sentFields_ne (wf : r.WellFormed) :
    ∀ e ∈ r.sentFields, caseKey e.1 ≠ caseKey (ascii "Content-Length") := by
  intro e member
  rw [wf.sentFields_eq] at member
  rcases List.mem_cons.mp member with rfl | own
  · change caseKey (ascii "Connection") ≠ caseKey (ascii "Content-Length")
    decide
  · rw [caseKey_contentLength]
    exact wf.names_own e own _ (by decide)

/-- No header is sent twice. -/
theorem WellFormed.fields_different (wf : r.WellFormed) :
    (r.sentFields ++ r.lengthField).Pairwise fun a b => caseKey a.1 ≠ caseKey b.1 := by
  refine pairwise_length ?_ wf.sentFields_ne
  rw [wf.sentFields_eq]
  refine List.pairwise_cons.mpr ⟨fun e member => ?_, ?_⟩
  · rw [caseKey_connection]
    exact (wf.names_own e member _ List.mem_cons_self).symm
  · exact r.headers.sorted.imp fun less => ne_of_lt less

theorem WellFormed.mem_withGenerated (wf : r.WellFormed) (e : Bytes × Bytes) :
    e ∈ r.withGenerated.entries ↔ e ∈ r.sentFields ++ r.lengthField := by
  have early : ∀ e, e ∈ (r.headers.assign (ascii "Connection") r.connection).entries ↔
      e ∈ r.sentFields := by
    intro e
    rw [wf.sentFields_eq, List.mem_cons]
    refine OrderedMap.mem_assign (fun e member => ?_) e
    rw [caseKey_connection]
    exact wf.names_own e member _ (by decide)
  rw [withGenerated, lengthField]
  by_cases empty : r.body = []
  · simp only [if_pos empty, List.append_nil]
    exact early e
  · simp only [if_neg empty]
    rw [List.mem_append, List.mem_singleton, or_comm, ← early]
    refine OrderedMap.mem_assign (fun e member => ?_) e
    exact wf.sentFields_ne e ((early e).mp member)

theorem WellFormed.headers_received (wf : r.WellFormed) : r.received.headers = r.withGenerated :=
  StrMap.ext fun e =>
    (StrMap.mem_ofFields wf.fields_different e).trans (wf.mem_withGenerated e).symm

end HttpResponse

open HttpResponse

/-- What the parse of the text of a response should give. -/
structure RoundTrips (r : HttpResponse) (result : Except Fault Bool × HttpResponse) : Prop where
  answer : result.1 = .ok true
  version : result.2.version = r.version
  status : result.2.status = r.status
  reason : result.2.reason = r.reasonText
  headers : result.2.headers = r.withGenerated
  body : result.2.body = r.body

/-- **No response comes back as it was sent.** However the text of a response arrives,
it is accepted with its version, status, headers and body, but its reason is one blank
longer; and when what came back is relayed, that text does not come back either. -/
theorem response_never_round_trips {r : HttpResponse} (wf : r.WellFormed)
    {reads : List (Read (HttpMessage.maxBufferSize HttpResponse))} (sent : bytesOf reads = r.dump) :
    ¬RoundTrips r (parsed (parseResponse (.ofReads reads) (HttpResponse.new 0x11 false))) ∧
    parsed (parseResponse (.ofReads reads) (HttpResponse.new 0x11 false)) =
      (.ok true, { HttpResponse.new 0x11 false with
        version := r.version
        status := r.status
        reason := 32 :: r.reasonText
        headers := r.withGenerated
        body := r.body }) ∧
    ∀ reads' : List (Read (HttpMessage.maxBufferSize HttpResponse)),
      bytesOf reads' = r.received.dump →
      (parsed (parseResponse (.ofReads reads') (HttpResponse.new 0x11 false))).2.dump ≠
        r.received.dump := by
  have sendable := wf.sendable
  refine ⟨fun back => ?_, ?_, fun reads' again => ?_⟩
  · have reason := back.reason
    rw [sendable.parsed_eq sent] at reason
    have lengths := congrArg List.length reason
    change r.reasonText.length + 1 = r.reasonText.length at lengths
    omega
  · rw [sendable.parsed_eq sent, HttpResponse.received, ← wf.headers_received]
    rfl
  · rw [sendable.received.parsed_eq again]
    exact sendable.dump_received_ne.symm

/-- The response of a new `HttpResponse`. -/
theorem plain_response_well_formed : (HttpResponse.new 0x11 false).WellFormed :=
  ⟨Or.inr rfl, List.not_mem_nil, fun _ member => absurd member List.not_mem_nil,
    fun _ member => absurd member List.not_mem_nil, fun _ member => absurd member List.not_mem_nil,
    fun _ member => absurd member List.not_mem_nil, by decide⟩

theorem plain_response_gains_blank :
    ∃ reads : List (Read (HttpMessage.maxBufferSize HttpResponse)),
      bytesOf reads = (HttpResponse.new 0x11 false).dump ∧
      (parsed (parseResponse (.ofReads reads) (HttpResponse.new 0x11 false))).2.reason =
        ascii " OK" := by
  obtain ⟨reads, sent⟩ := exists_reads (HttpMessage.maxBufferSize_pos (μ := HttpResponse))
    (HttpResponse.new 0x11 false).dump
  refine ⟨reads, sent, ?_⟩
  rw [(response_never_round_trips plain_response_well_formed sent).2.1]
  rfl

/-- The reason of a plain response comes back with a blank. -/
theorem not_response_round_trips :
    ∃ reads : List (Read (HttpMessage.maxBufferSize HttpResponse)),
      bytesOf reads = (HttpResponse.new 0x11 false).dump ∧
      ¬RoundTrips (HttpResponse.new 0x11 false)
        (parsed (parseResponse (.ofReads reads) (HttpResponse.new 0x11 false))) := by
  obtain ⟨reads, sent⟩ := exists_reads (HttpMessage.maxBufferSize_pos (μ := HttpResponse))
    (HttpResponse.new 0x11 false).dump
  refine ⟨reads, sent, fun back => ?_⟩
  have reason := back.reason
  rw [plain_response_well_formed.sendable.parsed_eq sent] at reason
  exact absurd reason (by decide)

end Reyao.Http
