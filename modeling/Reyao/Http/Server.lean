import Reyao.Http.RequestCost

/-!
# The HTTP server (`http/http_server.cc`, `http/http_session.cc`)

`handleClient` serves the requests of one connection. Every request gets a parser
of its own with a buffer of its own, so bytes that one parser has read past the
end of its request never reach the next. `pipeline_served_iff` says when this
does no harm.
-/

namespace Reyao.Http

open Lib

/-- A request as it is passed to `dispatch_->handle`. -/
def HttpRequest.markKeepAlive (req : HttpRequest) : HttpRequest :=
  if eqIgnoreCase (req.getHeader (ascii "Connection")) (ascii "Keep-Alive") then
    { req with keepAlive := true }
  else req

/-- The loop of `HttpServer::handleClient`, with `recvRequest` inside: what it makes of the
requests, each with whether it goes on behind it, and the exception that ends it if one
does. A turn that goes on has used up a read. -/
def serveLoop {α : Type} (serve : HttpRequest → α × Bool) :
    Nat → SocketStream 4096 → List α × Option Fault
  | 0, _ => ([], none)
  | fuel + 1, ss =>
      match parseRequest ss (HttpRequest.new 0x11 false) with
      | .error e _ => ([], some e)
      | .ok (false, _) _ => ([], none)
      | .ok (true, ss) p =>
          let (served, goes_on) := serve p.msg
          if goes_on then
            let (later, fault) := serveLoop serve fuel ss
            (served :: later, fault)
          else ([served], none)

/-- The requests the loop passes to `dispatch_->handle`. -/
def handleRequests (keepAlive : Bool) : Nat → SocketStream 4096 → List HttpRequest × Option Fault :=
  serveLoop fun req => (req.markKeepAlive, keepAlive && req.markKeepAlive.keepAlive)

/-- `HttpServer::handleClient(client)` of a server with `keepAlive_`. -/
def handleClient (keepAlive : Bool) (ss : SocketStream 4096) : List HttpRequest × Option Fault :=
  handleRequests keepAlive (ss.incoming.length + 1) ss

/-! ## The turns of the loop -/

/-- The requests a server with `keepAlive_` takes from the reads of a connection. -/
inductive Serves : List (Read 4096) → List HttpRequest → Prop
  | refuse {reads : List (Read 4096)} {v : Verdict (Phase × HttpRequest) (Ended HttpRequest)}
    {left : Bytes} {rest : List (Read 4096)} :
    Drive (machine HttpRequest) (.firstLine, HttpRequest.new 0x11 false) [] (reads.map Read.data) v
      left (rest.map Read.data) →
    (∀ req, v ≠ .stopped ⟨.ok true, req⟩) → Serves reads []
  | last {reads rest : List (Read 4096)} {req : HttpRequest} {left : Bytes} :
    Drive (machine HttpRequest) (.firstLine, HttpRequest.new 0x11 false) [] (reads.map Read.data)
      (.stopped ⟨.ok true, req⟩) left (rest.map Read.data) →
    req.markKeepAlive.keepAlive = false → Serves reads [req.markKeepAlive]
  | next {reads rest : List (Read 4096)} {req : HttpRequest} {left : Bytes}
    {reqs : List HttpRequest} :
    Drive (machine HttpRequest) (.firstLine, HttpRequest.new 0x11 false) [] (reads.map Read.data)
      (.stopped ⟨.ok true, req⟩) left (rest.map Read.data) →
    req.markKeepAlive.keepAlive = true → Serves rest reqs → Serves reads (req.markKeepAlive :: reqs)

/-- A request that was accepted has used up a read. -/
theorem fewer_reads {reads rest : List (Read 4096)} {r : Ended HttpRequest} {left : Bytes}
    (drive : Drive (machine HttpRequest) (.firstLine, HttpRequest.new 0x11 false) []
      (reads.map Read.data) (.stopped r) left (rest.map Read.data)) :
    rest.length < reads.length := by
  obtain ⟨front, split, settled⟩ := drive.consumed
  have length := congrArg List.length split
  rw [List.length_append, List.length_map, List.length_map] at length
  have read : front ≠ [] := by
    rintro rfl
    have waits : Settles (machine HttpRequest) (.firstLine, HttpRequest.new 0x11 false) []
        (.paused (.firstLine, HttpRequest.new 0x11 false)) [] := .wait rfl
    cases (waits.unique settled).1
  have := List.length_pos_iff.mpr read
  omega

/-- The loop serves: its fuel is enough. -/
theorem handleRequests_serves {fuel : Nat} {reads : List (Read 4096)}
    (enough : reads.length < fuel) :
    Serves reads (handleRequests true fuel (.ofReads reads)).1 := by
  induction fuel generalizing reads with
  | zero => exact absurd enough (Nat.not_lt_zero _)
  | succ fuel ih =>
      obtain ⟨v, left, rest, drive, answers, -⟩ :=
        parseRequest_drives reads (HttpRequest.new 0x11 false)
      rw [handleRequests, serveLoop]
      match v with
      | .paused s =>
          obtain ⟨p, ran, -⟩ := answers
          rw [ran]
          exact .refuse drive (by simp)
      | .stopped ⟨.error e, msg⟩ =>
          obtain ⟨p, threw, -⟩ := answers
          rw [threw]
          exact .refuse drive (by simp)
      | .stopped ⟨.ok false, msg⟩ =>
          obtain ⟨p, ran, -⟩ := answers
          rw [ran]
          exact .refuse drive (by simp)
      | .stopped ⟨.ok true, msg⟩ =>
          obtain ⟨p, ran, rfl⟩ := answers
          rw [ran]
          simp only [Bool.true_and]
          cases stays : p.msg.markKeepAlive.keepAlive with
          | false => exact .last drive stays
          | true =>
              have fewer := fewer_reads drive
              exact .next drive stays (ih (by omega))

theorem handleClient_serves (reads : List (Read 4096)) :
    Serves reads (handleClient true (.ofReads reads)).1 :=
  handleRequests_serves (Nat.lt_succ_self _)

/-! ## Pipelined requests -/

/-- A request arrives as it was sent, with the headers `dump` generates. -/
structure Matches (sent handled : HttpRequest) : Prop where
  method : handled.method = sent.method
  path : handled.path = sent.path
  query : handled.query = sent.query
  fragment : handled.fragment = sent.fragment
  headers : handled.headers = withGenerated sent
  body : handled.body = sent.body

/-- No read carries bytes of two requests: the reads fall into groups that carry
one request each. -/
def ReadApart (rs : List HttpRequest) (reads : List (Read 4096)) : Prop :=
  ∃ groups : List (List (Read 4096)), reads = groups.flatten ∧
    List.Forall₂ (fun r group => bytesOf group = r.dump) rs groups

variable {rs handled : List HttpRequest} {reads : List (Read 4096)} {r req : HttpRequest}

theorem WellFormed.matches_received (wf : WellFormed r) : Matches r (received r) :=
  ⟨rfl, rfl, rfl, rfl, wf.sentHeaders_eq, rfl⟩

/-- **A dumped request is read back.** However its bytes arrive, `parseRequest` answers
true with the fields, the headers and the body of the request, the headers `dump`
generates added, and leaves no byte. -/
theorem request_round_trip (wf : WellFormed r) (small : r.body.length < 2 ^ 31)
    (sent : bytesOf reads = r.dump) :
    ∃ p, parseRequest (.ofReads reads) (HttpRequest.new 0x11 false) = .ok (true, .ofReads []) p ∧
      p.ba.unread = [] ∧ Matches r p.msg ∧ p.msg.version = r.version := by
  obtain ⟨v, left, rest, drive, answers, unread⟩ :=
    parseRequest_drives reads (HttpRequest.new 0x11 false)
  have settled := wf.settles_dump small []
  rw [List.append_nil, ← sent] at settled
  have nonempty : ∀ chunk ∈ reads.map Read.data, chunk ≠ [] := by
    intro chunk member
    obtain ⟨read, -, rfl⟩ := List.mem_map.mp member
    exact read.nonempty
  rw [← List.append_nil (reads.map Read.data)] at drive
  obtain ⟨rfl, rfl, none_left⟩ := drive.exact nonempty settled
  rw [List.map_eq_nil_iff.mp none_left] at answers
  obtain ⟨p, ran, msg_eq⟩ := answers
  rw [ran] at unread
  refine ⟨p, ran, unread, ?_, ?_⟩
  · rw [msg_eq]
    exact wf.matches_received
  · rw [msg_eq]
    rfl

/-- A request that uses every part of the text. -/
def form : HttpRequest :=
  { HttpRequest.new 0x10 false with
    method := .POST
    path := ascii "/form"
    query := ascii "a=1"
    fragment := ascii "top"
    body := ascii "x\r\ny"
    headers := StrMap.empty.assign (ascii "Host") (ascii "reyao") }

theorem wellFormed_form : WellFormed form where
  method := by decide
  version := by decide
  path_slash := by decide
  path_free := by decide
  query_free := by decide
  fragment_free := by decide
  names_free := by decide
  names_own := by decide
  values_ne_nil := by decide
  values_free := by decide

/-- The request arrives in two reads, cut inside its first line. -/
theorem form_round_trip :
    ∃ p, parseRequest (.ofReads [⟨form.dump.take 7, by decide, by decide⟩,
        ⟨form.dump.drop 7, by decide, by decide⟩]) (HttpRequest.new 0x11 false) =
        .ok (true, .ofReads []) p ∧
      p.ba.unread = [] ∧ Matches form p.msg ∧ p.msg.version = form.version :=
  request_round_trip wellFormed_form (by decide) (by decide)

theorem markKeepAlive_eq (req : HttpRequest) :
    ∃ keepAlive, req.markKeepAlive = { req with keepAlive := keepAlive } := by
  rw [HttpRequest.markKeepAlive]
  split
  · exact ⟨true, rfl⟩
  · exact ⟨req.keepAlive, rfl⟩

theorem Matches.markKeepAlive (same : Matches r req) : Matches r req.markKeepAlive := by
  obtain ⟨keepAlive, marked⟩ := markKeepAlive_eq req
  rw [marked]
  exact ⟨same.method, same.path, same.query, same.fragment, same.headers, same.body⟩

/-- A request that asks for it keeps the connection. -/
theorem WellFormed.received_keeps (wf : WellFormed r) (keeps : r.keepAlive = true) :
    (received r).markKeepAlive.keepAlive = true := by
  have sent : (ascii "connection", ascii "keep-alive") ∈ (received r).headers.entries := by
    refine (mem_sentHeaders wf _).mpr (List.mem_append_left _ ?_)
    rw [sentFields, if_pos keeps]
    exact List.mem_cons_self
  have found : (received r).headers.find (ascii "Connection") = some (ascii "keep-alive") :=
    (received r).headers.sorted.lookup_mem sent (by decide)
  have asks : eqIgnoreCase ((received r).getHeader (ascii "Connection")) (ascii "Keep-Alive") =
      true := by
    rw [HttpRequest.getHeader, found]
    decide
  rw [HttpRequest.markKeepAlive, if_pos asks]

/-- Nothing is served on a connection without reads. -/
theorem Serves.nil (serves : Serves [] handled) : handled = [] := by
  cases serves with
  | refuse => rfl
  | last drive => exact absurd (fewer_reads drive) (Nat.not_lt_zero _)
  | next drive => exact absurd (fewer_reads drive) (Nat.not_lt_zero _)

/-- Requests that are read apart are served. -/
theorem Serves.complete (serves : Serves reads handled) (wf : ∀ r ∈ rs, WellFormed r)
    (keeps : ∀ r ∈ rs, r.keepAlive = true) (small : ∀ r ∈ rs, r.body.length < 2 ^ 31)
    (apart : ReadApart rs reads) : List.Forall₂ Matches rs handled := by
  obtain ⟨groups, rfl, each⟩ := apart
  induction each generalizing handled with
  | nil =>
      rw [serves.nil]
      exact .nil
  | @cons r group rs groups exactly _ ih =>
      have settled := (wf r List.mem_cons_self).settles_dump (small r List.mem_cons_self) []
      rw [List.append_nil, ← exactly] at settled
      have nonempty : ∀ chunk ∈ group.map Read.data, chunk ≠ [] := by
        intro chunk member
        obtain ⟨read, -, rfl⟩ := List.mem_map.mp member
        exact read.nonempty
      have chunks : (group :: groups).flatten.map Read.data =
          group.map Read.data ++ groups.flatten.map Read.data := by
        rw [List.flatten_cons, List.map_append]
      have stays := (wf r List.mem_cons_self).received_keeps (keeps r List.mem_cons_self)
      cases serves with
      | refuse drive refused =>
          rw [chunks] at drive
          exact absurd (drive.exact nonempty settled).1 (refused _)
      | last drive leaves =>
          rw [chunks] at drive
          cases (drive.exact nonempty settled).1
          rw [stays] at leaves
          cases leaves
      | next drive _ serves =>
          rw [chunks] at drive
          obtain ⟨same, -, unread⟩ := drive.exact nonempty settled
          cases same
          rw [List.map_injective_iff.mpr Read.data_injective unread] at serves
          refine .cons (wf r List.mem_cons_self).matches_received.markKeepAlive ?_
          exact ih (fun r member => wf r (List.mem_cons_of_mem _ member))
            (fun r member => keeps r (List.mem_cons_of_mem _ member))
            (fun r member => small r (List.mem_cons_of_mem _ member)) serves

/-- A group of reads from which a request of the size of `r` was parsed. -/
def Affords (r : HttpRequest) (group : List (Read 4096)) : Prop :=
  r.dump.length ≤ (bytesOf group).length ∧
    ∃ req left, Settles (machine HttpRequest) (.firstLine, HttpRequest.new 0x11 false)
      (bytesOf group) (.stopped ⟨.ok true, req⟩) left

theorem Matches.length_dump_eq (wf : WellFormed r) (same : Matches r req) :
    r.dump.length = worth req := by
  rw [length_dump wf, worth, lineWorth, lineWorth, headersWorth, same.method, same.path,
    same.query, same.fragment, same.headers, same.body,
    OrderedMap.weight_perm wf.perm_withGenerated]

theorem worth_markKeepAlive (req : HttpRequest) : worth req.markKeepAlive = worth req := by
  obtain ⟨keepAlive, marked⟩ := markKeepAlive_eq req
  rw [marked]
  rfl

/-- A request that was accepted has a group of reads to itself. -/
theorem group_of_drive {rest : List (Read 4096)} {left : Bytes} (wf : WellFormed r)
    (same : Matches r req.markKeepAlive)
    (drive : Drive (machine HttpRequest) (.firstLine, HttpRequest.new 0x11 false) []
      (reads.map Read.data) (.stopped ⟨.ok true, req⟩) left (rest.map Read.data)) :
    ∃ group, reads = group ++ rest ∧ Affords r group := by
  obtain ⟨front, split, settled⟩ := drive.consumed
  obtain ⟨group, back, rfl, rfl, unread⟩ := List.map_eq_append_iff.mp split
  refine ⟨group, ?_, ?_, req, left, settled⟩
  · rw [List.map_injective_iff.mpr Read.data_injective unread]
  · have room := settles_worth settled
    rw [same.length_dump_eq wf, worth_markKeepAlive]
    exact le_trans (Nat.le_add_right _ _) room

/-- Requests that were all served have taken a group of reads each. -/
theorem Serves.groups (serves : Serves reads handled) (wf : ∀ r ∈ rs, WellFormed r)
    (all : List.Forall₂ Matches rs handled) :
    ∃ groups tail, reads = groups.flatten ++ tail ∧ List.Forall₂ Affords rs groups := by
  induction serves generalizing rs with
  | refuse =>
      cases all
      exact ⟨[], _, rfl, .nil⟩
  | last drive =>
      cases all with
      | cons same none_later =>
          cases none_later
          obtain ⟨group, rfl, affords⟩ := group_of_drive (wf _ List.mem_cons_self) same drive
          exact ⟨[group], _, by rw [List.flatten_singleton], .cons affords .nil⟩
  | next drive _ _ ih =>
      cases all with
      | cons same later =>
          obtain ⟨group, rfl, affords⟩ := group_of_drive (wf _ List.mem_cons_self) same drive
          obtain ⟨groups, tail, rfl, each⟩ :=
            ih (fun r member => wf r (List.mem_cons_of_mem _ member)) later
          exact ⟨group :: groups, tail, by rw [List.flatten_cons, List.append_assoc],
            .cons affords each⟩

theorem length_le_of_affords {groups : List (List (Read 4096))}
    (each : List.Forall₂ Affords rs groups) :
    (rs.flatMap HttpRequest.dump).length ≤ (bytesOf groups.flatten).length := by
  induction each with
  | nil => exact Nat.zero_le _
  | cons affords _ ih =>
      rw [List.flatMap_cons, List.flatten_cons, bytesOf_append, List.length_append,
        List.length_append]
      exact Nat.add_le_add affords.1 ih

/-- Groups that are long enough for their requests hold nothing else, when
together they hold no more than the requests. -/
theorem exact_of_affords {groups : List (List (Read 4096))} {tail : List (Read 4096)}
    (each : List.Forall₂ Affords rs groups)
    (sent : bytesOf (groups.flatten ++ tail) = rs.flatMap HttpRequest.dump) :
    tail = [] ∧
      List.Forall₂ (fun r group => Affords r group ∧ bytesOf group = r.dump) rs groups := by
  induction each with
  | nil =>
      refine ⟨by_contra fun some_read => ?_, .nil⟩
      obtain ⟨read, rest, rfl⟩ := List.exists_cons_of_ne_nil some_read
      rw [List.flatten_nil, List.nil_append, bytesOf_cons, List.flatMap_nil,
        List.append_eq_nil_iff] at sent
      exact read.nonempty sent.1
  | @cons r group rs groups affords each ih =>
      rw [List.flatten_cons, List.append_assoc, bytesOf_append, List.flatMap_cons] at sent
      have total := congrArg List.length sent
      have later := length_le_of_affords each
      rw [List.length_append, List.length_append, bytesOf_append, List.length_append] at total
      have length : (bytesOf group).length = r.dump.length := by
        have := affords.1
        omega
      obtain ⟨here, there⟩ := List.append_inj sent length
      obtain ⟨none_left, exactly⟩ := ih there
      exact ⟨none_left, .cons ⟨affords, here⟩ exactly⟩

/-- A request whose text was accepted has a body of a length that can be read. -/
theorem small_of_affords {groups : List (List (Read 4096))}
    (exactly : List.Forall₂ (fun r group => Affords r group ∧ bytesOf group = r.dump) rs groups)
    (wf : ∀ r ∈ rs, WellFormed r) : ∀ r ∈ rs, r.body.length < 2 ^ 31 := by
  induction exactly with
  | nil => exact fun r member => absurd member List.not_mem_nil
  | @cons r group rs groups here _ ih =>
      obtain ⟨⟨-, req, left, settled⟩, text⟩ := here
      have small : r.body.length < 2 ^ 31 := by
        by_contra large
        obtain ⟨msg, left', threw⟩ :=
          (wf r List.mem_cons_self).settles_dump_large (Nat.not_lt.mp large) []
        rw [List.append_nil, ← text] at threw
        cases (settled.unique threw).1
      intro r' member
      rcases List.mem_cons.mp member with rfl | later
      · exact small
      · exact ih (fun r member => wf r (List.mem_cons_of_mem _ member)) r' later

/-- **When pipelined requests are served.** The requests a client sends back to
back are all passed on, in order and as they were sent, exactly when their bodies
have lengths that `std::stoi` can read and no read of the server carries bytes of
two requests. -/
theorem pipeline_served_iff (wf : ∀ r ∈ rs, WellFormed r) (keeps : ∀ r ∈ rs, r.keepAlive = true)
    (sent : bytesOf reads = rs.flatMap HttpRequest.dump) :
    List.Forall₂ Matches rs (handleClient true (.ofReads reads)).1 ↔
      (∀ r ∈ rs, r.body.length < 2 ^ 31) ∧ ReadApart rs reads := by
  have serves := handleClient_serves reads
  constructor
  · intro all
    obtain ⟨groups, tail, rfl, each⟩ := serves.groups wf all
    obtain ⟨rfl, exactly⟩ := exact_of_affords each sent
    exact ⟨small_of_affords exactly wf, groups, List.append_nil _,
      exactly.imp fun _ _ both => both.2⟩
  · rintro ⟨small, apart⟩
    exact serves.complete wf keeps small apart

/-- The request `GET / HTTP/1.1` of a client that keeps the connection. -/
def ping : HttpRequest := HttpRequest.new 0x11 true

theorem wellFormed_ping : WellFormed ping where
  method := by decide
  version := by decide
  path_slash := by decide
  path_free := by decide
  query_free := by decide
  fragment_free := by decide
  names_free := by decide
  names_own := by decide
  values_ne_nil := by decide
  values_free := by decide

theorem length_dump_ping : ping.dump.length = 42 := by decide

/-- A read that carries one request. -/
def pingRead : Read 4096 := ⟨ping.dump, by decide, by decide⟩

/-- A read that carries two. -/
def pingsRead : Read 4096 := ⟨ping.dump ++ ping.dump, by decide, by decide⟩

theorem each_ping {P : HttpRequest → Prop} (holds : P ping) : ∀ r ∈ [ping, ping], P r := by
  intro r member
  rw [List.eq_of_mem_replicate (n := 2) member]
  exact holds

/-- Two requests that arrive in two reads. -/
theorem two_pings_served :
    List.Forall₂ Matches [ping, ping] (handleClient true (.ofReads [pingRead, pingRead])).1 :=
  (pipeline_served_iff (each_ping wellFormed_ping) (each_ping rfl) rfl).mpr
    ⟨each_ping (by decide), [[pingRead], [pingRead]], rfl, .cons (List.append_nil _)
      (.cons (List.append_nil _) .nil)⟩

/-- Two requests that arrive in one read: the second is lost. -/
theorem not_two_pings_at_once :
    (∀ r ∈ [ping, ping], WellFormed r) ∧ (∀ r ∈ [ping, ping], r.keepAlive = true) ∧
      bytesOf [pingsRead] = [ping, ping].flatMap HttpRequest.dump ∧
      ¬List.Forall₂ Matches [ping, ping] (handleClient true (.ofReads [pingsRead])).1 := by
  refine ⟨each_ping wellFormed_ping, each_ping rfl, rfl, fun all => ?_⟩
  obtain ⟨groups, tail, split, each⟩ :=
    (handleClient_serves [pingsRead]).groups (each_ping wellFormed_ping) all
  have some_read : ∀ {group : List (Read 4096)}, Affords ping group → 0 < group.length := by
    rintro group ⟨room, -⟩
    rw [length_dump_ping] at room
    exact List.length_pos_iff.mpr (reads_ne_nil (by omega))
  cases each with
  | cons first later =>
      cases later with
      | cons second _ =>
          have length := congrArg List.length split
          simp only [List.flatten_cons, List.length_append, List.length_cons, List.length_nil]
            at length
          have := some_read first
          have := some_read second
          omega

end Reyao.Http
