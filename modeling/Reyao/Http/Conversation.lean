import Reyao.Http.ResponseText
import Reyao.Http.Server
import Reyao.Http.Servlet
import Reyao.Lib.Dialogue

/-!
# Conversations with the HTTP server (`http/http_server.cc`, `http/http_servlet.cc`)

`handleClient` answers the requests of a connection one after another, each with the
response that the servlet for its path fills in. Here the server is one party of a
dialogue; the other is a client that sends its next request when it has taken in the
response to the last, with the `HttpResponseParser` of the repository.

A servlet is a function of the request and of the response it is handed, and of nothing else:
it keeps no state of its own and leaves the session alone. The client has a response as its
parser reads it, with a reason that is one blank longer.

* `server_is_code`: in every run, whatever client and kernel do, the server has served what
  `handleClient` serves on the reads it has got.
* `conversation_answered`: with such a client every request is answered, in order, however
  the bytes are cut. No parser has bytes of the next message in its buffer when it is
  dropped, as it may have with a client that does not wait.
-/

namespace Reyao.Http

open Lib

/-! ## Servlets -/

/-- A `Servlet` that is not a dispatcher. -/
inductive Servlet : Type
  /-- `FunctionServlet(func)`. -/
  | function (func : HttpRequest → HttpResponse → HttpResponse)
  /-- A `NoFoundServlet` with its `content_`. -/
  | noFound (content : Bytes)

namespace Servlet

/-- `NoFoundServlet(server_name)`. -/
def noFoundServlet (server_name : Bytes) : Servlet :=
  .noFound (ascii "<html><head><title>404 Not Found" ++
    ascii "</title></head><body><center><h1>404 Not Found</h1></center>" ++
    ascii "<hr><center>" ++ server_name ++ ascii "</center></body></html>")

/-- `handle(req, rsp, session)`: the response as it leaves it. -/
def handle (req : HttpRequest) (rsp : HttpResponse) : Servlet → HttpResponse
  | .function func => func req rsp
  | .noFound content =>
      { ((({ rsp with status := .NOT_FOUND }).addHeader (ascii "Server") (ascii "Reyao")).addHeader
          (ascii "Content-Type") (ascii "text/html")) with body := content }

end Servlet

namespace ServletDispatch

/-- `ServletDispatch()`. A `Servlet::SPtr` may be null. -/
def new : ServletDispatch (Option Servlet) where
  default := some (Servlet.noFoundServlet (ascii "Reyao"))

/-- `handle(req, rsp, session)`. -/
def handle (fnmatch : Bytes → Bytes → Bool) (req : HttpRequest) (rsp : HttpResponse)
    (d : ServletDispatch (Option Servlet)) : HttpResponse :=
  match d.getMatchServlet fnmatch req.path with
  | some servlet => servlet.handle req rsp
  | none => rsp

end ServletDispatch

/-! ## The server -/

/-- An `HttpServer`. -/
structure HttpServer : Type where
  keepAlive : Bool
  dispatch : ServletDispatch (Option Servlet)
  /-- The function of the C library. -/
  fnmatch : Bytes → Bytes → Bool

namespace HttpServer

/-- What `handleClient` makes of a request that `recvRequest` has accepted: the request as it is
passed to the dispatcher, and the response as it is sent. -/
def respond (v : HttpServer) (req : HttpRequest) : HttpRequest × HttpResponse :=
  let req := req.markKeepAlive
  let rsp := HttpResponse.new req.version (req.keepAlive && v.keepAlive)
  (req, v.dispatch.handle v.fnmatch req rsp)

/-- The loop of `handleClient`: the requests and the responses that go to `sendResponse`. -/
def serveRequests (v : HttpServer) :
    Nat → SocketStream 4096 → List (HttpRequest × HttpResponse) × Option Fault :=
  serveLoop fun req => (v.respond req, v.keepAlive && (v.respond req).1.keepAlive)

/-- `handleClient(client)`. -/
def serveClient (v : HttpServer) (ss : SocketStream 4096) :
    List (HttpRequest × HttpResponse) × Option Fault :=
  v.serveRequests (ss.incoming.length + 1) ss

theorem map_serveRequests (v : HttpServer) (fuel : Nat) (ss : SocketStream 4096) :
    ((v.serveRequests fuel ss).1.map Prod.fst, (v.serveRequests fuel ss).2) =
      handleRequests v.keepAlive fuel ss := by
  induction fuel generalizing ss with
  | zero => rfl
  | succ fuel ih =>
      rw [serveRequests, handleRequests, serveLoop, serveLoop]
      cases parseRequest ss (HttpRequest.new 0x11 false) with
      | error e _ => rfl
      | ok a p =>
          obtain ⟨accepted, ss⟩ := a
          cases accepted with
          | false => rfl
          | true =>
              have later := ih ss
              rw [serveRequests, handleRequests] at later
              dsimp only [respond] at later ⊢
              rw [← later]
              split <;> rfl

/-- The responses aside, the server is the one of `handleClient`. -/
theorem map_serveClient (v : HttpServer) (ss : SocketStream 4096) :
    ((v.serveClient ss).1.map Prod.fst, (v.serveClient ss).2) = handleClient v.keepAlive ss :=
  v.map_serveRequests _ ss

/-! ## The parties -/

/-- The server as a party: it answers what the parser accepts and hangs up on all else. -/
def party (v : HttpServer) : Party UInt8 (Phase × HttpRequest) (Ended HttpRequest) where
  machine := machine HttpRequest
  start := (.firstLine, HttpRequest.new 0x11 false)
  start_waits := rfl
  room := 4096
  room_pos := Nat.zero_lt_succ 4095
  speaks heard :=
    match heard.getLast? with
    | some ⟨.ok true, req⟩ =>
        some ((v.respond req).2.dump, v.keepAlive && (v.respond req).1.keepAlive)
    | _ => none

/-- What the server has served when its parsers have ended like this. -/
def served (v : HttpServer) (heard : List (Ended HttpRequest)) :
    List (HttpRequest × HttpResponse) :=
  heard.filterMap fun ended =>
    match ended with
    | ⟨.ok true, req⟩ => some (v.respond req)
    | _ => none

theorem served_nil (v : HttpServer) : v.served [] = [] := rfl

theorem served_snoc (v : HttpServer) (heard : List (Ended HttpRequest)) (req : HttpRequest) :
    v.served (heard ++ [⟨.ok true, req⟩]) = v.served heard ++ [v.respond req] := by
  unfold served
  rw [List.filterMap_append]
  rfl

theorem served_snoc_refused (v : HttpServer) (heard : List (Ended HttpRequest))
    {ended : Ended HttpRequest} (refused : ended.outcome ≠ .ok true) :
    v.served (heard ++ [ended]) = v.served heard := by
  unfold served
  rw [List.filterMap_append]
  obtain ⟨outcome, req⟩ := ended
  match outcome with
  | .error e => exact List.append_nil _
  | .ok false => exact List.append_nil _
  | .ok true => exact absurd rfl refused

theorem speaks_snoc (v : HttpServer) (heard : List (Ended HttpRequest)) (req : HttpRequest) :
    v.party.speaks (heard ++ [⟨.ok true, req⟩]) =
      some ((v.respond req).2.dump, v.keepAlive && (v.respond req).1.keepAlive) := by
  unfold party
  dsimp only
  rw [List.getLast?_concat]

/-- It goes on only after a request that was accepted. -/
theorem accepted_of_speaks {v : HttpServer} {heard : List (Ended HttpRequest)}
    {ended : Ended HttpRequest} {said : Bytes × Bool}
    (speaks : v.party.speaks (heard ++ [ended]) = some said) : ended.outcome = .ok true := by
  unfold party at speaks
  dsimp only at speaks
  rw [List.getLast?_concat] at speaks
  obtain ⟨outcome, req⟩ := ended
  match outcome with
  | .error e => cases speaks
  | .ok false => cases speaks
  | .ok true => rfl

/-! ## The server is the code's -/

variable {v : HttpServer}

/-- A turn of the loop that answers. -/
theorem serveRequests_accepted {fuel : Nat} {reads rest : List (Read 4096)} {req : HttpRequest}
    {left : Bytes} {unread : List Bytes}
    (drive : Drive (machine HttpRequest) (.firstLine, HttpRequest.new 0x11 false) []
      (reads.map Read.data) (.stopped ⟨.ok true, req⟩) left unread)
    (later : rest.map Read.data = unread) :
    (v.serveRequests (fuel + 1) (.ofReads reads)).1 = v.respond req ::
      if v.keepAlive && (v.respond req).1.keepAlive then
        (v.serveRequests fuel (.ofReads rest)).1
      else [] := by
  obtain ⟨verdict, left', rest', drive', answers, -⟩ :=
    parseRequest_drives reads (HttpRequest.new 0x11 false)
  subst later
  obtain ⟨rfl, -, same⟩ := drive.unique drive'
  obtain ⟨p, ran, rfl⟩ := answers
  obtain rfl := List.map_injective_iff.mpr Read.data_injective same
  rw [serveRequests, serveLoop, ran]
  dsimp only
  split <;> rfl

/-- A turn that ends the loop without an answer. -/
theorem serveRequests_refused {fuel : Nat} {reads : List (Read 4096)}
    {verdict : Verdict (Phase × HttpRequest) (Ended HttpRequest)} {left : Bytes}
    {unread : List Bytes}
    (drive : Drive (machine HttpRequest) (.firstLine, HttpRequest.new 0x11 false) []
      (reads.map Read.data) verdict left unread)
    (refused : ∀ req, verdict ≠ .stopped ⟨.ok true, req⟩) :
    (v.serveRequests fuel (.ofReads reads)).1 = [] := by
  obtain ⟨verdict', left', rest', drive', answers, -⟩ :=
    parseRequest_drives reads (HttpRequest.new 0x11 false)
  obtain ⟨rfl, -, -⟩ := drive.unique drive'
  cases fuel with
  | zero => rfl
  | succ fuel =>
      rw [serveRequests, serveLoop]
      cases verdict with
      | paused s =>
          obtain ⟨p, ran, -⟩ := answers
          rw [ran]
      | stopped ended =>
          obtain ⟨outcome, msg⟩ := ended
          cases outcome with
          | error e =>
              obtain ⟨p, threw, -⟩ := answers
              rw [threw]
          | ok accepted =>
              cases accepted with
              | false =>
                  obtain ⟨p, ran, -⟩ := answers
                  rw [ran]
              | true => exact absurd rfl (refused msg)

theorem serveRequests_nil (fuel : Nat) : (v.serveRequests fuel (.ofReads [])).1 = [] :=
  serveRequests_refused (.eof v.party.settles_start) fun _ => by simp

/-- A party that is where its chunks take it has served what the loop serves on them. -/
theorem served_of_hears {before heard : List (Ended HttpRequest)} {chunks : List Bytes}
    {stand : Stand UInt8 (Phase × HttpRequest)} (hears : Hears v.party before chunks heard stand)
    {reads : List (Read 4096)} (same : reads.map Read.data = chunks) {fuel : Nat}
    (enough : reads.length < fuel) :
    v.served heard = v.served before ++ (v.serveRequests fuel (.ofReads reads)).1 := by
  induction hears generalizing reads fuel with
  | @waits before chunks s q drive =>
      subst same
      rw [serveRequests_refused drive (fun _ => by simp), List.append_nil]
  | @turn before chunks ended left drive =>
      subst same
      obtain ⟨fuel, rfl⟩ : ∃ k, fuel = k + 1 := ⟨fuel - 1, by omega⟩
      obtain ⟨outcome, req⟩ := ended
      match outcome with
      | .ok true =>
          rw [serveRequests_accepted drive List.map_nil, served_snoc, serveRequests_nil, ite_self]
      | .ok false =>
          rw [served_snoc_refused v before (by simp),
            serveRequests_refused drive (fun _ => by simp), List.append_nil]
      | .error e =>
          rw [served_snoc_refused v before (by simp),
            serveRequests_refused drive (fun _ => by simp), List.append_nil]
  | @next before heard chunks rest ended left msg stand drive speaks _ ih =>
      subst same
      obtain ⟨fuel, rfl⟩ : ∃ k, fuel = k + 1 := ⟨fuel - 1, by omega⟩
      obtain ⟨outcome, req⟩ := ended
      obtain rfl : outcome = .ok true := accepted_of_speaks speaks
      obtain ⟨front, split, -⟩ := drive.consumed
      obtain ⟨reads', later, rfl, rfl, rfl⟩ := List.map_eq_append_iff.mp split
      rw [speaks_snoc, Option.some.injEq, Prod.mk.injEq] at speaks
      have fewer := fewer_reads drive
      rw [serveRequests_accepted drive rfl, if_pos speaks.2, @ih later rfl fuel (by omega),
        served_snoc, List.append_assoc, List.singleton_append]
  | ends _ ih => exact ih same enough

end HttpServer

/-! ## The connection -/

/-- The states and the results of a client and of the server. -/
abbrev States (S : Type) : Who → Type
  | .caller => S
  | .callee => Phase × HttpRequest

abbrev Results (R : Type) : Who → Type
  | .caller => R
  | .callee => Ended HttpRequest

/-- The two ends of a connection. -/
def ends {S R : Type} (client : Party UInt8 S R) (v : HttpServer) :
    (i : Who) → Party UInt8 (States S i) (Results R i)
  | .caller => client
  | .callee => v.party

/-- **The server's steps are the code's.** In every run, with any client and whatever the kernel
makes of the bytes, the server has served so far what `handleClient` serves on the reads it
has got so far. -/
theorem server_is_code {S R : Type} {client : Party UInt8 S R} {v : HttpServer}
    {es : List (Dialogue.Event UInt8)} {d : Dialogue UInt8 (States S) (Results R)}
    (run : Run (Dialogue.Step (ends client v)) (Dialogue.begin_ (ends client v) .caller) es d) :
    ∃ reads : List (Read 4096), reads.map Read.data = (d .callee).chunks ∧
      (v.serveClient (.ofReads reads)).1 = v.served (d .callee).heard := by
  have hears : Hears v.party [] (d .callee).chunks (d .callee).heard (d .callee).stand :=
    Dialogue.hears_of_run (i := .callee) (by decide) run
  obtain ⟨reads, same⟩ : ∃ reads : List (Read 4096), reads.map Read.data = (d .callee).chunks := by
    have fits : ∀ chunk ∈ (d .callee).chunks, chunk ≠ [] ∧ chunk.length ≤ 4096 :=
      Dialogue.chunks_of_run run .callee
    exact ⟨(d .callee).chunks.pmap (fun chunk fits => ⟨chunk, fits.1, fits.2⟩) fits, by
      rw [List.map_pmap, List.pmap_eq_self]
      exact fun _ _ => rfl⟩
  have served := HttpServer.served_of_hears hears same (Nat.lt_succ_self reads.length)
  rw [HttpServer.served_nil, List.nil_append] at served
  refine ⟨reads, same, ?_⟩
  rw [served]
  rfl

/-! ## A client that waits -/

/-- The parser has accepted. -/
def Ended.accepted {μ : Type} (ended : Ended μ) : Bool :=
  match ended.outcome with
  | .ok accepted => accepted
  | .error _ => false

/-- A client that sends each of these requests when it has taken in the response to the one
before, with an `HttpResponseParser`, and closes the connection after the last response or
one that it cannot read. -/
def client (requests : List HttpRequest) :
    Party UInt8 (Phase × HttpResponse) (Ended HttpResponse) where
  machine := machine HttpResponse
  start := (.firstLine, HttpResponse.new 0x11 false)
  start_waits := rfl
  room := HttpMessage.maxBufferSize HttpResponse
  room_pos := HttpMessage.maxBufferSize_pos
  speaks heard :=
    if heard.all Ended.accepted then
      (requests[heard.length]?).map fun r => (r.dump, true)
    else none

/-- The requests and the responses can be read, and a request that is not the last keeps the
connection, with a server that lets it. -/
structure Answerable (v : HttpServer) (requests : List HttpRequest) : Prop where
  wf : ∀ r ∈ requests, WellFormed r
  small : ∀ r ∈ requests, r.body.length < 2 ^ 31
  sendable : ∀ r ∈ requests, (v.respond (received r)).2.Sendable
  keeps : ∀ r ∈ requests.dropLast, v.keepAlive = true ∧ r.keepAlive = true

/-- What the server's parser makes of the text of a request. -/
def asked (r : HttpRequest) : Ended HttpRequest := ⟨.ok true, received r⟩

/-- What the client's parser makes of the text of the response to it. -/
def answered (v : HttpServer) (r : HttpRequest) : Ended HttpResponse :=
  ⟨.ok true, (v.respond (received r)).2.received⟩

/-- What the two have heard when these requests have been answered. -/
def exchanged (v : HttpServer) (requests : List HttpRequest) :
    (i : Who) → List (Results (Ended HttpResponse) i)
  | .caller => requests.map (answered v)
  | .callee => requests.map asked

/-- A bound on the steps: each byte on its own, the sends and the end of the stream. -/
def steps (v : HttpServer) : List HttpRequest → Nat
  | [] => 1
  | r :: later =>
      steps v later + ((v.respond (received r)).2.dump.length + 1) + (r.dump.length + 1)

variable {v : HttpServer} {requests done later : List HttpRequest} {r : HttpRequest}

theorem client_speaks (heard : List HttpRequest) :
    (client requests).speaks (heard.map (answered v)) =
      (requests[heard.length]?).map fun r => (r.dump, true) := by
  unfold client
  dsimp only
  rw [if_pos, List.length_map]
  rw [List.all_map, List.all_eq_true]
  exact fun _ _ => rfl

theorem exchanged_snoc (v : HttpServer) (done : List HttpRequest) (r : HttpRequest) :
    Function.update (Function.update (exchanged v done) .callee (done.map asked ++ [asked r]))
      .caller (done.map (answered v) ++ [answered v r]) = exchanged v (done ++ [r]) := by
  funext i
  cases i with
  | caller =>
      rw [Function.update_self]
      change _ = (done ++ [r]).map (answered v)
      rw [List.map_append]
      rfl
  | callee =>
      rw [Function.update_of_ne (by decide), Function.update_self]
      change _ = (done ++ [r]).map asked
      rw [List.map_append]
      rfl

/-- The server goes on after a request that is not the last. -/
theorem Answerable.goes_on (ok : Answerable v requests) (split : requests = done ++ r :: later)
    (more : later ≠ []) : (v.keepAlive && (v.respond (received r)).1.keepAlive) = true := by
  have inside : r ∈ requests.dropLast := by
    rw [split, List.dropLast_append_of_ne_nil (List.cons_ne_nil r later),
      List.dropLast_cons_of_ne_nil more]
    exact List.mem_append_right _ List.mem_cons_self
  have member : r ∈ requests := List.mem_of_mem_dropLast inside
  obtain ⟨lets, keeps⟩ := ok.keeps r inside
  have kept : (v.respond (received r)).1.keepAlive = true := (ok.wf r member).received_keeps keeps
  rw [lets, kept]
  rfl

/-- The requests that are left are answered. -/
theorem Answerable.talks (ok : Answerable v requests) (split : requests = done ++ later) :
    ∃ n ≤ steps v later, Dialogue.Talks (ends (client requests) v) true (exchanged v done) .caller
      (exchanged v requests) n := by
  induction later generalizing done with
  | nil =>
      rw [List.append_nil] at split
      subst split
      have silent : (client requests).speaks (exchanged v requests .caller) = none := by
        refine (client_speaks requests).trans ?_
        rw [List.getElem?_eq_none (Nat.le_refl _)]
        rfl
      exact ⟨1, Nat.le_refl 1, .stops silent⟩
  | cons r later ih =>
      have member : r ∈ requests := by
        rw [split]
        exact List.mem_append_right _ List.mem_cons_self
      have asks : (client requests).speaks (exchanged v done .caller) = some (r.dump, true) := by
        refine (client_speaks done).trans ?_
        rw [split, List.getElem?_append_right (Nat.le_refl _), Nat.sub_self]
        rfl
      have heard := (ok.wf r member).settles_dump (ok.small r member) []
      rw [List.append_nil] at heard
      have answers : v.party.speaks (done.map asked ++ [asked r]) =
          some ((v.respond (received r)).2.dump,
            v.keepAlive && (v.respond (received r)).1.keepAlive) := v.speaks_snoc _ _
      have taken_in := (ok.sendable r member).settles_dump []
      rw [List.append_nil] at taken_in
      have next : ∃ n ≤ steps v later, Dialogue.Talks (ends (client requests) v)
          (v.keepAlive && (v.respond (received r)).1.keepAlive) (exchanged v (done ++ [r])) .caller
          (exchanged v requests) n := by
        cases goes : v.keepAlive && (v.respond (received r)).1.keepAlive with
        | true => exact ih (by rw [split, List.append_assoc]; rfl)
        | false =>
            obtain rfl : later = [] := by
              by_contra more
              rw [ok.goes_on split more] at goes
              cases goes
            subst split
            have silent : (client (done ++ [r])).speaks (exchanged v (done ++ [r]) .caller) =
                none := by
              refine (client_speaks (done ++ [r])).trans ?_
              rw [List.getElem?_eq_none (Nat.le_refl _)]
              rfl
            exact ⟨0, Nat.zero_le _, .stops silent⟩
      obtain ⟨n, bound, talks⟩ := next
      rw [← exchanged_snoc] at talks
      have from_server : Dialogue.Talks (ends (client requests) v) true
          (Function.update (exchanged v done) .callee (done.map asked ++ [asked r])) .callee
          (exchanged v requests) (n + (v.respond (received r)).2.dump.length + 1) :=
        .goes (i := .callee) (j := .caller) (by decide) answers taken_in talks
      refine ⟨n + (v.respond (received r)).2.dump.length + 1 + r.dump.length + 1, ?_,
        .goes (i := .caller) (j := .callee) (by decide) asks heard from_server⟩
      unfold steps
      omega

theorem Answerable.talks_all (ok : Answerable v requests) :
    ∃ n ≤ steps v requests, Dialogue.Talks (ends (client requests) v) true (fun _ => []) .caller
      (exchanged v requests) n := by
  have begins : exchanged v [] = fun _ => [] := by
    funext i
    cases i <;> rfl
  rw [← begins]
  exact ok.talks (List.nil_append requests).symm

/-- **A conversation is answered.** A client that waits for each response and a server, whatever
the kernel makes of the bytes they send whole: in every order of their steps there are at
most `steps` of them and none is possible only when both have closed the connection; the
requests the server has read are the first of those sent, and the responses the client has
read are those of the servlets to them, in order; and when both have closed it, all. -/
theorem conversation_answered (ok : Answerable v requests) {es : List (Dialogue.Event UInt8)}
    {d : Dialogue UInt8 (States (Phase × HttpResponse)) (Results (Ended HttpResponse))}
    (run : Run (Guarded Dialogue.Calm (Dialogue.Step (ends (client requests) v)))
      (Dialogue.begin_ (ends (client requests) v) .caller) es d) :
    es.length ≤ steps v requests ∧
    ((∃ e d', Guarded Dialogue.Calm (Dialogue.Step (ends (client requests) v)) d e d') ↔
      ∃ i, (d i).stand ≠ .over) ∧
    (d .callee).heard <+: requests.map asked ∧
    (d .caller).heard <+: requests.map (answered v) ∧
    ((∀ i, (d i).stand = .over) →
      (d .callee).heard = requests.map asked ∧ (d .caller).heard = requests.map (answered v)) := by
  obtain ⟨n, bound, talks⟩ := ok.talks_all
  obtain ⟨few, moves, heard, all⟩ := talks.run (j := .callee) (by decide) run
  exact ⟨few.trans bound, moves, heard .callee, heard .caller,
    fun gone => ⟨all gone .callee, all gone .caller⟩⟩

/-- The response of a `NoFoundServlet` can be sent. -/
theorem noFound_sendable {content : Bytes} (small : content.length < 2 ^ 31) (req : HttpRequest)
    {version : Nat} (is : version = 0x10 ∨ version = 0x11) (keepAlive : Bool) :
    ((Servlet.noFound content).handle req (HttpResponse.new version keepAlive)).Sendable := by
  have entries : ((Servlet.noFound content).handle req
      (HttpResponse.new version keepAlive)).headers.entries =
        ((StrMap.empty.assign (ascii "Server") (ascii "Reyao")).assign
          (ascii "Content-Type") (ascii "text/html")).entries := rfl
  refine HttpResponse.WellFormed.sendable ⟨is, List.not_mem_nil, ?_, ?_, ?_, ?_, small⟩
  · rw [entries]
    decide
  · rw [entries]
    decide
  · rw [entries]
    decide
  · rw [entries]
    decide

/-- A server without servlets answers every request it can read. -/
theorem answerable_new (keepAlive : Bool) (fnmatch : Bytes → Bytes → Bool)
    (wf : ∀ r ∈ requests, WellFormed r) (small : ∀ r ∈ requests, r.body.length < 2 ^ 31)
    (keeps : ∀ r ∈ requests.dropLast, keepAlive = true ∧ r.keepAlive = true) :
    Answerable ⟨keepAlive, ServletDispatch.new, fnmatch⟩ requests := by
  refine ⟨wf, small, fun r member => ?_, keeps⟩
  obtain ⟨marked, is⟩ := markKeepAlive_eq (received r)
  have version : (received r).markKeepAlive.version = 0x10 ∨
      (received r).markKeepAlive.version = 0x11 := by
    rw [is]
    exact (wf r member).version
  have small_content : (ascii "<html><head><title>404 Not Found" ++
      ascii "</title></head><body><center><h1>404 Not Found</h1></center>" ++
      ascii "<hr><center>" ++ ascii "Reyao" ++ ascii "</center></body></html>").length < 2 ^ 31 := by
    decide +kernel
  exact noFound_sendable small_content (received r).markKeepAlive version
    ((received r).markKeepAlive.keepAlive && keepAlive)

/-- A server that keeps connections, and has no servlets. -/
def emptyServer : HttpServer := ⟨true, ServletDispatch.new, fun _ _ => false⟩

theorem answerable_pings : Answerable emptyServer [ping, ping] := by
  refine answerable_new true _ (each_ping wellFormed_ping) (each_ping (by decide)) fun r member => ?_
  have keeps : ∀ r ∈ [ping, ping], r.keepAlive = true := each_ping rfl
  exact ⟨rfl, keeps r (List.mem_of_mem_dropLast member)⟩

/-- A conversation that can be answered can be brought to its end. -/
theorem Answerable.exists_over (ok : Answerable v requests) : ∃ es,
    ∃ d : Dialogue UInt8 (States (Phase × HttpResponse)) (Results (Ended HttpResponse)),
      Run (Guarded Dialogue.Calm (Dialogue.Step (ends (client requests) v)))
        (Dialogue.begin_ (ends (client requests) v) .caller) es d ∧
      ∀ i, (d i).stand = .over := by
  obtain ⟨n, -, talks⟩ := ok.talks_all
  exact (Dialogue.phase_begin (j := .callee) (by decide) talks).exists_over

/-- Two requests for pages that do not exist. -/
theorem conversation_answered_pings : ∃ es,
    ∃ d : Dialogue UInt8 (States (Phase × HttpResponse)) (Results (Ended HttpResponse)),
      Run (Guarded Dialogue.Calm (Dialogue.Step (ends (client [ping, ping]) emptyServer)))
        (Dialogue.begin_ (ends (client [ping, ping]) emptyServer) .caller) es d ∧
      (∀ i, (d i).stand = .over) ∧ es.length ≤ steps emptyServer [ping, ping] ∧
      (d .caller).heard = [ping, ping].map (answered emptyServer) := by
  obtain ⟨es, d, run, gone⟩ := answerable_pings.exists_over
  have all := conversation_answered answerable_pings run
  exact ⟨es, d, run, gone, all.1, (all.2.2.2.2 gone).2⟩

/-- The same conversation, as `handleClient` sees it. -/
theorem server_is_code_pings : ∃ es,
    ∃ d : Dialogue UInt8 (States (Phase × HttpResponse)) (Results (Ended HttpResponse)),
      Run (Dialogue.Step (ends (client [ping, ping]) emptyServer))
        (Dialogue.begin_ (ends (client [ping, ping]) emptyServer) .caller) es d ∧
      (∀ i, (d i).stand = .over) ∧
      ∃ reads : List (Read 4096), reads.map Read.data = (d .callee).chunks ∧
        (emptyServer.serveClient (.ofReads reads)).1 = emptyServer.served (d .callee).heard := by
  obtain ⟨es, d, run, gone⟩ := answerable_pings.exists_over
  have plain := run.mono fun ran => ran.2
  exact ⟨es, d, plain, gone, server_is_code plain⟩

end Reyao.Http
