import Reyao.Lib.Run
import Reyao.Rpc.Dispatch
import Reyao.SendAll

/-!
# A call on its connection (`rpc/rpc_client.h`, `rpc/rpc_server.cc`)

One call is a client that sends a request and receives one response, and a server that
receives one request, looks the handler up and sends what it returns. Between them are
the bytes in flight in both directions. The kernel decides how much of what is offered
to a `send` is taken, how much of what is in flight a `recv` delivers, and whether either
fails; each side goes on whenever it can.

* `parties_are_code`: what each side makes of its reads is what `handleClient` and the
  closure of `Call` make of them.
* `call_answered`: where the kernel takes frames whole and cuts none above its first ten
  bytes, every order of the steps ends, and with the handler called for what the server's
  handler returned for the request.
-/

namespace Reyao.Rpc

open Lib Reyao.ByteArray

/-! ## Receiving, read by read -/

/-- A turn of the loop of `receive`: the bytes that are left, or what it returns. -/
def receiveTurn (pb : Protobuf) (q data : Bytes) : Bytes ⊕ (ErrMsg × Option Message) :=
  let q := q ++ data
  if (q.length : Int) > kHeaderLen + kMinMessageLen then
    let len := wordValue (q.take 4)
    let q := q.drop 4
    if len > kMaxMessageLen ∨ len < kMinMessageLen then
      .inr (⟨.kInvalidLength, ascii "invalid length len= " ++ showInt len⟩, none)
    else if q.length ≥ toSize len then
      .inr ((parseFrame pb len noError q).2, (parseFrame pb len noError q).1)
    else .inl q
  else .inl q

theorem receiveBytes_cons (pb : Protobuf) (r : Read 4096) (reads : List (Read 4096)) (q : Bytes) :
    receiveBytes pb (r :: reads) q =
      match receiveTurn pb q r.data with
      | .inl q' => receiveBytes pb reads q'
      | .inr result => result := by
  rw [receiveBytes, receiveTurn]
  simp only
  split
  · split
    · rfl
    · split <;> rfl
  · rfl

/-- The turns on the reads so far have left these bytes and no result. -/
inductive Turns (pb : Protobuf) : List (Read 4096) → Bytes → Prop
  | nil : Turns pb [] []
  | snoc {reads : List (Read 4096)} {q q' : Bytes} {r : Read 4096} :
      Turns pb reads q → receiveTurn pb q r.data = .inl q' → Turns pb (reads ++ [r]) q'

theorem Turns.append {pb : Protobuf} {reads : List (Read 4096)} {q : Bytes}
    (turns : Turns pb reads q) (more : List (Read 4096)) :
    receiveBytes pb (reads ++ more) [] = receiveBytes pb more q := by
  induction turns generalizing more with
  | nil => rfl
  | @snoc reads q q' r _ turn ih => rw [List.append_assoc, ih, List.singleton_append,
      receiveBytes_cons, turn]

/-- What `receive` returns at the end of these reads. -/
theorem Turns.at_end {pb : Protobuf} {reads : List (Read 4096)} {q : Bytes}
    (turns : Turns pb reads q) : receiveBytes pb reads [] = closed := by
  have whole := turns.append []
  rwa [List.append_nil] at whole

theorem Turns.returns {pb : Protobuf} {reads : List (Read 4096)} {q : Bytes} {r : Read 4096}
    {result : ErrMsg × Option Message} (turns : Turns pb reads q)
    (turn : receiveTurn pb q r.data = .inr result) (more : List (Read 4096)) :
    receiveBytes pb (reads ++ r :: more) [] = result := by
  rw [turns.append, receiveBytes_cons, turn]

/-- While at most ten bytes are there, the turn waits. -/
theorem receiveTurn_wait (pb : Protobuf) {q data : Bytes} (few : (q ++ data).length ≤ 10) :
    receiveTurn pb q data = .inl (q ++ data) := by
  rw [receiveTurn]
  refine if_neg ?_
  rw [kMinMessageLen, kHeaderLen]
  omega

/-- A frame of more than ten bytes that is there as a whole is received. -/
theorem receiveTurn_frame {pb : Protobuf} {msg : Message} (valid : msg.Valid pb)
    (fits : ((body msg).length : Int) ≤ kMaxMessageLen) (long : 10 < (frame msg).length)
    {q : Bytes} {r : Read 4096} (whole : q ++ r.data = frame msg) :
    receiveTurn pb q r.data = .inr (noError, some msg) := by
  have received : receiveBytes pb [r] q = (noError, some msg) :=
    receiveBytes_frame valid fits
      (show q ++ r.data = frame msg ++ [] by rw [whole, List.append_nil])
      (by rw [whole]; exact long) []
  rw [receiveBytes_cons] at received
  cases turn : receiveTurn pb q r.data with
  | inl q' =>
      rw [turn] at received
      cases received
  | inr result =>
      rw [turn] at received
      exact congrArg Sum.inr received

/-! ## The two sides -/

/-- The part of `handleClient` after `receive`. -/
def answer (handlers : HandlerMap) : ErrMsg × Option Message → Handled
  | (_, none) => ⟨none, none, true⟩
  | (errMsg, some msg) =>
      if errMsg.errcode ≠ .kNoError then ⟨none, none, true⟩
      else
        match handlers msg.typeName with
        | none => ⟨none, none, true⟩
        | some callback => ⟨some (callback, msg), some (callback.onMessage msg), true⟩

/-- The part of the closure of `Call` after `receive`. -/
def accept : ErrMsg × Option Message → Answered
  | (_, none) => ⟨none, true⟩
  | (errMsg, some rsp) => if errMsg.errcode = .kNoError then ⟨some rsp, true⟩ else ⟨none, true⟩

theorem handleClient_eq (pb : Protobuf) (host : ByteOrder) (handlers : HandlerMap)
    (reads : List (Read 4096)) :
    handleClient pb host handlers (.ofReads reads) =
      .ok (answer handlers (receiveBytes pb reads [])) := by
  obtain ⟨ba, received⟩ := receive_eq pb host reads
  unfold handleClient
  rw [received]
  generalize receiveBytes pb reads [] = result
  obtain ⟨err, got⟩ := result
  cases got with
  | none => rfl
  | some msg =>
      unfold answer
      dsimp only
      split
      · rfl
      · cases handlers msg.typeName <;> rfl

theorem handleResponse_eq (pb : Protobuf) (host : ByteOrder) (reads : List (Read 4096)) :
    handleResponse pb host (.ofReads reads) = .ok (accept (receiveBytes pb reads [])) := by
  obtain ⟨ba, received⟩ := receive_eq pb host reads
  unfold handleResponse
  rw [received]
  generalize receiveBytes pb reads [] = result
  obtain ⟨err, got⟩ := result
  cases got with
  | none => rfl
  | some rsp =>
      unfold accept
      dsimp only
      split <;> rfl

inductive ClientPc : Type
  /-- Before `codec.send(req)`. -/
  | sending
  /-- In `codec.receive(rsp)`, with these bytes unread. -/
  | receiving (q : Bytes)
  /-- After `conn->close()`. -/
  | done
  deriving DecidableEq

inductive ServerPc : Type
  /-- In `codec.receive(msg)`. -/
  | receiving (q : Bytes)
  /-- Before `codec.send(rsp)`. -/
  | sending (rsp : Message)
  /-- After `client->close()`. -/
  | closed
  deriving DecidableEq

structure Exchange : Type where
  client : ClientPc := .sending
  server : ServerPc := .receiving []
  /-- The bytes in flight. -/
  toServer : Bytes := []
  toClient : Bytes := []
  /-- What `recv` has delivered. -/
  serverReads : List (Read 4096) := []
  clientReads : List (Read 4096) := []
  /-- The server's handlers that were called, and with what. -/
  invoked : List (RpcCallBackType × Message) := []
  /-- What `handler` was called with. -/
  handled : List Message := []

/-- What the kernel does for a side. -/
inductive ExchangeEvent : Type
  /-- The client's `send` takes this many bytes, or fails. -/
  | clientSends (n : Nat)
  | clientSendFails
  /-- The server's `recv` delivers data, or the end of the stream or an error. -/
  | serverReads (r : Read 4096)
  | serverReadEnds
  | serverSends (n : Nat)
  | serverSendFails
  | clientReads (r : Read 4096)
  | clientReadEnds

/-- The libraries, the registered handlers and the request of a call. -/
structure Service : Type where
  pb : Protobuf
  handlers : HandlerMap
  req : Message

namespace Exchange

/-- The server goes on with what `receive` has returned. -/
def serve (v : Service) (s : Exchange) (result : ErrMsg × Option Message) : Exchange :=
  let handled := answer v.handlers result
  { s with
    server := match handled.response with
      | some rsp => .sending rsp
      | none => .closed
    invoked := s.invoked ++ handled.invoked.toList }

/-- The client goes on with what `receive` has returned. -/
def finish (s : Exchange) (result : ErrMsg × Option Message) : Exchange :=
  { s with client := .done, handled := s.handled ++ (accept result).invoked.toList }

/-- `serializeToByteArray` needs a message that fits, and throws on others. -/
def step (v : Service) (s : Exchange) : ExchangeEvent → Option Exchange
  | .clientSends n =>
      match s.client, framed .little v.req with
      | .sending, some bytes =>
          if 0 < n ∧ n ≤ bytes.length then
            some { s with client := .receiving [], toServer := bytes.take n }
          else none
      | _, _ => none
  | .clientSendFails =>
      match s.client, framed .little v.req with
      | .sending, some _ => some { s with client := .receiving [] }
      | _, _ => none
  | .serverReads r =>
      match s.server with
      | .receiving q =>
          if r.data <+: s.toServer then
            let s := { s with
              toServer := s.toServer.drop r.data.length, serverReads := s.serverReads ++ [r] }
            match receiveTurn v.pb q r.data with
            | .inl q => some { s with server := .receiving q }
            | .inr result => some (s.serve v result)
          else none
      | _ => none
  | .serverReadEnds =>
      match s.server with
      | .receiving _ => some (s.serve v closed)
      | _ => none
  | .serverSends n =>
      match s.server with
      | .sending rsp =>
          match framed .little rsp with
          | some bytes =>
              if 0 < n ∧ n ≤ bytes.length then
                some { s with server := .closed, toClient := bytes.take n }
              else none
          | none => none
      | _ => none
  | .serverSendFails =>
      match s.server with
      | .sending rsp =>
          match framed .little rsp with
          | some _ => some { s with server := .closed }
          | none => none
      | _ => none
  | .clientReads r =>
      match s.client with
      | .receiving q =>
          if r.data <+: s.toClient then
            let s := { s with
              toClient := s.toClient.drop r.data.length, clientReads := s.clientReads ++ [r] }
            match receiveTurn v.pb q r.data with
            | .inl q => some { s with client := .receiving q }
            | .inr result => some (s.finish result)
          else none
      | _ => none
  | .clientReadEnds =>
      match s.client with
      | .receiving _ => some (s.finish closed)
      | _ => none

variable {v : Service} {s s' : Exchange} {e : ExchangeEvent}

/-- The ways a step can go. -/
inductive Goes (v : Service) (s : Exchange) : ExchangeEvent → Exchange → Prop
  | clientSends {n : Nat} {bytes : Bytes} : s.client = .sending →
      framed .little v.req = some bytes → n ≤ bytes.length →
      Goes v s (.clientSends n) { s with client := .receiving [], toServer := bytes.take n }
  | clientSendFails : s.client = .sending →
      Goes v s .clientSendFails { s with client := .receiving [] }
  | serverWaits {r : Read 4096} {q q' : Bytes} : s.server = .receiving q →
      r.data <+: s.toServer → receiveTurn v.pb q r.data = .inl q' →
      Goes v s (.serverReads r) { s with
        server := .receiving q'
        toServer := s.toServer.drop r.data.length, serverReads := s.serverReads ++ [r] }
  | serves {r : Read 4096} {q : Bytes} {result : ErrMsg × Option Message} :
      s.server = .receiving q → r.data <+: s.toServer →
      receiveTurn v.pb q r.data = .inr result →
      Goes v s (.serverReads r) (serve v { s with
        toServer := s.toServer.drop r.data.length, serverReads := s.serverReads ++ [r] } result)
  | serverReadEnds {q : Bytes} : s.server = .receiving q →
      Goes v s .serverReadEnds (s.serve v closed)
  | serverSends {n : Nat} {rsp : Message} {bytes : Bytes} : s.server = .sending rsp →
      framed .little rsp = some bytes → n ≤ bytes.length →
      Goes v s (.serverSends n) { s with server := .closed, toClient := bytes.take n }
  | serverSendFails {rsp : Message} : s.server = .sending rsp →
      Goes v s .serverSendFails { s with server := .closed }
  | clientWaits {r : Read 4096} {q q' : Bytes} : s.client = .receiving q →
      r.data <+: s.toClient → receiveTurn v.pb q r.data = .inl q' →
      Goes v s (.clientReads r) { s with
        client := .receiving q'
        toClient := s.toClient.drop r.data.length, clientReads := s.clientReads ++ [r] }
  | finishes {r : Read 4096} {q : Bytes} {result : ErrMsg × Option Message} :
      s.client = .receiving q → r.data <+: s.toClient →
      receiveTurn v.pb q r.data = .inr result →
      Goes v s (.clientReads r) (finish { s with
        toClient := s.toClient.drop r.data.length, clientReads := s.clientReads ++ [r] } result)
  | clientReadEnds {q : Bytes} : s.client = .receiving q →
      Goes v s .clientReadEnds (s.finish closed)

theorem goes_of_step (ran : s.step v e = some s') : Goes v s e s' := by
  cases e with
  | clientSends n =>
      simp only [step] at ran
      split at ran
      · rename_i bytes sending made
        split at ran
        · rename_i within
          cases ran
          exact .clientSends sending made within.2
        · cases ran
      · cases ran
  | clientSendFails =>
      simp only [step] at ran
      split at ran
      · rename_i bytes sending made
        cases ran
        exact .clientSendFails sending
      · cases ran
  | serverReads r =>
      simp only [step] at ran
      split at ran
      · rename_i q here
        split at ran
        · rename_i within
          split at ran
          · rename_i q' turn
            cases ran
            exact .serverWaits here within turn
          · rename_i result turn
            cases ran
            exact .serves here within turn
        · cases ran
      · cases ran
  | serverReadEnds =>
      simp only [step] at ran
      split at ran
      · rename_i q here
        cases ran
        exact .serverReadEnds here
      · cases ran
  | serverSends n =>
      simp only [step] at ran
      split at ran
      · rename_i rsp here
        split at ran
        · rename_i bytes made
          split at ran
          · rename_i within
            cases ran
            exact .serverSends here made within.2
          · cases ran
        · cases ran
      · cases ran
  | serverSendFails =>
      simp only [step] at ran
      split at ran
      · rename_i rsp here
        split at ran
        · cases ran
          exact .serverSendFails here
        · cases ran
      · cases ran
  | clientReads r =>
      simp only [step] at ran
      split at ran
      · rename_i q here
        split at ran
        · rename_i within
          split at ran
          · rename_i q' turn
            cases ran
            exact .clientWaits here within turn
          · rename_i result turn
            cases ran
            exact .finishes here within turn
        · cases ran
      · cases ran
  | clientReadEnds =>
      simp only [step] at ran
      split at ran
      · rename_i q here
        cases ran
        exact .clientReadEnds here
      · cases ran

/-! ## The steps are the code's -/

/-- What the sides have made of their reads. -/
structure Coded (v : Service) (s : Exchange) : Prop where
  reading : ∀ q, s.server = .receiving q → Turns v.pb s.serverReads q ∧ s.invoked = []
  served : (∀ q, s.server ≠ .receiving q) →
    s.invoked = (answer v.handlers (receiveBytes v.pb s.serverReads [])).invoked.toList
  answering : ∀ rsp, s.server = .sending rsp →
    (answer v.handlers (receiveBytes v.pb s.serverReads [])).response = some rsp
  waiting : s.client = .sending → s.clientReads = [] ∧ s.handled = []
  hearing : ∀ q, s.client = .receiving q → Turns v.pb s.clientReads q ∧ s.handled = []
  finished : s.client = .done →
    s.handled = (accept (receiveBytes v.pb s.clientReads [])).invoked.toList

theorem coded_start (v : Service) : Coded v {} where
  reading q here := by
    cases here
    exact ⟨.nil, rfl⟩
  served gone := absurd rfl (gone [])
  answering _ := ServerPc.noConfusion
  waiting _ := ⟨rfl, rfl⟩
  hearing _ := ClientPc.noConfusion
  finished := ClientPc.noConfusion

/-- The server goes on from its reads. -/
theorem Coded.serve (coded : Coded v s) {reads : List (Read 4096)} {toServer : Bytes}
    {result : ErrMsg × Option Message} (none_yet : s.invoked = [])
    (received : receiveBytes v.pb reads [] = result) :
    Coded v (({ s with toServer := toServer, serverReads := reads }).serve v result) := by
  have gone : ∀ q, (({ s with toServer := toServer, serverReads := reads }).serve v result).server ≠
      .receiving q := by
    intro q
    unfold Exchange.serve
    dsimp only
    split <;> exact ServerPc.noConfusion
  refine ⟨fun q here => absurd here (gone q), fun _ => ?_, fun rsp here => ?_, coded.waiting,
    coded.hearing, coded.finished⟩
  · unfold Exchange.serve
    dsimp only
    rw [none_yet, received, List.nil_append]
  · unfold Exchange.serve at here ⊢
    dsimp only at here ⊢
    rw [received]
    split at here
    · rename_i rsp' isSome
      cases here
      exact isSome
    · cases here

/-- The client goes on from its reads. -/
theorem Coded.finish (coded : Coded v s) {reads : List (Read 4096)} {toClient : Bytes}
    {result : ErrMsg × Option Message} (none_yet : s.handled = [])
    (received : receiveBytes v.pb reads [] = result) :
    Coded v (({ s with toClient := toClient, clientReads := reads }).finish result) := by
  refine ⟨coded.reading, coded.served, coded.answering, ClientPc.noConfusion,
    fun _ => ClientPc.noConfusion, fun _ => ?_⟩
  unfold Exchange.finish
  dsimp only
  rw [none_yet, received, List.nil_append]

/-- The client has made its request, or failed to. -/
theorem Coded.ask (coded : Coded v s) (sending : s.client = .sending) (toServer : Bytes) :
    Coded v { s with client := .receiving [], toServer := toServer } := by
  obtain ⟨no_reads, none_yet⟩ := coded.waiting sending
  refine ⟨coded.reading, coded.served, coded.answering, ClientPc.noConfusion, fun q here => ?_,
    ClientPc.noConfusion⟩
  cases here
  dsimp only
  rw [no_reads]
  exact ⟨.nil, none_yet⟩

/-- The server has sent its response, or failed to. -/
theorem Coded.close (coded : Coded v s) {rsp : Message} (sending : s.server = .sending rsp)
    (toClient : Bytes) : Coded v { s with server := .closed, toClient := toClient } := by
  refine ⟨fun _ => ServerPc.noConfusion, fun _ => coded.served fun q there => ?_,
    fun _ => ServerPc.noConfusion, coded.waiting, coded.hearing, coded.finished⟩
  rw [sending] at there
  cases there

theorem Coded.step (coded : Coded v s) (ran : s.step v e = some s') : Coded v s' := by
  cases goes_of_step ran with
  | clientSends sending => exact coded.ask sending _
  | clientSendFails sending => exact coded.ask sending s.toServer
  | @serverWaits r q q' here within turn =>
      refine ⟨fun q'' there => ?_, fun gone => absurd rfl (gone q'),
        fun _ => ServerPc.noConfusion, coded.waiting, coded.hearing, coded.finished⟩
      cases there
      obtain ⟨turns, none_yet⟩ := coded.reading q here
      exact ⟨turns.snoc turn, none_yet⟩
  | @serves r q result here within turn =>
      obtain ⟨turns, none_yet⟩ := coded.reading q here
      exact coded.serve none_yet (turns.returns turn [])
  | @serverReadEnds q here =>
      obtain ⟨turns, none_yet⟩ := coded.reading q here
      exact @Coded.serve v s coded s.serverReads s.toServer _ none_yet turns.at_end
  | serverSends sending => exact coded.close sending _
  | serverSendFails sending => exact coded.close sending s.toClient
  | @clientWaits r q q' here within turn =>
      refine ⟨coded.reading, coded.served, coded.answering, ClientPc.noConfusion,
        fun q'' there => ?_, ClientPc.noConfusion⟩
      cases there
      obtain ⟨turns, none_yet⟩ := coded.hearing q here
      exact ⟨turns.snoc turn, none_yet⟩
  | @finishes r q result here within turn =>
      obtain ⟨turns, none_yet⟩ := coded.hearing q here
      exact coded.finish none_yet (turns.returns turn [])
  | @clientReadEnds q here =>
      obtain ⟨turns, none_yet⟩ := coded.hearing q here
      exact @Coded.finish v s coded s.clientReads s.toClient _ none_yet turns.at_end

/-- In every run, whatever the kernel does, each side has done with its reads what
`handleClient` and the closure of `Call` do with them. -/
theorem parties_are_code {es : List ExchangeEvent} (run : Run (Steps (Exchange.step v)) {} es s)
    (host : ByteOrder) :
    ((∀ q, s.server ≠ .receiving q) → ∃ handled,
      handleClient v.pb host v.handlers (.ofReads s.serverReads) = .ok handled ∧
        s.invoked = handled.invoked.toList ∧
        ∀ rsp, s.server = .sending rsp → handled.response = some rsp) ∧
    (s.client = .done → ∃ answered,
      handleResponse v.pb host (.ofReads s.clientReads) = .ok answered ∧
        s.handled = answered.invoked.toList) := by
  have coded : Coded v s := run.invariant (coded_start v) fun coded ran => coded.step ran
  refine ⟨fun gone => ?_, fun done => ?_⟩
  · exact ⟨_, handleClient_eq v.pb host v.handlers s.serverReads, coded.served gone,
      coded.answering⟩
  · exact ⟨_, handleResponse_eq v.pb host s.clientReads, coded.finished done⟩

/-! ## A call that is answered -/

/-- The message goes out in a frame that one read can deliver and that `receive` looks at. -/
structure Fits (pb : Protobuf) (msg : Message) : Prop where
  valid : msg.Valid pb
  long : 10 < (frame msg).length
  short : (frame msg).length ≤ 4096

theorem Fits.body_le {pb : Protobuf} {msg : Message} (fits : Fits pb msg) :
    ((body msg).length : Int) ≤ kMaxMessageLen := by
  have short := fits.short
  rw [length_frame] at short
  rw [kMaxMessageLen]
  omega

theorem Fits.framed {pb : Protobuf} {msg : Message} (fits : Fits pb msg) :
    framed .little msg = some (frame msg) := by
  have short := fits.short
  rw [length_frame] at short
  exact framed_eq (by omega)

/-- The request fits, and so does what a handler returns for it. -/
structure CallFits (v : Service) : Prop where
  req : Exchange.Fits v.pb v.req
  rsp : ∀ cb, v.handlers v.req.typeName = some cb → Exchange.Fits v.pb (cb.onMessage v.req)

/-- The kernel takes what a `send` offers, and a `recv` delivers all that is in flight, unless
no more than ten bytes are there with what it delivers. No call fails. -/
def Timely (v : Service) (s : Exchange) : ExchangeEvent → Prop
  | .clientSends n => ∀ bytes, framed .little v.req = some bytes → n = bytes.length
  | .clientSendFails => False
  | .serverReads r => r.data = s.toServer ∨ ∀ q, s.server = .receiving q → (q ++ r.data).length ≤ 10
  | .serverReadEnds => s.toServer = [] ∧ s.client = .done
  | .serverSends n => ∀ rsp bytes, s.server = .sending rsp → framed .little rsp = some bytes →
      n = bytes.length
  | .serverSendFails => False
  | .clientReads r => r.data = s.toClient ∨ ∀ q, s.client = .receiving q → (q ++ r.data).length ≤ 10
  | .clientReadEnds => s.toClient = [] ∧ s.server = .closed

/-- What the server is to call, and what the client's handler is to be called with. -/
def invocations (v : Service) : List (RpcCallBackType × Message) :=
  ((v.handlers v.req.typeName).map fun cb => (cb, v.req)).toList

def responses (v : Service) : List Message :=
  ((v.handlers v.req.typeName).map fun cb => cb.onMessage v.req).toList

/-- How far the call is, with a bound on the steps that are left. -/
inductive Phase (v : Service) (s : Exchange) : Nat → Prop
  | asked : s.client = .sending → s.server = .receiving [] → s.toServer = [] → s.toClient = [] →
      s.invoked = [] → s.handled = [] → Phase v s 8200
  | sent (q : Bytes) : s.client = .receiving [] → s.server = .receiving q →
      q ++ s.toServer = frame v.req → q.length ≤ 10 → s.toClient = [] → s.invoked = [] →
      s.handled = [] → Phase v s (s.toServer.length + 4099)
  | answering (cb : RpcCallBackType) : v.handlers v.req.typeName = some cb →
      s.client = .receiving [] → s.server = .sending (cb.onMessage v.req) → s.toClient = [] →
      s.invoked = invocations v → s.handled = [] → Phase v s 4098
  | answered (cb : RpcCallBackType) (q : Bytes) : v.handlers v.req.typeName = some cb →
      s.client = .receiving q → s.server = .closed →
      q ++ s.toClient = frame (cb.onMessage v.req) → q.length ≤ 10 → s.invoked = invocations v →
      s.handled = [] → Phase v s (s.toClient.length + 1)
  | refused : v.handlers v.req.typeName = none → s.client = .receiving [] → s.server = .closed →
      s.toClient = [] → s.invoked = invocations v → s.handled = [] → Phase v s 1
  | finished : s.client = .done → s.server = .closed → s.invoked = invocations v →
      s.handled = responses v → Phase v s 0

theorem phase_start (v : Service) : Phase v {} 8200 := .asked rfl rfl rfl rfl rfl rfl

/-- A read of a frame takes all of it, or leaves ten bytes at most. -/
theorem cut_read {msg : Message} {q inFlight : Bytes} {r : Read 4096}
    (whole : q ++ inFlight = frame msg) (within : r.data <+: inFlight)
    (timely : r.data = inFlight ∨ (q ++ r.data).length ≤ 10) :
    (q ++ r.data = frame msg ∧ r.data = inFlight) ∨
      ((q ++ r.data).length ≤ 10 ∧
        (q ++ r.data) ++ inFlight.drop r.data.length = frame msg ∧
        (inFlight.drop r.data.length).length < inFlight.length) := by
  rcases timely with all | few
  · exact Or.inl ⟨by rw [all, whole], all⟩
  · obtain ⟨rest, rfl⟩ := within
    refine Or.inr ⟨few, ?_, ?_⟩
    · rw [List.drop_left, List.append_assoc, whole]
    · have some_bytes := r.length_pos
      rw [List.drop_left, List.length_append]
      omega

/-- A part of the frame is left to be read. -/
theorem left_to_read {pb : Protobuf} {msg : Message} (fits : Fits pb msg) {q inFlight : Bytes}
    (whole : q ++ inFlight = frame msg) (few : q.length ≤ 10) :
    ∃ r : Read 4096, r.data = inFlight := by
  have long := fits.long
  have short := fits.short
  rw [← whole, List.length_append] at long short
  have some_bytes : inFlight ≠ [] := by
    rintro rfl
    rw [List.length_nil] at long
    omega
  exact ⟨⟨inFlight, some_bytes, by omega⟩, rfl⟩

/-- Nothing is delivered where nothing is in flight. -/
theorem not_within {r : Read 4096} (within : r.data <+: []) : False :=
  r.nonempty (List.prefix_nil.mp within)

theorem serve_request (v : Service) (s : Exchange) (calm : s.invoked = []) :
    (s.serve v (noError, some v.req)).invoked = invocations v ∧
      (s.serve v (noError, some v.req)).server =
        match v.handlers v.req.typeName with
        | some cb => .sending (cb.onMessage v.req)
        | none => .closed := by
  unfold serve answer invocations
  dsimp only
  rw [if_neg (fun bad => bad rfl), calm]
  cases v.handlers v.req.typeName <;> exact ⟨rfl, rfl⟩

/-! ### Where a step finds the call -/

section

variable {n : Nat}

/-- The client has still to send its request. -/
theorem Phase.at_request (phase : Phase v s n) (sending : s.client = .sending) :
    n = 8200 ∧ s.server = .receiving [] ∧ s.toServer = [] ∧ s.toClient = [] ∧ s.invoked = [] ∧
      s.handled = [] := by
  cases phase with
  | asked client server toServer toClient calm none_yet =>
      exact ⟨rfl, server, toServer, toClient, calm, none_yet⟩
  | sent _ client => rw [client] at sending; cases sending
  | answering _ _ client => rw [client] at sending; cases sending
  | answered _ _ _ client => rw [client] at sending; cases sending
  | refused _ client => rw [client] at sending; cases sending
  | finished client => rw [client] at sending; cases sending

/-- The server reads bytes of the request. -/
theorem Phase.at_server (phase : Phase v s n) {q : Bytes} (here : s.server = .receiving q)
    {r : Read 4096} (within : r.data <+: s.toServer) :
    n = s.toServer.length + 4099 ∧ s.client = .receiving [] ∧ q ++ s.toServer = frame v.req ∧
      s.toClient = [] ∧ s.invoked = [] ∧ s.handled = [] := by
  cases phase with
  | asked _ _ toServer =>
      rw [toServer] at within
      exact (not_within within).elim
  | sent q client server whole few toClient calm none_yet =>
      rw [server] at here
      cases here
      exact ⟨rfl, client, whole, toClient, calm, none_yet⟩
  | answering _ _ _ server => rw [server] at here; cases here
  | answered _ _ _ _ server => rw [server] at here; cases here
  | refused _ _ server => rw [server] at here; cases here
  | finished _ server => rw [server] at here; cases here

/-- The server has still to send its response. -/
theorem Phase.at_response (phase : Phase v s n) {rsp : Message}
    (sending : s.server = .sending rsp) :
    n = 4098 ∧ ∃ cb, v.handlers v.req.typeName = some cb ∧ rsp = cb.onMessage v.req ∧
      s.client = .receiving [] ∧ s.toClient = [] ∧ s.invoked = invocations v ∧
      s.handled = [] := by
  cases phase with
  | answering cb found client server toClient invoked none_yet =>
      rw [server] at sending
      cases sending
      exact ⟨rfl, cb, found, rfl, client, toClient, invoked, none_yet⟩
  | asked _ server => rw [server] at sending; cases sending
  | sent _ _ server => rw [server] at sending; cases sending
  | answered _ _ _ _ server => rw [server] at sending; cases sending
  | refused _ _ server => rw [server] at sending; cases sending
  | finished _ server => rw [server] at sending; cases sending

/-- The client reads bytes of the response. -/
theorem Phase.at_client (phase : Phase v s n) {q : Bytes} (here : s.client = .receiving q)
    {r : Read 4096} (within : r.data <+: s.toClient) :
    n = s.toClient.length + 1 ∧ ∃ cb, v.handlers v.req.typeName = some cb ∧ s.server = .closed ∧
      q ++ s.toClient = frame (cb.onMessage v.req) ∧ s.invoked = invocations v ∧
      s.handled = [] := by
  cases phase with
  | answered cb q found client server whole few invoked none_yet =>
      rw [client] at here
      cases here
      exact ⟨rfl, cb, found, server, whole, invoked, none_yet⟩
  | asked client => rw [client] at here; cases here
  | sent _ _ _ _ _ toClient => rw [toClient] at within; exact (not_within within).elim
  | answering _ _ _ _ toClient => rw [toClient] at within; exact (not_within within).elim
  | refused _ _ _ toClient => rw [toClient] at within; exact (not_within within).elim
  | finished client => rw [client] at here; cases here

/-- The client comes to the end of its stream. -/
theorem Phase.at_end (fits : CallFits v) (phase : Phase v s n) {q : Bytes}
    (here : s.client = .receiving q) (empty : s.toClient = []) (closed : s.server = .closed) :
    n = 1 ∧ v.handlers v.req.typeName = none ∧ s.invoked = invocations v ∧ s.handled = [] := by
  cases phase with
  | answered cb q found client server whole few =>
      have long := (fits.rsp cb found).long
      rw [← whole, empty, List.append_nil] at long
      omega
  | refused missing client server toClient invoked none_yet =>
      exact ⟨rfl, missing, invoked, none_yet⟩
  | asked client => rw [client] at here; cases here
  | sent _ _ server => rw [server] at closed; cases closed
  | answering _ _ _ server => rw [server] at closed; cases closed
  | finished client => rw [client] at here; cases here

/-- The server does not come to the end of its stream before the call is over. -/
theorem Phase.not_at_end (phase : Phase v s n) {q : Bytes} (here : s.server = .receiving q) :
    s.client ≠ .done := by
  intro over_
  cases phase with
  | asked client => rw [client] at over_; cases over_
  | sent _ client => rw [client] at over_; cases over_
  | answering _ _ client => rw [client] at over_; cases over_
  | answered _ _ _ client => rw [client] at over_; cases over_
  | refused _ client => rw [client] at over_; cases over_
  | finished _ server => rw [server] at here; cases here

end

/-! ### What a step makes of it -/

/-- A turn of `receive` that goes on has read ten bytes at most. -/
theorem cut_waits {pb : Protobuf} {msg : Message} {q q' inFlight : Bytes} {r : Read 4096}
    (fits : Fits pb msg) (whole : q ++ inFlight = frame msg) (within : r.data <+: inFlight)
    (timely : r.data = inFlight ∨ (q ++ r.data).length ≤ 10)
    (turn : receiveTurn pb q r.data = .inl q') :
    q'.length ≤ 10 ∧ q' ++ inFlight.drop r.data.length = frame msg ∧
      (inFlight.drop r.data.length).length < inFlight.length := by
  rcases cut_read whole within timely with ⟨all, -⟩ | ⟨few, rest, less⟩
  · rw [receiveTurn_frame fits.valid fits.body_le fits.long all] at turn
    cases turn
  · rw [receiveTurn_wait pb few] at turn
    cases turn
    exact ⟨few, rest, less⟩

/-- One that returns has read the message. -/
theorem cut_returns {pb : Protobuf} {msg : Message} {q inFlight : Bytes} {r : Read 4096}
    {result : ErrMsg × Option Message} (fits : Fits pb msg) (whole : q ++ inFlight = frame msg)
    (within : r.data <+: inFlight) (timely : r.data = inFlight ∨ (q ++ r.data).length ≤ 10)
    (turn : receiveTurn pb q r.data = .inr result) : result = (noError, some msg) := by
  rcases cut_read whole within timely with ⟨all, -⟩ | ⟨few, -, -⟩
  · rw [receiveTurn_frame fits.valid fits.body_le fits.long all] at turn
    cases turn
    rfl
  · rw [receiveTurn_wait pb few] at turn
    cases turn

/-- The client sends its request. -/
theorem Phase.clientSends (fits : CallFits v) {n k : Nat} {bytes : Bytes} (phase : Phase v s n)
    (sending : s.client = .sending) (made : framed .little v.req = some bytes)
    (timely : k = bytes.length) :
    ∃ m < n, Phase v { s with client := .receiving [], toServer := bytes.take k } m := by
  obtain ⟨rfl, server, toServer, toClient, calm, none_yet⟩ := phase.at_request sending
  have short := fits.req.short
  rw [fits.req.framed] at made
  cases made
  rw [timely, List.take_length]
  refine ⟨(frame v.req).length + 4099, by omega, ?_⟩
  exact .sent [] rfl server rfl (Nat.zero_le _) toClient calm none_yet

/-- The server reads, and waits for more. -/
theorem Phase.serverWaits (fits : CallFits v) {n : Nat} {q q' : Bytes} {r : Read 4096}
    (phase : Phase v s n) (here : s.server = .receiving q) (within : r.data <+: s.toServer)
    (timely : r.data = s.toServer ∨ (q ++ r.data).length ≤ 10)
    (turn : receiveTurn v.pb q r.data = .inl q') :
    ∃ m < n, Phase v { s with
      server := .receiving q'
      toServer := s.toServer.drop r.data.length, serverReads := s.serverReads ++ [r] } m := by
  obtain ⟨rfl, client, whole, toClient, calm, none_yet⟩ := phase.at_server here within
  obtain ⟨few, rest, less⟩ := cut_waits fits.req whole within timely turn
  refine ⟨(s.toServer.drop r.data.length).length + 4099, by omega, ?_⟩
  exact .sent _ client rfl rest few toClient calm none_yet

/-- The server has read the request. -/
theorem Phase.serves (fits : CallFits v) {n : Nat} {q : Bytes} {r : Read 4096}
    {result : ErrMsg × Option Message} (phase : Phase v s n) (here : s.server = .receiving q)
    (within : r.data <+: s.toServer) (timely : r.data = s.toServer ∨ (q ++ r.data).length ≤ 10)
    (turn : receiveTurn v.pb q r.data = .inr result) :
    ∃ m < n, Phase v (serve v { s with
      toServer := s.toServer.drop r.data.length, serverReads := s.serverReads ++ [r] }
        result) m := by
  obtain ⟨rfl, client, whole, toClient, calm, none_yet⟩ := phase.at_server here within
  obtain rfl := cut_returns fits.req whole within timely turn
  obtain ⟨invoked, next⟩ := serve_request v { s with
    toServer := s.toServer.drop r.data.length, serverReads := s.serverReads ++ [r] } calm
  cases found : v.handlers v.req.typeName with
  | some cb =>
      rw [found] at next
      exact ⟨4098, by omega, .answering cb found client next toClient invoked none_yet⟩
  | none =>
      rw [found] at next
      exact ⟨1, by omega, .refused found client next toClient invoked none_yet⟩

/-- The server sends its response. -/
theorem Phase.serverSends (fits : CallFits v) {n k : Nat} {rsp : Message} {bytes : Bytes}
    (phase : Phase v s n) (sending : s.server = .sending rsp)
    (made : framed .little rsp = some bytes) (timely : k = bytes.length) :
    ∃ m < n, Phase v { s with server := .closed, toClient := bytes.take k } m := by
  obtain ⟨rfl, cb, found, rfl, client, -, invoked, none_yet⟩ := phase.at_response sending
  have rsp := fits.rsp cb found
  have short := rsp.short
  rw [rsp.framed] at made
  cases made
  rw [timely, List.take_length]
  refine ⟨(frame (cb.onMessage v.req)).length + 1, by omega, ?_⟩
  exact .answered cb [] found client rfl rfl (Nat.zero_le _) invoked none_yet

/-- The client reads, and waits for more. -/
theorem Phase.clientWaits (fits : CallFits v) {n : Nat} {q q' : Bytes} {r : Read 4096}
    (phase : Phase v s n) (here : s.client = .receiving q) (within : r.data <+: s.toClient)
    (timely : r.data = s.toClient ∨ (q ++ r.data).length ≤ 10)
    (turn : receiveTurn v.pb q r.data = .inl q') :
    ∃ m < n, Phase v { s with
      client := .receiving q'
      toClient := s.toClient.drop r.data.length, clientReads := s.clientReads ++ [r] } m := by
  obtain ⟨rfl, cb, found, server, whole, invoked, none_yet⟩ := phase.at_client here within
  obtain ⟨few, rest, less⟩ := cut_waits (fits.rsp cb found) whole within timely turn
  refine ⟨(s.toClient.drop r.data.length).length + 1, by omega, ?_⟩
  exact .answered cb _ found rfl server rest few invoked none_yet

/-- The client has read the response. -/
theorem Phase.finishes (fits : CallFits v) {n : Nat} {q : Bytes} {r : Read 4096}
    {result : ErrMsg × Option Message} (phase : Phase v s n) (here : s.client = .receiving q)
    (within : r.data <+: s.toClient) (timely : r.data = s.toClient ∨ (q ++ r.data).length ≤ 10)
    (turn : receiveTurn v.pb q r.data = .inr result) :
    ∃ m < n, Phase v (finish { s with
      toClient := s.toClient.drop r.data.length, clientReads := s.clientReads ++ [r] }
        result) m := by
  obtain ⟨rfl, cb, found, server, whole, invoked, none_yet⟩ := phase.at_client here within
  obtain rfl := cut_returns (fits.rsp cb found) whole within timely turn
  have handled : s.handled ++ [cb.onMessage v.req] = responses v := by
    unfold responses
    rw [none_yet, found]
    rfl
  exact ⟨0, by omega, .finished rfl server invoked handled⟩

/-- The client finds the connection closed. -/
theorem Phase.clientReadEnds (fits : CallFits v) {n : Nat} {q : Bytes} (phase : Phase v s n)
    (here : s.client = .receiving q) (empty : s.toClient = []) (shut : s.server = .closed) :
    ∃ m < n, Phase v (s.finish closed) m := by
  obtain ⟨rfl, missing, invoked, none_yet⟩ := phase.at_end fits here empty shut
  have handled : s.handled ++ [] = responses v := by
    unfold responses
    rw [none_yet, missing]
    rfl
  exact ⟨0, by omega, .finished rfl shut invoked handled⟩

/-- What one step makes of the phase. -/
theorem Phase.step (fits : CallFits v) {n : Nat} (phase : Phase v s n)
    (ran : Guarded (Timely v) (Steps (Exchange.step v)) s e s') : ∃ m < n, Phase v s' m := by
  obtain ⟨timely, ran⟩ := ran
  cases goes_of_step ran with
  | clientSends sending made => exact phase.clientSends fits sending made (timely _ made)
  | clientSendFails => exact timely.elim
  | serverWaits here within turn =>
      exact phase.serverWaits fits here within (timely.imp_right fun few => few _ here) turn
  | serves here within turn =>
      exact phase.serves fits here within (timely.imp_right fun few => few _ here) turn
  | serverReadEnds here => exact absurd timely.2 (phase.not_at_end here)
  | serverSends sending made => exact phase.serverSends fits sending made (timely _ _ sending made)
  | serverSendFails => exact timely.elim
  | clientWaits here within turn =>
      exact phase.clientWaits fits here within (timely.imp_right fun few => few _ here) turn
  | finishes here within turn =>
      exact phase.finishes fits here within (timely.imp_right fun few => few _ here) turn
  | clientReadEnds here => exact phase.clientReadEnds fits here timely.1 timely.2

theorem moves_of (timely : Timely v s e) (goes : (s.step v e).isSome = true) :
    ∃ e s', Guarded (Timely v) (Steps (Exchange.step v)) s e s' := by
  obtain ⟨s', ran⟩ := Option.isSome_iff_exists.mp goes
  exact ⟨e, s', timely, ran⟩

/-- Where the call is not over, the kernel can take it on. -/
theorem Phase.moves (fits : CallFits v) {n : Nat} (phase : Phase v s n)
    (open_ : s.client ≠ .done) :
    ∃ e s', Guarded (Timely v) (Steps (Exchange.step v)) s e s' := by
  cases phase with
  | asked client server =>
      have long := fits.req.long
      refine moves_of (e := .clientSends (frame v.req).length) (fun bytes made => ?_) ?_
      · rw [fits.req.framed] at made
        cases made
        rfl
      · simp only [Exchange.step, client, fits.req.framed]
        rw [if_pos ⟨by omega, Nat.le_refl _⟩]
        rfl
  | sent q client server whole few =>
      obtain ⟨r, all⟩ := left_to_read fits.req whole few
      have turn := receiveTurn_frame fits.req.valid fits.req.body_le fits.req.long
        (r := r) (by rw [all, whole])
      refine moves_of (e := .serverReads r) (Or.inl all) ?_
      simp only [Exchange.step, server, turn]
      rw [if_pos (by rw [all])]
      rfl
  | answering cb found client server =>
      have rsp := fits.rsp cb found
      have long := rsp.long
      refine moves_of (e := .serverSends (frame (cb.onMessage v.req)).length)
        (fun rsp' bytes here made => ?_) ?_
      · rw [server] at here
        cases here
        rw [rsp.framed] at made
        cases made
        rfl
      · simp only [Exchange.step, server, rsp.framed]
        rw [if_pos ⟨by omega, Nat.le_refl _⟩]
        rfl
  | answered cb q found client server whole few =>
      have rsp := fits.rsp cb found
      obtain ⟨r, all⟩ := left_to_read rsp whole few
      have turn := receiveTurn_frame rsp.valid rsp.body_le rsp.long (r := r) (by rw [all, whole])
      refine moves_of (e := .clientReads r) (Or.inl all) ?_
      simp only [Exchange.step, client, turn]
      rw [if_pos (by rw [all])]
      rfl
  | refused missing client server toClient =>
      refine moves_of (e := .clientReadEnds) ⟨toClient, server⟩ ?_
      simp only [Exchange.step, client]
      rfl
  | finished client => exact absurd client open_

/-- Nothing moves when it is over. -/
theorem not_step_of_done {n : Nat} (phase : Phase v s n) (done : s.client = .done)
    (e : ExchangeEvent) (s' : Exchange) : s.step v e ≠ some s' := by
  intro ran
  cases phase with
  | finished client server =>
      cases goes_of_step ran with
      | clientSends here => rw [client] at here; cases here
      | clientSendFails here => rw [client] at here; cases here
      | serverWaits here => rw [server] at here; cases here
      | serves here => rw [server] at here; cases here
      | serverReadEnds here => rw [server] at here; cases here
      | serverSends here => rw [server] at here; cases here
      | serverSendFails here => rw [server] at here; cases here
      | clientWaits here => rw [client] at here; cases here
      | finishes here => rw [client] at here; cases here
      | clientReadEnds here => rw [client] at here; cases here
  | asked client => rw [client] at done; cases done
  | sent _ client => rw [client] at done; cases done
  | answering _ _ client => rw [client] at done; cases done
  | answered _ _ _ client => rw [client] at done; cases done
  | refused _ client => rw [client] at done; cases done

theorem Phase.run (fits : CallFits v) {es : List ExchangeEvent}
    (run : Run (Guarded (Timely v) (Steps (Exchange.step v))) {} es s) :
    ∃ n, es.length + n ≤ 8200 ∧ Phase v s n := by
  refine run.historyInvariant (I := fun es s => ∃ n, es.length + n ≤ 8200 ∧ Phase v s n)
    ⟨8200, by rw [List.length_nil], phase_start v⟩ fun {es s e t} held ran => ?_
  obtain ⟨n, bound, phase⟩ := held
  obtain ⟨m, less, next⟩ := phase.step fits ran
  refine ⟨m, ?_, next⟩
  rw [List.length_append, List.length_singleton]
  omega

/-- A call whose frames have eleven to 4096 bytes, where the kernel takes each frame whole and
cuts none above its first ten bytes: in any order of the steps it takes at most 8200 of them;
it stands still only when it is over; until then the client's handler has not been called, and
then it has been called once, with what the server's handler returned for the request, or,
where none is registered, neither handler has been called. -/
theorem call_answered (fits : CallFits v) {es : List ExchangeEvent}
    (run : Run (Guarded (Timely v) (Steps (Exchange.step v))) {} es s) :
    es.length ≤ 8200 ∧
    ((∃ e s', Guarded (Timely v) (Steps (Exchange.step v)) s e s') ↔ s.client ≠ .done) ∧
    (s.client ≠ .done → s.handled = []) ∧
    (s.client = .done → s.server = .closed ∧ s.invoked = invocations v ∧
      s.handled = responses v) := by
  obtain ⟨n, bound, phase⟩ := Phase.run fits run
  refine ⟨by omega, ⟨?_, phase.moves fits⟩, fun open_ => ?_, fun done => ?_⟩
  · rintro ⟨e, s', -, ran⟩ done
    exact not_step_of_done phase done e s' ran
  · cases phase with
    | asked _ _ _ _ _ none_yet => exact none_yet
    | sent _ _ _ _ _ _ _ none_yet => exact none_yet
    | answering _ _ _ _ _ _ none_yet => exact none_yet
    | answered _ _ _ _ _ _ _ _ none_yet => exact none_yet
    | refused _ _ _ _ _ none_yet => exact none_yet
    | finished client => exact absurd client open_
  · cases phase with
    | finished _ server invoked handled => exact ⟨server, invoked, handled⟩
    | asked client => rw [client] at done; cases done
    | sent _ client => rw [client] at done; cases done
    | answering _ _ client => rw [client] at done; cases done
    | answered _ _ _ client => rw [client] at done; cases done
    | refused _ client => rw [client] at done; cases done

/-- Such a call can be taken to its end. -/
theorem exists_answered (fits : CallFits v) : ∃ es s,
    Run (Guarded (Timely v) (Steps (Exchange.step v))) {} es s ∧ s.client = .done := by
  have on : ∀ n es s, Run (Guarded (Timely v) (Steps (Exchange.step v))) {} es s → Phase v s n →
      ∃ es s, Run (Guarded (Timely v) (Steps (Exchange.step v))) {} es s ∧ s.client = .done := by
    intro n
    induction n using Nat.strong_induction_on with
    | _ n ih =>
        intro es s run phase
        rcases Decidable.em (s.client = .done) with done | open_
        · exact ⟨es, s, run, done⟩
        · obtain ⟨e, s', ran⟩ := phase.moves fits open_
          obtain ⟨m, less, next⟩ := phase.step fits ran
          exact ih m less _ s' (run.snoc ran) next
  exact on 8200 [] {} (Run.nil _) (phase_start v)

/-- The handler of the echo service. -/
def echo (msg : Message) : Message := ⟨ascii "echo.EchoResponse", msg.payload⟩

/-- The echo service, asked with `hello`. -/
def echoCall : Service where
  pb := echoTypes
  handlers := registerAll [(ascii "echo.EchoRequest", echo)]
  req := mirrored

theorem echoCall_fits : CallFits echoCall where
  req := ⟨⟨by decide, rfl⟩, by decide, by decide⟩
  rsp cb found := by
    have known : echoCall.handlers echoCall.req.typeName =
        some ⟨ascii "echo.EchoRequest", echo⟩ := by
      unfold echoCall registerAll
      exact Function.update_self (ascii "echo.EchoRequest") _ fun _ => none
    rw [known] at found
    cases found
    exact ⟨⟨by decide, rfl⟩, by decide, by decide⟩

theorem parties_are_code_echo : ∃ (s : Exchange) (answered : Answered), s.client = .done ∧
    handleResponse echoTypes .little (.ofReads s.clientReads) = .ok answered ∧
      s.handled = answered.invoked.toList := by
  obtain ⟨es, s, run, done⟩ := exists_answered echoCall_fits
  obtain ⟨answered, code, handled⟩ := (parties_are_code run.of_guarded .little).2 done
  exact ⟨s, answered, done, code, handled⟩

theorem call_answered_echo : ∃ (es : List ExchangeEvent) (s : Exchange),
    Run (Guarded (Timely echoCall) (Steps (Exchange.step echoCall))) {} es s ∧
      s.client = .done ∧ s.handled = [⟨ascii "echo.EchoResponse", ascii "hello"⟩] := by
  obtain ⟨es, s, run, done⟩ := exists_answered echoCall_fits
  obtain ⟨-, -, -, over_⟩ := call_answered echoCall_fits run
  exact ⟨es, s, run, done, (over_ done).2.2⟩

end Exchange

end Reyao.Rpc
