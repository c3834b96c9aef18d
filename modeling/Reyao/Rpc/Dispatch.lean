import Reyao.Rpc.Receive

/-!
# Typed dispatch (`rpc/rpc_server.h`, `rpc/rpc_server.cc`, `rpc/rpc_client.h`)

The peer chooses the type of a message by the type name in the frame. The server looks
the handler up under the type of the message, and then casts it without a check; the
client casts what it receives without a look at the type.

A descriptor of protobuf's generated pool is named by the full name of its type, so the
map of handlers is one from type names.
-/

namespace Reyao.Rpc

open Lib

/-! ## The server -/

/-- A handler that `registerRpcHandler<T>` has stored, under the name of its class. -/
structure RpcCallBackType : Type where
  T : Bytes
  cb : Message → Message

abbrev HandlerMap : Type := Bytes → Option RpcCallBackType

def registerRpcHandler (T : Bytes) (handler : Message → Message) (handlers : HandlerMap) :
    HandlerMap :=
  Function.update handlers T (some ⟨T, handler⟩)

/-- The handlers after some registrations. -/
def registerAll (handlers : List (Bytes × (Message → Message))) : HandlerMap :=
  handlers.foldl (fun map entry => registerRpcHandler entry.1 entry.2 map) fun _ => none

/-- `onMessage(msg)`: the cast does not look at the type. -/
def RpcCallBackType.onMessage (callback : RpcCallBackType) (msg : Message) : Message :=
  callback.cb msg

/-- What `handleClient` has done with a connection. -/
structure Handled : Type where
  invoked : Option (RpcCallBackType × Message)
  /-- The response that is sent. -/
  response : Option Message
  closed : Bool

def handleClient (pb : Protobuf) (host : ByteOrder) (handlers : HandlerMap)
    (client : SocketStream 4096) : Except Fault Handled :=
  match receive pb host client with
  | .error e _ => .error e
  | .ok (_, none) _ => .ok ⟨none, none, true⟩
  | .ok (errMsg, some msg) _ =>
      if errMsg.errcode ≠ .kNoError then .ok ⟨none, none, true⟩
      else
        match handlers msg.typeName with
        | none => .ok ⟨none, none, true⟩
        | some callback => .ok ⟨some (callback, msg), some (callback.onMessage msg), true⟩

/-! ## The client -/

/-- What `Call` has done with a connection once the request is sent. -/
structure Answered : Type where
  /-- What `handler` was called with. -/
  invoked : Option Message
  closed : Bool

/-- The closure that `Call` passes to `setConnectCallBack`, from `receive` on. -/
def handleResponse (pb : Protobuf) (host : ByteOrder) (conn : SocketStream 4096) :
    Except Fault Answered :=
  match receive pb host conn with
  | .error e _ => .error e
  | .ok (_, none) _ => .ok ⟨none, true⟩
  | .ok (errMsg, some rsp) _ =>
      if errMsg.errcode = .kNoError then .ok ⟨some rsp, true⟩ else .ok ⟨none, true⟩

/-! ## Typed dispatch -/

/-- The handler that is invoked on this connection is one for the type of the message,
which the connection carries; in any case the connection is closed. -/
def ServerTyped (pb : Protobuf) (host : ByteOrder) (handlers : HandlerMap)
    (reads : List (Read 4096)) : Prop :=
  ∃ handled, handleClient pb host handlers (.ofReads reads) = .ok handled ∧
    handled.closed = true ∧
    ∀ callback msg, handled.invoked = some (callback, msg) →
      Carries pb msg reads [] ∧ msg.typeName = callback.T

/-- The response handler is invoked only with a message of this type, which the
connection carries; in any case the connection is closed. -/
def ClientTyped (pb : Protobuf) (host : ByteOrder) (RspMessage : Bytes)
    (reads : List (Read 4096)) : Prop :=
  ∃ answered, handleResponse pb host (.ofReads reads) = .ok answered ∧
    answered.closed = true ∧
    ∀ rsp, answered.invoked = some rsp → Carries pb rsp reads [] ∧ rsp.typeName = RspMessage

/-- Every handler is stored under the name of its class. -/
def HandlerMap.Typed (handlers : HandlerMap) : Prop :=
  ∀ name callback, handlers name = some callback → callback.T = name

theorem HandlerMap.Typed.register {map : HandlerMap} (typed : map.Typed) (T : Bytes)
    (handler : Message → Message) : (registerRpcHandler T handler map).Typed := by
  intro name callback found
  by_cases same : name = T
  · subst same
    rw [registerRpcHandler, Function.update_self] at found
    cases found
    rfl
  · rw [registerRpcHandler, Function.update_of_ne same] at found
    exact typed name callback found

theorem registerAll_typed (handlers : List (Bytes × (Message → Message))) :
    (registerAll handlers).Typed := by
  have all (map : HandlerMap) (start : map.Typed) :
      (handlers.foldl (fun map entry => registerRpcHandler entry.1 entry.2 map) map).Typed := by
    induction handlers generalizing map with
    | nil => exact start
    | cons entry handlers ih => exact ih _ (start.register entry.1 entry.2)
  refine all (fun _ => none) fun _ _ found => ?_
  cases found

theorem serverTyped (pb : Protobuf) (host : ByteOrder)
    (handlers : List (Bytes × (Message → Message))) (reads : List (Read 4096)) :
    ServerTyped pb host (registerAll handlers) reads := by
  obtain ⟨ba, received⟩ := receive_eq pb host reads
  have silent : ∀ callback msg, (none : Option (RpcCallBackType × Message)) = some (callback, msg) →
      Carries pb msg reads [] ∧ msg.typeName = callback.T := fun _ _ absurd => by cases absurd
  unfold ServerTyped handleClient
  rw [received]
  generalize result : receiveBytes pb reads [] = r
  obtain ⟨err, got⟩ := r
  cases got with
  | none => exact ⟨_, rfl, rfl, silent⟩
  | some msg =>
      dsimp only
      split
      · exact ⟨_, rfl, rfl, silent⟩
      · rename_i ok
        cases found : registerAll handlers msg.typeName with
        | none => exact ⟨_, rfl, rfl, silent⟩
        | some callback =>
            refine ⟨_, rfl, rfl, fun callback' msg' same => ?_⟩
            cases same
            exact ⟨carries_of_receiveBytes result (not_not.mp ok),
              (registerAll_typed handlers _ _ found).symm⟩

theorem clientTyped_iff (pb : Protobuf) (host : ByteOrder) (RspMessage : Bytes)
    (reads : List (Read 4096)) :
    ClientTyped pb host RspMessage reads ↔
      ∀ msg, Carries pb msg reads [] → msg.typeName = RspMessage := by
  obtain ⟨ba, received⟩ := receive_eq pb host reads
  unfold ClientTyped handleResponse
  rw [received]
  constructor
  · rintro ⟨answered, done, -, typed⟩ msg carries
    rw [receiveBytes_of_carries carries] at done
    cases done
    exact (typed msg rfl).2
  · intro typed
    generalize result : receiveBytes pb reads [] = r
    obtain ⟨err, got⟩ := r
    have silent : ∀ rsp, (none : Option Message) = some rsp →
        Carries pb rsp reads [] ∧ rsp.typeName = RspMessage := fun _ absurd => by cases absurd
    cases got with
    | none => exact ⟨_, rfl, rfl, silent⟩
    | some msg =>
        dsimp only
        split
        · rename_i ok
          refine ⟨_, rfl, rfl, fun rsp same => ?_⟩
          cases same
          have carries := carries_of_receiveBytes result ok
          exact ⟨carries, typed msg carries⟩
        · exact ⟨_, rfl, rfl, silent⟩

/-- **When dispatch is typed.** For all registrations, handlers of the server get only
messages of their own type; the response handler of `Call<RspMessage>` gets only messages
of that type if and only if the connection carries no frame of another registered type. -/
theorem typed_dispatch_iff (pb : Protobuf) (host : ByteOrder)
    (handlers : List (Bytes × (Message → Message))) (RspMessage : Bytes)
    (reads : List (Read 4096)) :
    (∀ requests, ServerTyped pb host (registerAll handlers) requests) ∧
        ClientTyped pb host RspMessage reads ↔
      ∀ msg, Carries pb msg reads [] → msg.typeName = RspMessage :=
  (and_iff_right (serverTyped pb host handlers)).trans (clientTyped_iff pb host RspMessage reads)

/-- The types of the echo service. -/
def echoTypes : Protobuf := .ofNames [ascii "echo.EchoRequest", ascii "echo.EchoResponse"]

/-- A request that a peer sends back in place of a response. -/
def mirrored : Message := ⟨ascii "echo.EchoRequest", ascii "hello"⟩

/-- `Call<EchoResponse>` calls its handler with a message of another type. -/
theorem not_typed_dispatch : ∃ reads : List (Read 4096), bytesOf reads = frame mirrored ∧
    (∃ answered, handleResponse echoTypes .little (.ofReads reads) = .ok answered ∧
      answered.invoked = some mirrored) ∧
    ¬ClientTyped echoTypes .little (ascii "echo.EchoResponse") reads := by
  have valid : mirrored.Valid echoTypes := ⟨by decide, rfl⟩
  let reads : List (Read 4096) := [⟨frame mirrored, by decide, by decide⟩]
  have carries : Carries echoTypes mirrored reads [] :=
    .frame [] (by decide) (by decide) valid (by decide)
  refine ⟨reads, by decide, ?_, fun typed => ?_⟩
  · obtain ⟨ba, received⟩ := receive_eq echoTypes .little reads
    rw [receiveBytes_of_carries carries] at received
    refine ⟨⟨some mirrored, true⟩, ?_, rfl⟩
    rw [handleResponse, received]
    rfl
  · have other := (clientTyped_iff _ _ _ _).mp typed mirrored carries
    exact absurd other (by decide)

end Reyao.Rpc
