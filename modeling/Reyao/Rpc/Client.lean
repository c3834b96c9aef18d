import Reyao.Rpc.Codec
import Reyao.Lib.Run

/-!
# Calls on one client (`rpc/rpc_client.h`, `tcp_client.h`, `tcp_client.cc`)

`Call` stores its closure in `cb_`, of which there is one, and queues a task for the main
worker. The task puts a new connection into `conn_`, connects it, which may suspend it,
and calls whatever is in `cb_` then with whatever is in `conn_` then. Which request is
sent on which connection therefore depends on when the next `Call` comes.

The calls are numbered in the order in which they store their closures, and the
connection that a task makes has the number of the call that queued it. Two steps have
no result, since the language gives them none: to store a closure while one is running
destroys what the running one has captured, and a new connection in `conn_` destroys the
one that a suspended `connect` works on.
-/

namespace Reyao.Rpc

open Lib

/-- Where the task of a call is. -/
inductive TaskPhase : Type
  /-- There is no such call yet. -/
  | absent
  | queued
  /-- In `connect`. -/
  | connecting
  /-- In the closure of a call, with a connection, before `codec.send`. -/
  | sending (call conn : Nat)
  /-- In the closure, in `codec.receive`. -/
  | receiving (call conn : Nat)
  | done
  deriving DecidableEq, Repr

/-- The task runs a closure. -/
def TaskPhase.inClosure : TaskPhase → Bool
  | sending _ _ => true
  | receiving _ _ => true
  | _ => false

/-- The task is queued or runs. -/
def TaskPhase.Outstanding (phase : TaskPhase) : Prop := phase ≠ .absent ∧ phase ≠ .done

/-- How often the task has called `codec.send`, if its `connect` succeeds. -/
def TaskPhase.sends : TaskPhase → Nat
  | receiving _ _ => 1
  | done => 1
  | _ => 0

theorem TaskPhase.sends_le (phase : TaskPhase) : phase.sends ≤ 1 := by
  cases phase <;> simp [TaskPhase.sends]

structure RpcClient : Type where
  /-- The number of calls. -/
  calls : Nat
  /-- The call whose closure is in `cb_`. -/
  cb : Option Nat
  /-- The connection in `conn_`. -/
  conn : Option Nat
  tasks : Nat → TaskPhase
  /-- The requests that were sent, by their call, and the connection of each. -/
  sends : List (Nat × Nat)
  /-- The responses that were received, with their connection. -/
  received : List (Nat × Message)
  /-- What the handlers of the calls were invoked with. -/
  handled : List (Nat × Message)

inductive ClientEvent : Type
  | call
  | begin (i : Nat)
  | connected (i : Nat) (ok : Bool)
  | send (i : Nat)
  | receive (i : Nat) (rsp : Option Message)
  deriving DecidableEq

namespace RpcClient

def init : RpcClient where
  calls := 0
  cb := none
  conn := none
  tasks _ := .absent
  sends := []
  received := []
  handled := []

def setTask (i : Nat) (phase : TaskPhase) (s : RpcClient) : RpcClient :=
  { s with tasks := Function.update s.tasks i phase }

/-- `Call(req, handler)`: `setConnectCallBack` and `start`. -/
def call (s : RpcClient) : Option RpcClient :=
  if ∃ i < s.calls, (s.tasks i).inClosure = true then none
  else some ({ s with calls := s.calls + 1, cb := some s.calls }.setTask s.calls .queued)

/-- The main worker takes the task: `conn_ = Socket::CreateTcp()`. -/
def begin (i : Nat) (s : RpcClient) : Option RpcClient :=
  match s.tasks i with
  | .queued =>
      if ∃ j < s.calls, s.tasks j = .connecting then none
      else some ({ s with conn := some i }.setTask i .connecting)
  | _ => none

/-- `connect` returns; `handleConnect(conn_)` calls `cb_(conn)`. -/
def connected (i : Nat) (ok : Bool) (s : RpcClient) : Option RpcClient :=
  match s.tasks i, s.conn, s.cb with
  | .connecting, some conn, some call =>
      if ok then some (s.setTask i (.sending call conn)) else some (s.setTask i .done)
  | _, _, _ => none

/-- `codec.send(req)`. -/
def send (i : Nat) (s : RpcClient) : Option RpcClient :=
  match s.tasks i with
  | .sending call conn =>
      some ({ s with sends := s.sends ++ [(call, conn)] }.setTask i (.receiving call conn))
  | _ => none

/-- `codec.receive(rsp)`, with a message or an error, `handler(rsp)` and `conn->close()`. -/
def receive (i : Nat) (rsp : Option Message) (s : RpcClient) : Option RpcClient :=
  match s.tasks i, rsp with
  | .receiving call conn, some rsp =>
      some ({ s with
        received := s.received ++ [(conn, rsp)]
        handled := s.handled ++ [(call, rsp)] }.setTask i .done)
  | .receiving _ _, none => some (s.setTask i .done)
  | _, _ => none

def step (s : RpcClient) : ClientEvent → Option RpcClient
  | .call => s.call
  | .begin i => s.begin i
  | .connected i ok => s.connected i ok
  | .send i => s.send i
  | .receive i rsp => s.receive i rsp

/-- Every request is sent at most once and on the connection of its own call, and it has
been sent when its task is done; a handler gets what was received on the connection on
which its request was sent. -/
structure Faithful (s : RpcClient) : Prop where
  own : ∀ call conn, (call, conn) ∈ s.sends → conn = call
  atMostOnce : ∀ call, s.sends.count (call, call) ≤ 1
  sent : ∀ call < s.calls, s.tasks call = .done → s.sends.count (call, call) = 1
  answered : ∀ call rsp, (call, rsp) ∈ s.handled →
    ∃ conn, (call, conn) ∈ s.sends ∧ (conn, rsp) ∈ s.received

/-- The condition on a step: no call while the task of an earlier one is outstanding, and
no failed `connect`. -/
def OneAtATime (s : RpcClient) : ClientEvent → Prop
  | .call => ∀ i < s.calls, ¬(s.tasks i).Outstanding
  | .connected _ ok => ok = true
  | _ => True

/-- What holds while calls are made one at a time. -/
structure Inv (s : RpcClient) : Prop where
  fresh : ∀ i, s.calls ≤ i → s.tasks i = .absent
  last : ∀ i, (s.tasks i).Outstanding → s.cb = some i
  stored : ∀ i, s.cb = some i → i + 1 = s.calls
  connecting : ∀ i, s.tasks i = .connecting → s.conn = some i
  sending : ∀ i call conn, s.tasks i = .sending call conn → call = i ∧ conn = i
  receiving : ∀ i call conn, s.tasks i = .receiving call conn → call = i ∧ conn = i
  own : ∀ call conn, (call, conn) ∈ s.sends → conn = call
  counts : ∀ call, s.sends.count (call, call) = (s.tasks call).sends
  answered : ∀ call rsp, (call, rsp) ∈ s.handled →
    ∃ conn, (call, conn) ∈ s.sends ∧ (conn, rsp) ∈ s.received

variable {s t : RpcClient} {i : Nat}

theorem inv_init : init.Inv where
  fresh _ _ := rfl
  last _ outstanding := absurd rfl outstanding.1
  stored _ absurd := by cases absurd
  connecting _ absurd := by cases absurd
  sending _ _ _ absurd := by cases absurd
  receiving _ _ _ absurd := by cases absurd
  own _ _ absurd := by cases absurd
  counts _ := rfl
  answered _ _ absurd := by cases absurd

theorem Inv.faithful (inv : s.Inv) : s.Faithful where
  own := inv.own
  atMostOnce call := by
    rw [inv.counts]
    exact TaskPhase.sends_le _
  sent call _ done := by
    rw [inv.counts, done]
    rfl
  answered := inv.answered

theorem Inv.alone (inv : s.Inv) {j : Nat} (first : (s.tasks i).Outstanding)
    (second : (s.tasks j).Outstanding) : j = i :=
  Option.some.inj ((inv.last j second).symm.trans (inv.last i first))

/-- The outstanding task goes on to a phase. -/
theorem Inv.advance (inv : s.Inv) (running : (s.tasks i).Outstanding) {phase : TaskPhase}
    (calls : t.calls = s.calls) (cb : t.cb = s.cb)
    (tasks : t.tasks = Function.update s.tasks i phase)
    (connecting : phase = .connecting → t.conn = some i)
    (sending : ∀ call conn, phase = .sending call conn → call = i ∧ conn = i)
    (receiving : ∀ call conn, phase = .receiving call conn → call = i ∧ conn = i)
    (own : ∀ call conn, (call, conn) ∈ t.sends → conn = call)
    (counts : ∀ call, t.sends.count (call, call) = (t.tasks call).sends)
    (answered : ∀ call rsp, (call, rsp) ∈ t.handled →
      ∃ conn, (call, conn) ∈ t.sends ∧ (conn, rsp) ∈ t.received) : t.Inv := by
  have here : t.tasks i = phase := by rw [tasks, Function.update_self]
  have elsewhere {j : Nat} (other : j ≠ i) : t.tasks j = s.tasks j := by
    rw [tasks, Function.update_of_ne other]
  -- another task is not outstanding, so it is in none of the phases
  have idle {j : Nat} (other : j ≠ i) : ¬(t.tasks j).Outstanding := by
    rw [elsewhere other]
    exact fun outstanding => other (inv.alone running outstanding)
  have last := inv.stored i (inv.last i running)
  refine ⟨fun j above => ?_, fun j outstanding => ?_, fun j is => ?_, fun j is => ?_,
    fun j call conn is => ?_, fun j call conn is => ?_, own, counts, answered⟩
  · rw [calls] at above
    rw [elsewhere (by omega)]
    exact inv.fresh j above
  · by_cases same : j = i
    · rw [same, cb]
      exact inv.last i running
    · exact absurd outstanding (idle same)
  · rw [calls]
    exact inv.stored j (cb.symm.trans is)
  · by_cases same : j = i
    · subst same
      exact connecting (here.symm.trans is)
    · exact absurd (by rw [is]; exact ⟨by decide, by decide⟩) (idle same)
  · by_cases same : j = i
    · subst same
      exact sending call conn (here.symm.trans is)
    · refine absurd ?_ (idle same)
      rw [is]
      exact ⟨TaskPhase.noConfusion, TaskPhase.noConfusion⟩
  · by_cases same : j = i
    · subst same
      exact receiving call conn (here.symm.trans is)
    · refine absurd ?_ (idle same)
      rw [is]
      exact ⟨TaskPhase.noConfusion, TaskPhase.noConfusion⟩

/-- The counts where the task sends no request. -/
theorem Inv.counts_setTask (inv : s.Inv) {phase : TaskPhase}
    (same : phase.sends = (s.tasks i).sends) (call : Nat) :
    s.sends.count (call, call) = (Function.update s.tasks i phase call).sends := by
  rw [inv.counts]
  by_cases here : call = i
  · rw [here, Function.update_self, same]
  · rw [Function.update_of_ne here]

theorem Inv.call (inv : s.Inv) (alone : ∀ i < s.calls, ¬(s.tasks i).Outstanding)
    (done : s.call = some t) : t.Inv := by
  unfold RpcClient.call at done
  split at done
  · cases done
  · cases done
    have absent := inv.fresh s.calls (Nat.le_refl _)
    have idle (j : Nat) : ¬(s.tasks j).Outstanding := by
      by_cases below : j < s.calls
      · exact alone j below
      · intro outstanding
        exact outstanding.1 (inv.fresh j (by omega))
    have busy {j : Nat} {phase : TaskPhase} (other : phase ≠ .queued) (isBusy : phase.Outstanding)
        (is : Function.update s.tasks s.calls .queued j = phase) : False := by
      by_cases same : j = s.calls
      · rw [same, Function.update_self] at is
        exact other is.symm
      · rw [Function.update_of_ne same] at is
        exact idle j (is ▸ isBusy)
    refine ⟨fun j above => ?_, fun j outstanding => ?_, fun j is => ?_, fun j is => ?_,
      fun j call conn is => ?_, fun j call conn is => ?_, inv.own, ?_, inv.answered⟩
    · have other : j ≠ s.calls := Nat.ne_of_gt above
      exact (Function.update_of_ne other ..).trans (inv.fresh j (Nat.le_of_succ_le above))
    · by_cases same : j = s.calls
      · rw [same]
        rfl
      · have outside := Function.update_of_ne same TaskPhase.queued s.tasks
        exact absurd (outside ▸ outstanding) (idle j)
    · cases is
      rfl
    · exact (busy (by decide) ⟨by decide, by decide⟩ is).elim
    · exact (busy TaskPhase.noConfusion ⟨TaskPhase.noConfusion, TaskPhase.noConfusion⟩ is).elim
    · exact (busy TaskPhase.noConfusion ⟨TaskPhase.noConfusion, TaskPhase.noConfusion⟩ is).elim
    · refine inv.counts_setTask (i := s.calls) ?_
      rw [absent]
      rfl

theorem Inv.begin (inv : s.Inv) (done : s.begin i = some t) : t.Inv := by
  unfold RpcClient.begin at done
  split at done
  · rename_i queued
    split at done
    · cases done
    · cases done
      refine inv.advance (i := i) ?_ rfl rfl rfl (fun _ => rfl)
        (fun _ _ => TaskPhase.noConfusion) (fun _ _ => TaskPhase.noConfusion) inv.own ?_ inv.answered
      · rw [queued]
        exact ⟨by decide, by decide⟩
      · refine inv.counts_setTask ?_
        rw [queued]
        rfl
  · cases done

theorem Inv.connected (inv : s.Inv) (done : s.connected i true = some t) : t.Inv := by
  unfold RpcClient.connected at done
  split at done
  · rename_i conn call connecting stored slot
    cases done
    have running : (s.tasks i).Outstanding := by
      rw [connecting]
      exact ⟨by decide, by decide⟩
    have own : conn = i := Option.some.inj (stored.symm.trans (inv.connecting i connecting))
    have mine : call = i := Option.some.inj (slot.symm.trans (inv.last i running))
    refine inv.advance running rfl rfl rfl TaskPhase.noConfusion (fun call' conn' is => ?_)
      (fun _ _ => TaskPhase.noConfusion) inv.own ?_ inv.answered
    · cases is
      exact ⟨mine, own⟩
    · refine inv.counts_setTask ?_
      rw [connecting]
      rfl
  · cases done

theorem Inv.send (inv : s.Inv) (done : s.send i = some t) : t.Inv := by
  unfold RpcClient.send at done
  split at done
  · rename_i call conn sending
    cases done
    obtain ⟨rfl, rfl⟩ := inv.sending i call conn sending
    have running : (s.tasks conn).Outstanding := by
      rw [sending]
      exact ⟨TaskPhase.noConfusion, TaskPhase.noConfusion⟩
    refine inv.advance running rfl rfl rfl TaskPhase.noConfusion
      (fun _ _ => TaskPhase.noConfusion) (fun call' conn' is => ?_) (fun call' conn' member => ?_)
      (fun call' => ?_) fun call' rsp member => ?_
    · cases is
      exact ⟨rfl, rfl⟩
    · rcases List.mem_append.mp member with old | new
      · exact inv.own call' conn' old
      · cases List.mem_singleton.mp new
        rfl
    · have before := inv.counts call'
      change (s.sends ++ [(conn, conn)]).count (call', call') =
        (Function.update s.tasks conn (.receiving conn conn) call').sends
      rw [List.count_append, before]
      by_cases same : call' = conn
      · rw [same, sending, Function.update_self, List.count_singleton_self]
        rfl
      · have apart : (call', call') ∉ [(conn, conn)] :=
          fun member => same (Prod.mk.inj (List.mem_singleton.mp member)).1
        rw [Function.update_of_ne same, List.count_eq_zero_of_not_mem apart, Nat.add_zero]
    · obtain ⟨conn', sent, got⟩ := inv.answered call' rsp member
      exact ⟨conn', List.mem_append_left _ sent, got⟩
  · cases done

/-- The task of a call that has sent its request is done. -/
theorem Inv.finish (inv : s.Inv) {call conn : Nat} (receiving : s.tasks i = .receiving call conn)
    {received handled : List (Nat × Message)}
    (answered : ∀ call rsp, (call, rsp) ∈ handled →
      ∃ conn, (call, conn) ∈ s.sends ∧ (conn, rsp) ∈ received) :
    ({ s with received := received, handled := handled }.setTask i .done).Inv := by
  refine inv.advance (i := i) ?_ rfl rfl rfl TaskPhase.noConfusion
    (fun _ _ => TaskPhase.noConfusion) (fun _ _ => TaskPhase.noConfusion) inv.own ?_ answered
  · rw [receiving]
    exact ⟨TaskPhase.noConfusion, TaskPhase.noConfusion⟩
  · refine inv.counts_setTask ?_
    rw [receiving]
    rfl

theorem Inv.receive (inv : s.Inv) {rsp : Option Message} (done : s.receive i rsp = some t) :
    t.Inv := by
  unfold RpcClient.receive at done
  split at done
  · rename_i call conn rsp receiving
    cases done
    obtain ⟨rfl, rfl⟩ := inv.receiving i call conn receiving
    refine inv.finish receiving fun call' rsp' member => ?_
    rcases List.mem_append.mp member with old | new
    · obtain ⟨conn', sent, got⟩ := inv.answered call' rsp' old
      exact ⟨conn', sent, List.mem_append_left _ got⟩
    · cases List.mem_singleton.mp new
      have once := inv.counts conn
      rw [receiving] at once
      have sent : (conn, conn) ∈ s.sends := List.count_pos_iff.mp (by rw [once]; exact Nat.one_pos)
      exact ⟨conn, sent, List.mem_append_right _ List.mem_cons_self⟩
  · rename_i receiving
    cases done
    exact inv.finish receiving inv.answered
  · cases done

theorem Inv.step (inv : s.Inv) {e : ClientEvent} (alone : s.OneAtATime e)
    (done : s.step e = some t) : t.Inv := by
  cases e with
  | call => exact inv.call alone done
  | begin i => exact inv.begin done
  | connected i ok =>
      cases (show ok = true from alone)
      exact inv.connected done
  | send i => exact inv.send done
  | receive i rsp => exact inv.receive done

/-- **Calls made one at a time.** In every run in which no call is made while the task of
an earlier one is outstanding, and no `connect` fails, every request is sent once and on
its own connection, and every handler gets the response to its own request. -/
theorem calls_faithful {es : List ClientEvent}
    (run : Run (Guarded OneAtATime (Steps RpcClient.step)) init es s) : s.Faithful := by
  have inv : s.Inv := run.invariant inv_init fun inv step => inv.step step.1 step.2
  exact inv.faithful

/-- A response with some content. -/
def pong : Message := ⟨ascii "echo.EchoResponse", ascii "pong"⟩

/-- Two calls, the second after the task of the first is done. -/
def oneAfterTheOther : List ClientEvent :=
  [.call, .begin 0, .connected 0 true, .send 0, .receive 0 (some pong),
   .call, .begin 1, .connected 1 true, .send 1, .receive 1 (some pong)]

theorem one_after_the_other_faithful : ∃ s,
    Run (Guarded OneAtATime (Steps RpcClient.step)) init oneAfterTheOther s ∧
    s.sends = [(0, 0), (1, 1)] ∧ s.Faithful := by
  obtain ⟨s, run, sends⟩ : ∃ s,
      Run (Guarded OneAtATime (Steps RpcClient.step)) init oneAfterTheOther s ∧
      s.sends = [(0, 0), (1, 1)] := by
    refine ⟨_, Run.cons ⟨fun i none => absurd none (Nat.not_lt_zero i), rfl⟩
      (Run.cons ⟨trivial, rfl⟩ (Run.cons ⟨rfl, rfl⟩ (Run.cons ⟨trivial, rfl⟩
        (Run.cons ⟨trivial, rfl⟩ (Run.cons ⟨fun i first outstanding => ?_, rfl⟩
          (Run.cons ⟨trivial, rfl⟩ (Run.cons ⟨rfl, rfl⟩ (Run.cons ⟨trivial, rfl⟩
            (Run.single ⟨trivial, rfl⟩))))))))), rfl⟩
    cases Nat.lt_one_iff.mp first
    exact outstanding.2 rfl
  exact ⟨s, run, sends, calls_faithful run⟩

/-- Two calls before the main worker takes the first task: the first request is not sent,
and the second goes out on both connections. -/
theorem not_calls_faithful : ∃ s,
    Run (Steps RpcClient.step) init
      [.call, .call, .begin 0, .connected 0 true, .send 0, .begin 1, .connected 1 true, .send 1,
       .receive 0 (some pong), .receive 1 (some pong)] s ∧
    s.tasks 0 = .done ∧ s.tasks 1 = .done ∧ s.sends = [(1, 0), (1, 1)] ∧ ¬s.Faithful := by
  refine ⟨_, run_of_exec rfl, rfl, rfl, rfl, fun faithful => ?_⟩
  have own := faithful.own 1 0 List.mem_cons_self
  cases own

end RpcClient

end Reyao.Rpc
