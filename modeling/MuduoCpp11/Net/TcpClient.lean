import MuduoCpp11.Net.Connector

/-! # Clients

A `TcpClient` has a connector and one connection at a time, and a flag `connect_` of its own beside the
one of the connector. `Connect`, `Disconnect` and `Stop` store to the flag of the client and then call
the connector; on another thread than that of the loop there may be anything between the two
(`calls`), and on the loop thread between `RemoveConnection` and the store of `Restart`.

A connection is told by its socket. What it does between `ConnectEstablished` and `HandleClose` does not
matter here: it closes at any time, be it by the peer, by `Shutdown` or by an error, and its close
callback is `RemoveConnection`. -/

namespace MuduoCpp11.Net

open MuduoCpp11.Lib

namespace TcpClient

/-- What the client queues. -/
inductive Functor where
  | connectDestroyed (sockfd : ℤ)
  deriving DecidableEq, Repr

/-- A call of `Connect` or `Stop` on another thread, between the stores. -/
inductive Call where
  | start
  | stop
  deriving DecidableEq, Repr

/-- How it goes on. -/
def Call.act : Call → Connector.Act Functor
  | .start => .startCall
  | .stop => .stopCall

end TcpClient

/-- `established` are the connections that have not closed. -/
structure TcpClient where
  retry : Bool := false
  connect : Bool := true
  nextConnId : ℕ := 1
  connection : Option ℤ := none
  established : List ℤ := []
  connector : Connector TcpClient.Functor := {}
  calls : List TcpClient.Call := []

namespace TcpClient

/-- `retry` says whether `EnableRetry` has been called. -/
def new (retry : Bool) : TcpClient where
  retry := retry

section
variable (s : TcpClient)

/-- The connection is made and `ConnectEstablished` is called. -/
def newConnection (sockfd : ℤ) : TcpClient :=
  { s with
    nextConnId := s.nextConnId + 1
    connection := some sockfd
    established := s.established ++ [sockfd] }

/-- What `RemoveConnection` does with the connector. -/
def removeActs (sockfd : ℤ) : List (Connector.Act Functor) :=
  .queueOther true (.connectDestroyed sockfd) :: if s.retry && s.connect then [.restart] else []

/-- `RemoveConnection`. The run ends if the assertion `connection_ == conn` fails. -/
def removeConnection (sockfd : ℤ) : Option TcpClient :=
  if s.connection = some sockfd then
    (s.connector.run (s.removeActs sockfd)).map fun connector => { s with
      connection := none
      established := s.established.erase sockfd
      connector }
  else none

end

inductive Act where
  | connect (isInLoopThread : Bool)
  | disconnect
  | stop (isInLoopThread : Bool)
  /-- The `i`-th of the calls on other threads goes on. -/
  | call (i : ℕ)
  /-- A connection closes. -/
  | close (sockfd : ℤ)
  /-- A step of the loop, or a call of the connector that goes on. -/
  | connector (a : Connector.Act Functor)

/-- Not a call that the client makes. -/
def ofLoop : Connector.Act Functor → Bool
  | .start | .stop | .restart | .startCall | .stopCall | .queueOther _ _ => false
  | _ => true

/-- The steps of the connector that belong to an action. -/
def acts (s : TcpClient) : Act → List (Connector.Act Functor)
  | .connect true => [.start]
  | .stop true => [.stop]
  | .connect false | .stop false | .disconnect => []
  | .call i => (s.calls[i]?.map Call.act).toList
  | .close sockfd => s.removeActs sockfd
  | .connector a => [a]

def step (s : TcpClient) : Act → Option TcpClient
  | .connect true =>
    (s.connector.step .start).map fun connector => { s with connect := true, connector }
  | .connect false => some { s with connect := true, calls := s.calls ++ [.start] }
  | .disconnect => some { s with connect := false }
  | .stop true =>
    (s.connector.step .stop).map fun connector => { s with connect := false, connector }
  | .stop false => some { s with connect := false, calls := s.calls ++ [.stop] }
  | .call i => s.calls[i]?.bind fun call =>
    (s.connector.step call.act).map fun connector => { s with calls := s.calls.eraseIdx i, connector }
  | .close sockfd =>
    if s.connector.todo = [] ∧ sockfd ∈ s.established then s.removeConnection sockfd else none
  | .connector a =>
    if ofLoop a then
      (s.connector.step a).map fun connector =>
        match a, s.connector.todo with
        | .exec _, .newConnectionCallback sockfd :: _ => { s with connector }.newConnection sockfd
        | _, _ => { s with connector }
    else none

def run : TcpClient → List Act → Option TcpClient := Run.run step

section
variable {s s' : TcpClient}

/-- **The steps of the connector.** -/
theorem step_connector {a : Act} (h : s.step a = some s') :
    s.connector.run (s.acts a) = some s'.connector := by
  cases a with
  | connect b | stop b =>
    cases b with
    | false =>
      cases h
      rfl
    | true =>
      obtain ⟨connector, hc, rfl⟩ := Option.map_eq_some_iff.mp h
      simp [acts, Connector.run, hc]
  | disconnect =>
    cases h
    rfl
  | call i =>
    obtain ⟨call, hcall, h⟩ := Option.bind_eq_some_iff.mp h
    obtain ⟨connector, hc, rfl⟩ := Option.map_eq_some_iff.mp h
    simp [acts, hcall, Connector.run, hc]
  | close sockfd =>
    simp only [step, removeConnection] at h
    split_ifs at h
    obtain ⟨connector, hc, rfl⟩ := Option.map_eq_some_iff.mp h
    exact hc
  | connector a =>
    simp only [step] at h
    split_ifs at h
    obtain ⟨connector, hc, rfl⟩ := Option.map_eq_some_iff.mp h
    have hrun : s.connector.run (s.acts (.connector a)) = some connector := by
      simp [acts, Connector.run, hc]
    rw [hrun]
    split <;> rfl

/-- `connect_` after an action. -/
def connectAfter (s : TcpClient) : Act → Bool
  | .connect _ => true
  | .disconnect | .stop _ => false
  | _ => s.connect

/-- The calls under way after an action. -/
def callsAfter (s : TcpClient) : Act → List Call
  | .connect false => s.calls ++ [.start]
  | .stop false => s.calls ++ [.stop]
  | .call i => s.calls.eraseIdx i
  | _ => s.calls

theorem step_flags {a : Act} (h : s.step a = some s') :
    s'.retry = s.retry ∧ s'.connect = s.connectAfter a ∧ s'.calls = s.callsAfter a := by
  cases a with
  | connect b | stop b =>
    cases b with
    | false =>
      cases h
      exact ⟨rfl, rfl, rfl⟩
    | true =>
      obtain ⟨connector, hc, rfl⟩ := Option.map_eq_some_iff.mp h
      exact ⟨rfl, rfl, rfl⟩
  | disconnect =>
    cases h
    exact ⟨rfl, rfl, rfl⟩
  | call i =>
    obtain ⟨call, hcall, h⟩ := Option.bind_eq_some_iff.mp h
    obtain ⟨connector, hc, rfl⟩ := Option.map_eq_some_iff.mp h
    exact ⟨rfl, rfl, rfl⟩
  | close sockfd =>
    simp only [step, removeConnection] at h
    split_ifs at h
    obtain ⟨connector, hc, rfl⟩ := Option.map_eq_some_iff.mp h
    exact ⟨rfl, rfl, rfl⟩
  | connector a =>
    simp only [step] at h
    split_ifs at h
    obtain ⟨connector, hc, rfl⟩ := Option.map_eq_some_iff.mp h
    split <;> exact ⟨rfl, rfl, rfl⟩

end

end TcpClient

end MuduoCpp11.Net
