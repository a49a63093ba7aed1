import MuduoCpp11.Base.Timestamp
import MuduoCpp11.Net.Buffer.ReadFd
import MuduoCpp11.Net.TcpConnection.LifeCycle
import MuduoCpp11.Net.TcpConnection.Output

/-! # A connection served by a message callback

A server on the loop thread is a message callback: it looks at the contents of the input buffer,
retrieves some of them, sends messages and may shut the connection down (`MessageCallback`). What the
peer of such a server should get does not depend on sockets: it is a `Conversation`, which takes the
chunks of bytes as they arrive and says what is sent up to the first shutdown.

`Served` is the connection of `LifeCycle` with such a callback. Whatever the poller reports, however the
kernel cuts reads and writes, and whenever the peer closes, the connection carries out the conversation
(`served_refines`): what is on the wire and in the output buffer is what the conversation has sent, but for
the messages whose direct write has failed, and the write side is shut down exactly when it has asked for
that and all of it is on the wire. -/

namespace MuduoCpp11.Net

open MuduoCpp11.Base MuduoCpp11.Lib

/-- What a message callback asks its connection for. -/
inductive Reply where
  | send (message : List UInt8)
  | shutdown
  deriving DecidableEq, Repr

/-- What a message callback has done: the state it keeps with the connection, how many bytes it has
retrieved from the input buffer, and then its calls. -/
structure Reaction (σ : Type*) where
  context : σ
  retrieved : ℕ
  replies : List Reply

/-- A message callback, as a function of its state, the time of the poll and the contents of the input
buffer; `none` if it fails an assertion. -/
def MessageCallback (σ : Type*) := σ → Timestamp → List UInt8 → Option (Reaction σ)

/-! ### What the peer should get -/

/-- The messages sent before the first shutdown. -/
def sentBy : List Reply → List (List UInt8)
  | [] => []
  | .send message :: replies => message :: sentBy replies
  | .shutdown :: _ => []

structure Conversation (σ : Type*) where
  context : σ
  pending : List UInt8 := []
  sent : List (List UInt8) := []
  isOpen : Bool := true

/-- Bytes that arrive, with the time of the poll that reported them. -/
structure Arrival where
  data : List UInt8
  time : Timestamp
  deriving DecidableEq

namespace Conversation

variable {σ : Type*}

def answer (s : Conversation σ) (pending : List UInt8) (r : Reaction σ) : Conversation σ where
  context := r.context
  pending := pending.drop r.retrieved
  sent := s.sent ++ if s.isOpen then sentBy r.replies else []
  isOpen := s.isOpen && .shutdown ∉ r.replies

def hear (h : MessageCallback σ) (s : Conversation σ) (d : Arrival) : Option (Conversation σ) :=
  (h s.context d.time (s.pending ++ d.data)).map (s.answer (s.pending ++ d.data))

def run (h : MessageCallback σ) : Conversation σ → List Arrival → Option (Conversation σ) :=
  Run.run (hear h)

end Conversation

/-! ### The connection -/

/-- A message given to `SendInLoop`, and whether its direct write has failed with `EPIPE` or `ECONNRESET`,
which leaves it out. -/
structure Given where
  message : List UInt8
  lost : Bool
  deriving DecidableEq, Repr

/-- The messages that are not left out. -/
def keptOf (gs : List Given) : List (List UInt8) := (gs.filter fun g => !g.lost).map Given.message

/-- What the calls of a callback give to `SendInLoop`. -/
def TcpConnection.given : TcpConnection → List UserCall → List Given
  | _, [] => []
  | c, call :: calls =>
    (match call with
      | .send message w => if c.state = .kConnected then [⟨message, c.directWriteFails w⟩] else []
      | _ => []) ++ (c.call call).given calls

/-- `heard` and `given` are history: what the read events have brought, and what the callback has sent. -/
structure Served (σ : Type*) where
  conn : TcpConnection
  context : σ
  heard : List Arrival := []
  given : List Given := []

namespace Served

/-- A step on the loop thread. `replies` are the results of the direct writes of the callback. -/
inductive Act where
  | dispatch (revents : BitVec 32) (time : Timestamp) (read : ReadResult) (write : WriteResult)
      (replies : List WriteResult)
  | beginFunctors
  | functor (w : WriteResult)
  | endFunctors
  | removeConnection

/-- The calls of the callback, with the results of the direct writes. -/
def script : List Reply → List WriteResult → List UserCall
  | [], _ => []
  | .send message :: replies, ws => .send message (ws.headD (.room 0)) :: script replies ws.tail
  | .shutdown :: replies, ws => .shutdown :: script replies ws

/-- The bytes for which `HandleRead` calls the message callback. -/
def arrived (c : TcpConnection) (revents : BitVec 32) (read : ReadResult) : List UInt8 :=
  if hasEvent revents (POLLIN ||| POLLPRI ||| POLLRDHUP) then
    match (c.inputBuffer.readFd read).2 with
    | .bytes data => data
    | .error _ => []
  else []

/-- The connection on which `HandleRead` calls the message callback. -/
def atCallback (c : TcpConnection) (revents : BitVec 32) (read : ReadResult) : TcpConnection :=
  ({ c with
    channel := { c.channel with revents, eventHandling := true }
    inputBuffer := (c.inputBuffer.readFd read).1 }).emit .messageCallback

variable {σ : Type*}

def step (h : MessageCallback σ) (s : Served σ) : Act → Option (Served σ)
  | .dispatch revents time read write replies =>
    let data := arrived s.conn revents read
    if data = [] then
      (TcpConnection.LifeCycle.step s.conn (.dispatch { revents, read, write })).map
        fun conn => { s with conn }
    else
      (h s.context time (s.conn.inputBuffer.readFd read).1.peek).bind fun r =>
        let onRead := .retrieve r.retrieved :: script r.replies replies
        (TcpConnection.LifeCycle.step s.conn (.dispatch { revents, read, write, onRead })).map
          fun conn => ⟨conn, r.context, s.heard ++ [⟨data, time⟩],
            s.given ++ (atCallback s.conn revents read).given onRead⟩
  | .beginFunctors =>
    (TcpConnection.LifeCycle.step s.conn .beginFunctors).map fun conn => { s with conn }
  | .functor w => (TcpConnection.LifeCycle.step s.conn (.functor w [])).map fun conn => { s with conn }
  | .endFunctors => (TcpConnection.LifeCycle.step s.conn .endFunctors).map fun conn => { s with conn }
  | .removeConnection =>
    (TcpConnection.LifeCycle.step s.conn .removeConnection).map fun conn => { s with conn }

def run (h : MessageCallback σ) : Served σ → List Act → Option (Served σ) := Run.run (step h)

/-- The connection behind `ConnectEstablished`. -/
def start (fd : ℤ) (sameLoop : Bool) (context : σ) : Served σ where
  conn := TcpConnection.established fd (64 * 1024 * 1024) false false sameLoop
  context

/-- No direct write of the callback fails with `EPIPE` or `ECONNRESET`. -/
def Act.calm : Act → Bool
  | .dispatch _ _ _ _ replies => replies.all fun w => !w.isFault
  | _ => true

end Served

/-! ### The connection while it is open -/

/-- An effect that is neither a write nor a shutdown. -/
def Effect.isSilent : Effect → Bool
  | .write _ | .shutdownWrite _ => false
  | _ => true

namespace TcpConnection

variable {c c' : TcpConnection} {ms : List (List UInt8)} {isOpen : Bool}

/-- The connection is open, its stream is the messages `ms`, and the write side has been shut down
exactly if that has been asked for and the output buffer is empty. -/
structure Talks (c : TcpConnection) (ms : List (List UInt8)) (isOpen : Bool) : Prop where
  state : c.state = if isOpen then .kConnected else .kDisconnecting
  synced : c.Synced
  stream : wire c.log ++ c.outputBuffer.peek = ms.flatten
  shutdowns : Net.shutdowns [] c.log =
    if isOpen = false ∧ c.outputBuffer.peek = [] then [(ms.flatten, [])] else []
  queue : ∀ f ∈ c.loop.queued, f.isCallback = true
  owner : c.owner.removePending = false

/-- The connection is closed; what was sent stays. -/
structure Silent (c : TcpConnection) (ms : List (List UInt8)) (isOpen : Bool) : Prop where
  state : c.state = .kDisconnected
  quiet : c.channel.events = kNoneEvent
  stream : wire c.log ++ c.outputBuffer.peek = ms.flatten
  shutdowns : Net.shutdowns [] c.log =
    if isOpen = false ∧ c.outputBuffer.peek = [] then [(ms.flatten, [])] else []
  queue : ∀ f ∈ c.loop.queued, f.isCallback = true ∨ f = .connectDestroyed

/-- What the output functions leave alone. -/
structure SameInput (c c' : TcpConnection) : Prop where
  inputBuffer : c'.inputBuffer = c.inputBuffer
  owner : c'.owner = c.owner

theorem SameInput.trans {c'' : TcpConnection} (h : SameInput c c') (h' : SameInput c' c'') :
    SameInput c c'' := ⟨h'.inputBuffer.trans h.inputBuffer, h'.owner.trans h.owner⟩

theorem sameInput_shutdownInLoop (c : TcpConnection) : SameInput c c.shutdownInLoop := by
  unfold shutdownInLoop
  split_ifs <;> exact ⟨rfl, rfl⟩

theorem sameInput_writeDirectly (c : TcpConnection) (data : List UInt8) (w : WriteResult) :
    SameInput c (c.writeDirectly data w).1 := by
  cases w with
  | room n =>
    simp only [writeDirectly]
    split_ifs <;> exact ⟨rfl, rfl⟩
  | error e => exact ⟨rfl, rfl⟩

theorem sameInput_bufferRemaining (c : TcpConnection) (remaining : List UInt8) :
    SameInput c (c.bufferRemaining remaining) := by
  unfold bufferRemaining
  dsimp only
  split_ifs <;> exact ⟨rfl, rfl⟩

theorem sameInput_sendInLoop (c : TcpConnection) (data : List UInt8) (w : WriteResult) :
    SameInput c (c.sendInLoop data w) := by
  have hw := sameInput_writeDirectly c data w
  unfold sendInLoop
  split_ifs
  · exact ⟨rfl, rfl⟩
  · dsimp only
    split_ifs
    · exact hw.trans (sameInput_bufferRemaining ..)
    · exact hw
  · dsimp only
    split_ifs
    · exact sameInput_bufferRemaining ..
    · exact ⟨rfl, rfl⟩

theorem sameInput_drained (c : TcpConnection) : SameInput c c.drained := by
  obtain ⟨c₁, hc₁, h₁⟩ : ∃ c₁ : TcpConnection,
      c.drained = (if c₁.state = .kDisconnecting then c₁.shutdownInLoop else c₁) ∧
      SameInput c c₁ := by
    refine ⟨_, rfl, ?_⟩
    split_ifs <;> exact ⟨rfl, rfl⟩
  rw [hc₁]
  split_ifs
  · exact h₁.trans (sameInput_shutdownInLoop c₁)
  · exact h₁

theorem sameInput_handleWrite (c : TcpConnection) (w : WriteResult) :
    SameInput c (c.handleWrite w) := by
  by_cases hw : c.channel.isWriting = true
  · cases w with
    | room n =>
      have hwrote : SameInput c (c.wrote (min n c.outputBuffer.readableBytes)) := ⟨rfl, rfl⟩
      rw [handleWrite_room hw]
      split_ifs
      · exact hwrote.trans (sameInput_drained _)
      · exact hwrote
      · exact ⟨rfl, rfl⟩
    | error e => simp only [handleWrite, hw, if_true]; exact ⟨rfl, rfl⟩
  · simp only [handleWrite, hw]
    exact ⟨rfl, rfl⟩

/-! ### The calls of the callback -/

theorem Talks.queue_of_queuesCallbacks (h : Talks c ms isOpen) (hq : QueuesCallbacks c c') :
    ∀ f ∈ c'.loop.queued, f.isCallback = true := by
  obtain ⟨cbs, hq, hcb⟩ := hq
  intro f hf
  rw [hq] at hf
  rcases List.mem_append.mp hf with hf | hf
  · exact h.queue f hf
  · exact hcb f hf

theorem Talks.ne_disconnected (h : Talks c ms isOpen) : c.state ≠ .kDisconnected := by
  rw [h.state]; split_ifs <;> simp

@[simp] theorem keptOf_append (gs gs' : List Given) : keptOf (gs ++ gs') = keptOf gs ++ keptOf gs' := by
  simp [keptOf]

/-- A message is appended to the stream, or left out when its direct write fails. -/
theorem Talks.send (h : Talks c ms true) (message : List UInt8) (w : WriteResult) :
    Talks (c.send message w) (ms ++ keptOf [⟨message, c.directWriteFails w⟩]) true := by
  have ha := sendInLoop_appends h.synced h.ne_disconnected message w
  have hin := sameInput_sendInLoop c message w
  have hshut := h.shutdowns
  have hst : c.state = .kConnected := h.state
  have hkept : (keptOf [⟨message, c.directWriteFails w⟩]).flatten =
      if c.directWriteFails w then [] else message := by
    cases hf : c.directWriteFails w <;> simp [keptOf]
  simp only [TcpConnection.send, if_pos hst]
  simp only [Bool.true_eq_false, false_and, if_false] at hshut
  refine ⟨?_, ha.synced, ?_, ?_, h.queue_of_queuesCallbacks ha.queue, hin.owner ▸ h.owner⟩
  · rw [ha.state, hst]
    rfl
  · rw [ha.stream, h.stream, List.flatten_append, hkept]
  · rw [ha.shutdowns, hshut]
    simp

/-- The write side is shut down now if the output buffer is empty. -/
theorem Talks.shutdown (h : Talks c ms true) : Talks c.shutdown ms false := by
  have hst : c.state = .kConnected := h.state
  have hs : (c.setState .kDisconnecting).Synced := h.synced
  have hm := shutdownInLoop_moves hs
  have hin := sameInput_shutdownInLoop (c.setState .kDisconnecting)
  have hlog : Net.shutdowns [] (c.setState .kDisconnecting).log = [] := by
    have := h.shutdowns
    simp only [Bool.true_eq_false, false_and, if_false] at this
    simp [setState, emit, shutdowns_append, Net.shutdowns, this]
  have hstream : wire (c.setState .kDisconnecting).log ++ c.outputBuffer.peek = ms.flatten := by
    simpa [setState, emit, wire, Effect.written] using h.stream
  have hpeek := hm.stream
  simp only [TcpConnection.shutdown, if_pos hst]
  refine ⟨hm.state, hm.synced, hm.stream.trans hstream, ?_,
    Talks.queue_of_queuesCallbacks (c := c) h hm.queue, hin.owner ▸ h.owner⟩
  have hout : (c.setState .kDisconnecting).shutdownInLoop.outputBuffer = c.outputBuffer := by
    unfold shutdownInLoop
    split_ifs <;> rfl
  rw [hm.shutdowns, hlog, hout, List.nil_append]
  by_cases he : c.outputBuffer.peek = []
  · rw [he, List.append_nil] at hstream
    simp [he, hstream, show (c.setState .kDisconnecting).outputBuffer = c.outputBuffer from rfl]
  · simp [he, show (c.setState .kDisconnecting).outputBuffer = c.outputBuffer from rfl]

/-! ### Handlers -/

/-- `HandleWrite` takes from the front of the output buffer. -/
theorem peek_handleWrite (hs : c.Synced) (w : WriteResult) :
    (c.handleWrite w).outputBuffer.peek = c.outputBuffer.peek.drop
      (match w with
      | .room n => min n c.outputBuffer.readableBytes
      | .error _ => 0) := by
  have hdrained : ∀ c : TcpConnection, c.drained.outputBuffer = c.outputBuffer := by
    intro c
    unfold drained shutdownInLoop
    dsimp only
    split_ifs <;> rfl
  by_cases hw : c.channel.isWriting = true
  · cases w with
    | room n =>
      rw [handleWrite_room hw]
      split_ifs with hn
      · rw [hdrained, peek_wrote]
      · rw [peek_wrote]
      · simp [show min n c.outputBuffer.readableBytes = 0 by omega, emit]
    | error e => simp [handleWrite, hw]
  · have he : c.outputBuffer.peek = [] := by
      rw [← c.outputBuffer.readableBytes_eq_zero]
      have := hs.not.mp hw
      omega
    simp [handleWrite, hw, he]

theorem peek_handleWrite_eq_nil (hs : c.Synced) (w : WriteResult) :
    (c.handleWrite w).outputBuffer.peek = [] ↔ c.outputBuffer.peek = [] ∨ c.drains w = true := by
  have hlen := c.outputBuffer.length_peek
  have hz := c.outputBuffer.readableBytes_eq_zero
  rw [peek_handleWrite hs, List.drop_eq_nil_iff, hlen, ← hz]
  cases w with
  | room n => simp only [drains, decide_eq_true_eq]; omega
  | error e => simp [drains]

theorem Talks.handleWrite (h : Talks c ms isOpen) (w : WriteResult) :
    Talks (c.handleWrite w) ms isOpen := by
  have hm := handleWrite_moves h.synced w
  have hin := sameInput_handleWrite c w
  refine ⟨hm.state.trans h.state, hm.synced, hm.stream.trans h.stream, ?_,
    h.queue_of_queuesCallbacks hm.queue, hin.owner ▸ h.owner⟩
  have hdisc : c.state = .kDisconnecting ↔ isOpen = false := by
    rw [h.state]; cases isOpen <;> simp
  have hdrains : c.drains w = true → c.outputBuffer.peek ≠ [] := by
    intro hd he
    rw [← c.outputBuffer.readableBytes_eq_zero] at he
    cases w <;> simp [drains, he] at hd
  rw [hm.shutdowns, h.shutdowns, h.stream]
  simp only [hdisc, peek_handleWrite_eq_nil h.synced]
  cases isOpen with
  | true => simp
  | false =>
    by_cases hd : c.drains w = true
    · simp [hd, hdrains hd]
    · simp [hd]

/-! ### Closing -/

/-- From `c` to `c'` nothing happens to the stream, and the loop gets at most `ConnectDestroyed`. -/
structure KeepsStream (c c' : TcpConnection) : Prop where
  inputBuffer : c'.inputBuffer = c.inputBuffer
  outputBuffer : c'.outputBuffer = c.outputBuffer
  log : ∃ l, c'.log = c.log ++ l ∧ ∀ e ∈ l, e.isSilent = true
  queue : ∃ fs, c'.loop.queued = c.loop.queued ++ fs ∧ ∀ f ∈ fs, f = .connectDestroyed

theorem KeepsStream.of_eq (hi : c'.inputBuffer = c.inputBuffer) (ho : c'.outputBuffer = c.outputBuffer)
    (hl : c'.log = c.log) (hq : c'.loop.queued = c.loop.queued) : KeepsStream c c' :=
  ⟨hi, ho, ⟨[], by simp [hl]⟩, ⟨[], by simp [hq]⟩⟩

theorem KeepsStream.trans {c'' : TcpConnection} (h : KeepsStream c c') (h' : KeepsStream c' c'') :
    KeepsStream c c'' := by
  obtain ⟨l, hl, hsilent⟩ := h.log
  obtain ⟨l', hl', hsilent'⟩ := h'.log
  obtain ⟨fs, hq, hfs⟩ := h.queue
  obtain ⟨fs', hq', hfs'⟩ := h'.queue
  refine ⟨h'.inputBuffer.trans h.inputBuffer, h'.outputBuffer.trans h.outputBuffer,
    ⟨l ++ l', by rw [hl', hl, List.append_assoc], ?_⟩,
    ⟨fs ++ fs', by rw [hq', hq, List.append_assoc], ?_⟩⟩
  · exact fun e he => (List.mem_append.mp he).elim (hsilent e) (hsilent' e)
  · exact fun f hf => (List.mem_append.mp hf).elim (hfs f) (hfs' f)

theorem keepsStream_emit (c : TcpConnection) {e : Effect} (he : e.isSilent = true) :
    KeepsStream c (c.emit e) :=
  ⟨rfl, rfl, ⟨[e], rfl, by simpa using he⟩, ⟨[], by simp [emit]⟩⟩

theorem keepsStream_assert (c : TcpConnection) (a : Assertion) (p : Bool) :
    KeepsStream c (c.assert a p) := by
  unfold TcpConnection.assert
  split_ifs
  · exact .of_eq rfl rfl rfl rfl
  · exact keepsStream_emit c rfl

theorem keepsStream_setState (c : TcpConnection) (s : StateE) : KeepsStream c (c.setState s) := by
  have hs : KeepsStream c { c with state := s } := .of_eq rfl rfl rfl rfl
  exact hs.trans (keepsStream_emit _ rfl)

theorem keepsStream_update (c : TcpConnection) (f : Channel → Channel) :
    KeepsStream c (c.update f) := by
  have hf : KeepsStream c { c with channel := f c.channel } := .of_eq rfl rfl rfl rfl
  exact hf.trans (keepsStream_emit _ rfl)

theorem keepsStream_removeConnectionInLoop (c : TcpConnection) :
    KeepsStream c c.removeConnectionInLoop := by
  have ha := keepsStream_assert c .removeConnectionInLoop c.owner.holds
  refine ha.trans ⟨rfl, rfl, ⟨[], by simp [removeConnectionInLoop]⟩, ⟨[.connectDestroyed], ?_, ?_⟩⟩
  · simp [removeConnectionInLoop]
  · simp

theorem keepsStream_closeCallback (c : TcpConnection) : KeepsStream c c.closeCallback := by
  have he := keepsStream_emit c (e := .closeCallback) rfl
  unfold closeCallback
  dsimp only
  split_ifs
  · exact he.trans (keepsStream_removeConnectionInLoop _)
  · exact he.trans (.of_eq rfl rfl rfl rfl)

theorem keepsStream_removeChannel (c : TcpConnection) : KeepsStream c c.removeChannel := by
  have ha := keepsStream_assert c .remove c.channel.isNoneEvent
  obtain ⟨c₁, hc₁, h₁⟩ : ∃ c₁ : TcpConnection, c.removeChannel = c₁.emit .removeChannel ∧
      KeepsStream (c.assert .remove c.channel.isNoneEvent) c₁ := ⟨_, rfl, .of_eq rfl rfl rfl rfl⟩
  rw [hc₁]
  exact (ha.trans h₁).trans (keepsStream_emit c₁ rfl)

/-- A callback that takes the connection down makes no calls. -/
theorem keepsStream_handleClose (c : TcpConnection) : KeepsStream c (c.handleClose []) := by
  have ha := keepsStream_assert c .handleClose (c.state = .kConnected ∨ c.state = .kDisconnecting)
  have hs := (ha.trans (keepsStream_setState _ .kDisconnected)).trans
    (keepsStream_update _ Channel.disableAll)
  exact (hs.trans (keepsStream_emit _ rfl)).trans (keepsStream_closeCallback _)

theorem closed_removeConnectionInLoop (c : TcpConnection) :
    c.removeConnectionInLoop.state = c.state ∧
      c.removeConnectionInLoop.channel = c.channel := by
  unfold removeConnectionInLoop TcpConnection.assert
  split_ifs <;> exact ⟨rfl, rfl⟩

theorem closed_removeChannel (c : TcpConnection) :
    c.removeChannel.state = c.state ∧ c.removeChannel.channel.events = c.channel.events := by
  unfold removeChannel TcpConnection.assert
  split_ifs <;> exact ⟨rfl, rfl⟩

theorem closed_handleClose (c : TcpConnection) :
    (c.handleClose []).state = .kDisconnected ∧ (c.handleClose []).channel.events = kNoneEvent := by
  unfold handleClose closeCallback
  dsimp only
  split_ifs
  · rw [(closed_removeConnectionInLoop _).1, (closed_removeConnectionInLoop _).2]
    exact ⟨rfl, rfl⟩
  · exact ⟨rfl, rfl⟩

theorem wire_silent {l : List Effect} (h : ∀ e ∈ l, e.isSilent = true) : wire l = [] := by
  simp only [wire, List.flatMap_eq_nil_iff]
  intro e he
  have := h e he
  cases e <;> simp_all [Effect.isSilent, Effect.written]

theorem shutdowns_silent {sent : List UInt8} : ∀ {l : List Effect},
    (∀ e ∈ l, e.isSilent = true) → Net.shutdowns sent l = []
  | [], _ => rfl
  | e :: l, h => by
    have he := h e List.mem_cons_self
    have ih : Net.shutdowns sent l = [] :=
      shutdowns_silent fun e' he' => h e' (List.mem_cons_of_mem _ he')
    cases e <;> simp_all [Effect.isSilent, Net.shutdowns, Effect.written]

theorem KeepsStream.stream (h : KeepsStream c c') :
    wire c'.log ++ c'.outputBuffer.peek = wire c.log ++ c.outputBuffer.peek := by
  obtain ⟨l, hl, hsilent⟩ := h.log
  have hw : wire (c.log ++ l) = wire c.log ++ wire l := by simp [wire]
  rw [hl, h.outputBuffer, hw, wire_silent hsilent, List.append_nil]

theorem KeepsStream.shutdowns (h : KeepsStream c c') :
    Net.shutdowns [] c'.log = Net.shutdowns [] c.log := by
  obtain ⟨l, hl, hsilent⟩ := h.log
  rw [hl, shutdowns_append, shutdowns_silent hsilent, List.append_nil]

/-- A connection that talks is closed. -/
theorem Talks.close (h : Talks c ms isOpen) (hk : KeepsStream c c') (hst : c'.state = .kDisconnected)
    (hq : c'.channel.events = kNoneEvent) : Silent c' ms isOpen := by
  obtain ⟨fs, hqueue, hfs⟩ := hk.queue
  refine ⟨hst, hq, hk.stream.trans h.stream, ?_, ?_⟩
  · rw [hk.shutdowns, h.shutdowns, hk.outputBuffer]
  · intro f hf
    rw [hqueue] at hf
    exact (List.mem_append.mp hf).imp (h.queue f) (hfs f)

/-- A closed connection stays as it is. -/
theorem Silent.keep (h : Silent c ms isOpen) (hk : KeepsStream c c') (hst : c'.state = c.state)
    (hq : c'.channel.events = c.channel.events) : Silent c' ms isOpen := by
  obtain ⟨fs, hqueue, hfs⟩ := hk.queue
  refine ⟨hst.trans h.state, hq.trans h.quiet, hk.stream.trans h.stream, ?_, ?_⟩
  · rw [hk.shutdowns, h.shutdowns, hk.outputBuffer]
  · intro f hf
    rw [hqueue] at hf
    exact (List.mem_append.mp hf).elim (h.queue f) fun hf => Or.inr (hfs f hf)

theorem Silent.handleWrite (h : Silent c ms isOpen) (w : WriteResult) : c.handleWrite w = c := by
  have hw : c.channel.isWriting = false := by simp [Channel.isWriting, hasEvent, h.quiet, kNoneEvent]
  simp [TcpConnection.handleWrite, hw]

theorem Talks.handleClose (h : Talks c ms isOpen) : Silent (c.handleClose []) ms isOpen :=
  h.close (keepsStream_handleClose c) (closed_handleClose c).1 (closed_handleClose c).2

/-! ### A dispatch -/

theorem Talks.congr (h : Talks c ms isOpen) (hs : c'.state = c.state)
    (he : c'.channel.events = c.channel.events) (ho : c'.outputBuffer = c.outputBuffer)
    (hl : c'.log = c.log) (hq : c'.loop.queued = c.loop.queued) (hw : c'.owner = c.owner) :
    Talks c' ms isOpen := by
  refine ⟨hs.trans h.state, ?_, by rw [hl, ho, h.stream], by rw [hl, ho, h.shutdowns],
    by rw [hq]; exact h.queue, by rw [hw, h.owner]⟩
  have hsync := h.synced
  unfold Synced Channel.isWriting at hsync ⊢
  rwa [he, ho]

theorem Talks.emit (h : Talks c ms isOpen) {e : Effect} (he : e.isSilent = true) :
    Talks (c.emit e) ms isOpen := by
  have hk := keepsStream_emit c he
  exact ⟨h.state, h.synced, hk.stream.trans h.stream, hk.shutdowns.trans h.shutdowns, h.queue, h.owner⟩

/-- Behind a shutdown the callback's calls do nothing. -/
theorem Talks.script_false (h : Talks c ms false) : ∀ replies ws,
    c.calls (Served.script replies ws) = c ∧ c.given (Served.script replies ws) = []
  | [], _ => ⟨rfl, rfl⟩
  | .send message :: replies, ws => by
    have hne : ¬ c.state = .kConnected := by simp [h.state]
    have hsend : c.send message (ws.headD (.room 0)) = c := by rw [TcpConnection.send, if_neg hne]
    have ih := h.script_false replies ws.tail
    constructor
    · show (c.send message (ws.headD (.room 0))).calls (Served.script replies ws.tail) = c
      rw [hsend]
      exact ih.1
    · show (if c.state = .kConnected then _ else []) ++
        (c.send message (ws.headD (.room 0))).given (Served.script replies ws.tail) = []
      rw [hsend, if_neg hne]
      exact ih.2
  | .shutdown :: replies, ws => by
    have hshut : c.shutdown = c := by rw [TcpConnection.shutdown, if_neg (by simp [h.state])]
    have ih := h.script_false replies ws
    constructor
    · show c.shutdown.calls (Served.script replies ws) = c
      rw [hshut]
      exact ih.1
    · show [] ++ c.shutdown.given (Served.script replies ws) = []
      rw [hshut]
      exact ih.2

/-- What a callback sends, if `c` talks: its messages up to the first shutdown. -/
structure Replies (c : TcpConnection) (isOpen : Bool) (replies : List Reply) (ws : List WriteResult) :
    Prop where
  messages : (c.given (Served.script replies ws)).map Given.message =
    if isOpen then sentBy replies else []
  calm : (∀ w ∈ ws, w.isFault = false) → ∀ g ∈ c.given (Served.script replies ws), g.lost = false
  inputBuffer : (c.calls (Served.script replies ws)).inputBuffer = c.inputBuffer

/-- **The calls of the callback** send its messages up to the first shutdown. -/
theorem Talks.script_true : ∀ {c : TcpConnection} {ms : List (List UInt8)} (replies : List Reply)
    (ws : List WriteResult), Talks c ms true →
    Talks (c.calls (Served.script replies ws)) (ms ++ keptOf (c.given (Served.script replies ws)))
      (.shutdown ∉ replies) ∧ Replies c true replies ws
  | c, ms, [], ws, h => by
    have hcalls : c.calls (Served.script [] ws) = c := rfl
    have hgiven : c.given (Served.script [] ws) = [] := rfl
    exact ⟨by simpa [hcalls, hgiven, keptOf] using h, rfl, fun _ => by simp [hgiven], rfl⟩
  | c, ms, .send message :: replies, ws, h => by
    have hone := h.send message (ws.headD (.room 0))
    obtain ⟨hkept, hsends⟩ := hone.script_true replies ws.tail
    have hst : c.state = .kConnected := h.state
    have hinput : (c.send message (ws.headD (.room 0))).inputBuffer = c.inputBuffer := by
      rw [TcpConnection.send, if_pos hst, (sameInput_sendInLoop ..).inputBuffer]
    have hcalls : c.calls (Served.script (.send message :: replies) ws) =
      (c.send message (ws.headD (.room 0))).calls (Served.script replies ws.tail) := rfl
    have hgiven : c.given (Served.script (.send message :: replies) ws) =
        [⟨message, c.directWriteFails (ws.headD (.room 0))⟩] ++
          (c.send message (ws.headD (.room 0))).given (Served.script replies ws.tail) := by
      show (if c.state = .kConnected then _ else []) ++ _ = _
      rw [if_pos hst]
      rfl
    refine ⟨?_, ?_, fun hws g hg => ?_, hsends.inputBuffer.trans hinput⟩
    · rw [hcalls, hgiven, keptOf_append, ← List.append_assoc]
      simpa using hkept
    · rw [hgiven, List.map_append, hsends.messages]
      rfl
    · rw [hgiven] at hg
      rcases List.mem_append.mp hg with hg | hg
      · have hhead : (ws.headD (.room 0)).isFault = false := by
          cases ws with
          | nil => rfl
          | cons w ws => exact hws w List.mem_cons_self
        rw [List.mem_singleton.mp hg, directWriteFails, hhead, Bool.and_false]
      · exact hsends.calm (fun w hw => hws w (List.mem_of_mem_tail hw)) g hg
  | c, ms, .shutdown :: replies, ws, h => by
    have hshut := h.shutdown
    have hst : c.state = .kConnected := h.state
    have hcalls : c.calls (Served.script (.shutdown :: replies) ws) = c.shutdown :=
      (hshut.script_false replies ws).1
    have hgiven : c.given (Served.script (.shutdown :: replies) ws) = [] :=
      (hshut.script_false replies ws).2
    refine ⟨?_, by rw [hgiven]; rfl, fun _ => by simp [hgiven], ?_⟩
    · rw [hcalls, hgiven]
      simpa [keptOf] using hshut
    · rw [hcalls, TcpConnection.shutdown, if_pos hst]
      exact (sameInput_shutdownInLoop _).inputBuffer

/-- What the callback's calls make of what was sent. -/
theorem Talks.script (h : Talks c ms isOpen) (replies : List Reply) (ws : List WriteResult) :
    Talks (c.calls (Served.script replies ws)) (ms ++ keptOf (c.given (Served.script replies ws)))
      (isOpen && .shutdown ∉ replies) ∧ Replies c isOpen replies ws := by
  cases isOpen with
  | true => exact h.script_true replies ws
  | false =>
    obtain ⟨hcalls, hgiven⟩ := h.script_false replies ws
    refine ⟨?_, by rw [hgiven]; rfl, fun _ => by simp [hgiven], by rw [hcalls]⟩
    rw [hcalls, hgiven]
    simpa [keptOf] using h

/-- The read callback is called exactly for its events; otherwise the connection may have been closed.
The write callback comes last. -/
theorem handleEventWithGuard_cases {ev : Event} (hev : LifeCycle.Allowed ev) :
    let c₀ := { c with channel := { c.channel with revents := ev.revents, eventHandling := true } }
    ∃ c₁, (if hasEvent ev.revents (POLLIN ||| POLLPRI ||| POLLRDHUP) = true then
          c₁ = c₀.handleRead ev.read ev.onRead
        else c₁ = c₀.handleClose ev.onClose ∨ c₁ = c₀) ∧
      ∃ c₂, (c₂ = c₁.handleWrite ev.write ∨ c₂ = c₁) ∧
        c.handleEventWithGuard ev =
          { c₂ with channel := { c₂.channel with eventHandling := false } } := by
  intro c₀
  have hwrite : ∀ c₁ : TcpConnection, ∃ c₂, (c₂ = c₁.handleWrite ev.write ∨ c₂ = c₁) ∧
      (if hasEvent ev.revents POLLOUT then c₁.handleWrite ev.write else c₁) = c₂ := by
    intro c₁
    split_ifs
    · exact ⟨_, Or.inl rfl, rfl⟩
    · exact ⟨_, Or.inr rfl, rfl⟩
  unfold handleEventWithGuard
  dsimp only
  by_cases hhup : hasEvent ev.revents POLLHUP = true ∧ (!hasEvent ev.revents POLLIN) = true
  · have hin : hasEvent ev.revents POLLIN = false := by simpa using hhup.2
    obtain ⟨hpri, hrdhup⟩ := hev hhup.1 hin
    have hread : hasEvent ev.revents (POLLIN ||| POLLPRI ||| POLLRDHUP) = false := by
      simp [LifeCycle.hasEvent_or, hin, hpri, hrdhup]
    obtain ⟨c₂, hc₂, heq⟩ := hwrite (c₀.handleClose ev.onClose)
    refine ⟨c₀.handleClose ev.onClose, ?_, c₂, hc₂, ?_⟩
    · rw [hread, if_neg Bool.false_ne_true]
      exact Or.inl rfl
    · rw [if_pos hhup, hread, if_neg Bool.false_ne_true, heq]
  · rw [if_neg hhup]
    by_cases hread : hasEvent ev.revents (POLLIN ||| POLLPRI ||| POLLRDHUP) = true
    · obtain ⟨c₂, hc₂, heq⟩ := hwrite (c₀.handleRead ev.read ev.onRead)
      refine ⟨c₀.handleRead ev.read ev.onRead, ?_, c₂, hc₂, ?_⟩
      · rw [if_pos hread]
      · rw [if_pos hread, heq]
    · obtain ⟨c₂, hc₂, heq⟩ := hwrite c₀
      refine ⟨c₀, ?_, c₂, hc₂, ?_⟩
      · rw [if_neg hread]
        exact Or.inr rfl
      · rw [if_neg hread, heq]

/-- The connection talks or is closed. -/
def Carries (c : TcpConnection) (ms : List (List UInt8)) (isOpen : Bool) : Prop :=
  Talks c ms isOpen ∨ Silent c ms isOpen

theorem Carries.stream (h : Carries c ms isOpen) :
    wire c.log ++ c.outputBuffer.peek = ms.flatten := h.elim Talks.stream Silent.stream

theorem Carries.shutdowns (h : Carries c ms isOpen) : Net.shutdowns [] c.log =
    if isOpen = false ∧ c.outputBuffer.peek = [] then [(ms.flatten, [])] else [] :=
  h.elim Talks.shutdowns Silent.shutdowns

/-- The write callback and the end of a dispatch. -/
theorem Carries.finish {c₁ c₂ : TcpConnection} {w : WriteResult} (h : Carries c₁ ms isOpen)
    (hc₂ : c₂ = c₁.handleWrite w ∨ c₂ = c₁) :
    Carries { c₂ with channel := { c₂.channel with eventHandling := false } } ms isOpen ∧
      c₂.inputBuffer = c₁.inputBuffer := by
  have h₂ : Carries c₂ ms isOpen := by
    rcases hc₂ with rfl | rfl
    · exact h.imp (fun h => h.handleWrite w) fun h => by rwa [h.handleWrite]
    · exact h
  refine ⟨h₂.imp (fun h => h.congr rfl rfl rfl rfl rfl rfl)
    fun h => ⟨h.state, h.quiet, h.stream, h.shutdowns, h.queue⟩, ?_⟩
  rcases hc₂ with rfl | rfl
  · exact (sameInput_handleWrite ..).inputBuffer
  · rfl

theorem readFd_bytes_nil {b buffer : Buffer} {r : ReadResult}
    (h : b.readFd r = (buffer, .bytes [])) : buffer = b := by
  have hwrite : ∀ hle, b.write [] hle = b := by
    intro hle
    simp [Buffer.write, overwrite]
  cases r with
  | error e => simp [Buffer.readFd] at h
  | bytes d =>
    unfold Buffer.readFd at h
    dsimp only at h
    split_ifs at h with hle
    · simp only [Prod.mk.injEq, ReadResult.bytes.injEq] at h
      simp only [h.2, hwrite] at h
      exact h.1.symm
    · simp only [Prod.mk.injEq, ReadResult.bytes.injEq] at h
      simp [h.2] at hle

theorem peek_readFd_bytes {b buffer : Buffer} {r : ReadResult} {data : List UInt8}
    (h : b.readFd r = (buffer, .bytes data)) : buffer.peek = b.peek ++ data := by
  cases r with
  | error e => simp [Buffer.readFd] at h
  | bytes d =>
    have hlen : (d.take b.readvOffered).length ≤ b.readvOffered := by simp
    have hread : b.readFd (.bytes d) = b.readFd (.bytes (d.take b.readvOffered)) := by
      simp only [Buffer.readFd, List.take_take, min_self]
    have hpeek := Buffer.peek_readFd hlen
    have hdata : data = d.take b.readvOffered := by
      unfold Buffer.readFd at h
      dsimp only at h
      split_ifs at h <;> simp_all
    rw [← hread, h] at hpeek
    rw [hpeek, hdata]

/-- A dispatch that brings no data. -/
theorem Talks.dispatch_nil (h : Talks c ms isOpen) {revents : BitVec 32} {read : ReadResult}
    {write : WriteResult} (hev : LifeCycle.Allowed ⟨revents, read, write, [], []⟩)
    (hdata : Served.arrived c revents read = []) :
    Carries (c.handleEventWithGuard ⟨revents, read, write, [], []⟩) ms isOpen ∧
      (c.handleEventWithGuard ⟨revents, read, write, [], []⟩).inputBuffer = c.inputBuffer := by
  obtain ⟨c₁, hc₁, c₂, hc₂, heq⟩ := handleEventWithGuard_cases (c := c) hev
  have h₀ : Talks { c with channel := { c.channel with revents, eventHandling := true } } ms isOpen :=
    h.congr rfl rfl rfl rfl rfl rfl
  have h₁ : Carries c₁ ms isOpen ∧ c₁.inputBuffer = c.inputBuffer := by
    dsimp only at hc₁
    split_ifs at hc₁ with hread
    · simp only [Served.arrived, if_pos hread] at hdata
      subst hc₁
      unfold TcpConnection.handleRead
      split
      · rename_i buffer data hfd
        have hnil : data = [] := by simpa [hfd] using hdata
        subst hnil
        have hbuffer := readFd_bytes_nil hfd
        have hb : Talks { c with
            channel := { c.channel with revents, eventHandling := true }
            inputBuffer := buffer } ms isOpen := h.congr rfl rfl rfl rfl rfl rfl
        refine ⟨Or.inr hb.handleClose, ?_⟩
        simp only [List.length_nil, gt_iff_lt, lt_irrefl, if_false]
        rw [(keepsStream_handleClose _).inputBuffer]
        exact hbuffer
      · exact ⟨Or.inl h₀, rfl⟩
    · rcases hc₁ with rfl | rfl
      · exact ⟨Or.inr h₀.handleClose, by rw [(keepsStream_handleClose _).inputBuffer]⟩
      · exact ⟨Or.inl h₀, rfl⟩
  obtain ⟨hcarries, hin⟩ := h₁.1.finish hc₂
  rw [heq]
  exact ⟨hcarries, hin.trans h₁.2⟩

/-- **A dispatch that brings data** calls the callback once, on all that is in the input buffer. -/
theorem Talks.dispatch_data (h : Talks c ms isOpen) {revents : BitVec 32} {read : ReadResult}
    {write : WriteResult} {n : ℕ} {replies : List Reply} {ws : List WriteResult}
    (hev : LifeCycle.Allowed ⟨revents, read, write, [],
      .retrieve n :: Served.script replies ws⟩)
    (hdata : Served.arrived c revents read ≠ []) :
    let gs := (Served.atCallback c revents read).given (.retrieve n :: Served.script replies ws)
    let c' := c.handleEventWithGuard ⟨revents, read, write, [], .retrieve n :: Served.script replies ws⟩
    (c.inputBuffer.readFd read).1.peek =
        c.inputBuffer.peek ++ Served.arrived c revents read ∧
      Carries c' (ms ++ keptOf gs) (isOpen && .shutdown ∉ replies) ∧
      gs.map Given.message = (if isOpen then sentBy replies else []) ∧
      ((∀ w ∈ ws, w.isFault = false) → ∀ g ∈ gs, g.lost = false) ∧
      c'.inputBuffer = (c.inputBuffer.readFd read).1.retrieve n := by
  intro gs c'
  obtain ⟨c₁, hc₁, c₂, hc₂, heq⟩ := handleEventWithGuard_cases (c := c) hev
  have hread : hasEvent revents (POLLIN ||| POLLPRI ||| POLLRDHUP) = true := by
    by_contra hno
    exact hdata (by rw [Served.arrived, if_neg hno])
  simp only [Served.arrived, if_pos hread] at hdata ⊢
  dsimp only at hc₁
  rw [if_pos hread] at hc₁
  subst hc₁
  have hat : Talks ((Served.atCallback c revents read).call (.retrieve n)) ms isOpen :=
    Talks.congr (h.emit (e := .messageCallback) rfl) rfl rfl rfl rfl rfl rfl
  obtain ⟨hkept, hsends⟩ := hat.script replies ws
  cases hfd : c.inputBuffer.readFd read with
  | mk buffer result =>
    cases result with
    | error e => simp [hfd] at hdata
    | bytes data =>
      have hpos : data.length > 0 := List.length_pos_of_ne_nil (by simpa [hfd] using hdata)
      have hcalls : TcpConnection.handleRead { c with
          channel := { c.channel with revents, eventHandling := true } } read
          (.retrieve n :: Served.script replies ws) =
          ((Served.atCallback c revents read).call (.retrieve n)).calls
            (Served.script replies ws) := by
        simp only [TcpConnection.handleRead, hfd, if_pos hpos, Served.atCallback]
        rfl
      rw [hcalls] at hc₂
      obtain ⟨hcarries, hinput⟩ := Carries.finish (Or.inl hkept) hc₂
      refine ⟨by simpa using peek_readFd_bytes hfd, ?_, hsends.messages, hsends.calm, ?_⟩
      · show Carries (c.handleEventWithGuard _) _ _
        rw [heq]
        exact hcarries
      · show (c.handleEventWithGuard _).inputBuffer = _
        rw [heq]
        refine (hinput.trans hsends.inputBuffer).trans ?_
        show (c.inputBuffer.readFd read).1.retrieve n = buffer.retrieve n
        rw [hfd]

/-! ### The other steps -/

/-- A functor, taken out of the queue. -/
theorem Carries.functor (h : Carries c ms isOpen) {f : Functor} {loop : EventLoop Functor}
    (hq : c.loop.queued = f :: loop.queued) (w : WriteResult) :
    Carries ({ c with loop }.runFunctor f w []) ms isOpen ∧
      ({ c with loop }.runFunctor f w []).inputBuffer = c.inputBuffer := by
  have hmem : ∀ g ∈ loop.queued, g ∈ c.loop.queued := by
    intro g hg
    rw [hq]
    exact List.mem_cons_of_mem _ hg
  have hhead : f ∈ c.loop.queued := by simp [hq]
  rcases h with h | h
  · have h₀ : Talks { c with loop } ms isOpen :=
      ⟨h.state, h.synced, h.stream, h.shutdowns, fun g hg => h.queue g (hmem g hg), h.owner⟩
    have hf := h.queue f hhead
    cases f with
    | writeCompleteCallback => exact ⟨Or.inl (h₀.emit (e := .writeCompleteCallback) rfl), rfl⟩
    | highWatermarkCallback len =>
      exact ⟨Or.inl (h₀.emit (e := .highWatermarkCallback len) rfl), rfl⟩
    | _ => simp [Functor.isCallback] at hf
  · have h₀ : Silent { c with loop } ms isOpen :=
      ⟨h.state, h.quiet, h.stream, h.shutdowns, fun g hg => h.queue g (hmem g hg)⟩
    have hf := h.queue f hhead
    cases f with
    | writeCompleteCallback =>
      exact ⟨Or.inr (h₀.keep (keepsStream_emit _ (e := .writeCompleteCallback) rfl) rfl rfl), rfl⟩
    | highWatermarkCallback len =>
      exact ⟨Or.inr (h₀.keep (keepsStream_emit _ (e := .highWatermarkCallback len) rfl) rfl rfl), rfl⟩
    | connectDestroyed =>
      have hne : ({ c with loop } : TcpConnection).state ≠ .kConnected := by
        rw [h₀.state]; nofun
      have hk := keepsStream_removeChannel { c with loop }
      simp only [runFunctor, connectDestroyed, if_neg hne]
      obtain ⟨hst, hev⟩ := closed_removeChannel { c with loop }
      exact ⟨Or.inr (h₀.keep hk hst hev), hk.inputBuffer⟩
    | _ => simp [Functor.isCallback] at hf

theorem Carries.loop (h : Carries c ms isOpen) {loop : EventLoop Functor}
    (hq : loop.queued = c.loop.queued) : Carries { c with loop } ms isOpen :=
  h.imp (fun h => h.congr rfl rfl rfl rfl hq rfl)
    fun h => ⟨h.state, h.quiet, h.stream, h.shutdowns, by rw [hq]; exact h.queue⟩

theorem Carries.removeConnection (h : Carries c ms isOpen) (hr : c.owner.removePending = true) :
    Carries c.removeConnectionInLoop ms isOpen ∧
      c.removeConnectionInLoop.inputBuffer = c.inputBuffer := by
  have hk := keepsStream_removeConnectionInLoop c
  obtain ⟨hst, hch⟩ := closed_removeConnectionInLoop c
  rcases h with h | h
  · simp [h.owner] at hr
  · exact ⟨Or.inr (h.keep hk hst (by rw [hch])), hk.inputBuffer⟩

end TcpConnection

/-! ### Refinement -/

namespace Served

open MuduoCpp11.Lib TcpConnection

variable {σ : Type*} {h : MessageCallback σ} {s s' : Served σ} {v : Conversation σ}

/-- The connection carries the conversation `v`: its messages have been given to `SendInLoop`, and those
that were not lost are in the stream. -/
structure CarriesOut (s : Served σ) (v : Conversation σ) : Prop where
  conn : Carries s.conn (keptOf s.given) v.isOpen
  context : s.context = v.context
  pending : s.conn.inputBuffer.peek = v.pending
  given : s.given.map Given.message = v.sent

/-- A step in which nothing is heard. -/
theorem CarriesOut.keep (hc : CarriesOut s v) {conn : TcpConnection}
    (hconn : Carries conn (keptOf s.given) v.isOpen) (hin : conn.inputBuffer = s.conn.inputBuffer) :
    CarriesOut { s with conn } v :=
  ⟨hconn, hc.context, (congrArg Buffer.peek hin).trans hc.pending, hc.given⟩

/-- A step in which `d` is heard, and the callback answers with `r`. -/
structure Hears (h : MessageCallback σ) (s s' : Served σ) (v : Conversation σ) (d : Arrival)
    (r : Reaction σ) : Prop where
  heard : s'.heard = s.heard ++ [d]
  reaction : h v.context d.time (v.pending ++ d.data) = some r
  inputBuffer : ∃ read, (s.conn.inputBuffer.readFd read).1.peek = v.pending ++ d.data ∧
    s'.conn.inputBuffer = (s.conn.inputBuffer.readFd read).1.retrieve r.retrieved

/-- **A step** either hears nothing, or the callback is called on what has arrived, and the
conversation goes on. -/
theorem step_carriesOut (hc : CarriesOut s v) {a : Act} (hs : step h s a = some s') :
    s'.heard = s.heard ∧ s'.given = s.given ∧ s'.conn.inputBuffer = s.conn.inputBuffer ∧
        CarriesOut s' v ∨
      ∃ d r, Hears h s s' v d r ∧ CarriesOut s' (v.answer (v.pending ++ d.data) r) ∧
        ∃ gs, s'.given = s.given ++ gs ∧ (a.calm = true → ∀ g ∈ gs, g.lost = false) := by
  cases a with
  | dispatch revents time read write replies =>
    have htalks : ∀ ev c', LifeCycle.step s.conn (.dispatch ev) = some c' →
        Talks s.conn (keptOf s.given) v.isOpen ∧ LifeCycle.Allowed ev ∧
          c' = s.conn.handleEventWithGuard ev := by
      intro ev c' hstep
      simp only [LifeCycle.step] at hstep
      split_ifs at hstep with hg
      cases hstep
      exact ⟨hc.conn.resolve_right fun hsil => hg.2.1 hsil.quiet, hg.2.2, rfl⟩
    simp only [step] at hs
    split_ifs at hs with hdata
    · obtain ⟨c', hstep, rfl⟩ := Option.map_eq_some_iff.mp hs
      obtain ⟨ht, hallowed, rfl⟩ := htalks _ _ hstep
      obtain ⟨hcarries, hin⟩ := ht.dispatch_nil hallowed hdata
      exact Or.inl ⟨rfl, rfl, hin, hc.keep hcarries hin⟩
    · obtain ⟨r, hr, hs⟩ := Option.bind_eq_some_iff.mp hs
      obtain ⟨c', hstep, rfl⟩ := Option.map_eq_some_iff.mp hs
      obtain ⟨ht, hallowed, rfl⟩ := htalks _ _ hstep
      obtain ⟨hpeek, hcarries, hmessages, hcalm, hin⟩ := ht.dispatch_data hallowed hdata
      rw [hc.pending] at hpeek
      rw [hpeek, hc.context] at hr
      refine Or.inr ⟨⟨arrived s.conn revents read, time⟩, r, ⟨rfl, hr, read, hpeek, hin⟩, ?_, _, rfl,
        fun hall => hcalm (by simpa [Act.calm] using hall)⟩
      refine ⟨?_, rfl, ?_, ?_⟩
      · rw [keptOf_append]
        exact hcarries
      · rw [hin, Buffer.peek_retrieve, hpeek]
        rfl
      · rw [List.map_append, hc.given, hmessages]
        rfl
  | beginFunctors =>
    obtain ⟨c', hstep, rfl⟩ := Option.map_eq_some_iff.mp hs
    obtain ⟨loop, hloop, rfl⟩ := Option.map_eq_some_iff.mp hstep
    exact Or.inl ⟨rfl, rfl, rfl, hc.keep (hc.conn.loop (EventLoop.queued_beginFunctors hloop)) rfl⟩
  | functor w =>
    obtain ⟨c', hstep, rfl⟩ := Option.map_eq_some_iff.mp hs
    obtain ⟨⟨f, loop⟩, hnext, rfl⟩ := Option.map_eq_some_iff.mp hstep
    obtain ⟨hcarries, hin⟩ := hc.conn.functor (EventLoop.queued_nextFunctor hnext) w
    exact Or.inl ⟨rfl, rfl, hin, hc.keep hcarries hin⟩
  | endFunctors =>
    obtain ⟨c', hstep, rfl⟩ := Option.map_eq_some_iff.mp hs
    obtain ⟨loop, hloop, rfl⟩ := Option.map_eq_some_iff.mp hstep
    exact Or.inl ⟨rfl, rfl, rfl, hc.keep (hc.conn.loop (EventLoop.queued_endFunctors hloop)) rfl⟩
  | removeConnection =>
    obtain ⟨c', hstep, rfl⟩ := Option.map_eq_some_iff.mp hs
    simp only [LifeCycle.step] at hstep
    split_ifs at hstep with hr
    cases hstep
    obtain ⟨hcarries, hin⟩ := hc.conn.removeConnection hr
    exact Or.inl ⟨rfl, rfl, hin, hc.keep hcarries hin⟩

theorem carriesOut_start (fd : ℤ) (sameLoop : Bool) (context : σ) :
    CarriesOut (start fd sameLoop context) { context } := by
  have hout := outputInv_established fd (64 * 1024 * 1024) false false sameLoop
  refine ⟨Or.inl ⟨rfl, hout.synced, hout.stream, rfl, ?_, rfl⟩, rfl, rfl, rfl⟩
  intro f hf
  simp [start, established, new, connectEstablished, calls, update, TcpConnection.emit, setState,
    TcpConnection.assert, EventLoop.queued] at hf

/-- **The invariant of a run**: the conversation has heard what the read events have brought, and the
connection carries it out. -/
theorem run_carriesOut {fd : ℤ} {sameLoop : Bool} {context : σ} {acts : List Act}
    (hrun : run h (start fd sameLoop context) acts = some s) :
    ∃ v, Conversation.run h { context } s.heard = some v ∧ CarriesOut s v ∧
      (acts.all Act.calm = true → ∀ g ∈ s.given, g.lost = false) := by
  refine Run.run_inv_history (P := fun acts s => ∃ v,
    Conversation.run h { context } s.heard = some v ∧ CarriesOut s v ∧
      (acts.all Act.calm = true → ∀ g ∈ s.given, g.lost = false))
    ⟨{ context }, rfl, carriesOut_start fd sameLoop context, fun _ g hg => by cases hg⟩ ?_ hrun
  rintro acts m a m' hstep ⟨v, hheard, hc, hcalm⟩
  simp only [List.all_append, List.all_cons, List.all_nil, Bool.and_true, Bool.and_eq_true]
  rcases step_carriesOut hc hstep with ⟨heq, hgiven, -, hc'⟩ | ⟨d, r, hears, hc', gs, hgiven, hgs⟩
  · exact ⟨v, by rw [heq, hheard], hc', fun hall => hgiven ▸ hcalm hall.1⟩
  · refine ⟨_, ?_, hc', fun hall g hg => ?_⟩
    · rw [hears.heard]
      exact Run.run_concat.mpr ⟨v, hheard, by rw [Conversation.hear, hears.reaction, Option.map_some]⟩
    · rw [hgiven] at hg
      exact (List.mem_append.mp hg).elim (hcalm hall.1 g) (hgs hall.2 g)

/-- If no message is lost, all are kept. -/
theorem keptOf_of_forall {gs : List Given} (hgs : ∀ g ∈ gs, g.lost = false) :
    keptOf gs = gs.map Given.message := by
  have hfilter : gs.filter (fun g => !g.lost) = gs :=
    List.filter_eq_self.mpr fun g hg => by rw [hgs g hg]; rfl
  rw [keptOf, hfilter]

/-- **A served connection carries out the conversation.** In every run, the conversation with the bytes
that the read events have brought has a state `v`, and: the callback's own state and the contents of the
input buffer are those of `v`; the messages given to `SendInLoop` are those of `v`; the wire, followed by
the output buffer, is these messages in order, without those whose direct write has failed; the write side
has been shut down exactly if `v` has asked for it and the output buffer is empty, behind all of the
messages; and as long as the connection is not closed it is in `kDisconnecting` exactly behind a shutdown
of `v`. -/
theorem served_refines {fd : ℤ} {sameLoop : Bool} {context : σ} {acts : List Act}
    (hrun : run h (start fd sameLoop context) acts = some s) :
    ∃ v, Conversation.run h { context } s.heard = some v ∧ s.context = v.context ∧
      s.conn.inputBuffer.peek = v.pending ∧ s.given.map Given.message = v.sent ∧
      (acts.all Act.calm = true → ∀ g ∈ s.given, g.lost = false) ∧
      wire s.conn.log ++ s.conn.outputBuffer.peek = (keptOf s.given).flatten ∧
      shutdowns [] s.conn.log = (if v.isOpen = false ∧ s.conn.outputBuffer.peek = [] then
        [((keptOf s.given).flatten, [])] else []) ∧
      (s.conn.state ≠ .kDisconnected →
        s.conn.state = if v.isOpen then .kConnected else .kDisconnecting) := by
  obtain ⟨v, hheard, hc, hcalm⟩ := run_carriesOut hrun
  refine ⟨v, hheard, hc.context, hc.pending, hc.given, hcalm, hc.conn.stream, hc.conn.shutdowns,
    fun hopen => ?_⟩
  exact (hc.conn.resolve_right fun hsil => hopen hsil.state).state

/-- A callback that answers with what has arrived and shuts down; the kernel takes the answer in two
parts. -/
theorem served_refines_in_two : ∃ s : Served ℕ,
    run (fun n _ contents => some ⟨n + 1, contents.length, [.send contents, .shutdown]⟩)
      (start 5 true 0)
      [.dispatch POLLIN {} (.bytes [7, 8]) (.room 0) [.room 1],
        .dispatch POLLOUT {} (.bytes []) (.room 9) []] = some s ∧
    s.context = 1 ∧ wire s.conn.log ++ s.conn.outputBuffer.peek = [7, 8] ∧
    shutdowns [] s.conn.log = [([7, 8], [])] := by
  have hsome : (run (fun n _ contents => some ⟨n + 1, contents.length, [.send contents, .shutdown]⟩)
      (start 5 true 0)
      [.dispatch POLLIN {} (.bytes [7, 8]) (.room 0) [.room 1],
        .dispatch POLLOUT {} (.bytes []) (.room 9) []]).map
          (fun s => (s.heard, s.conn.outputBuffer.peek)) = some ([⟨[7, 8], {}⟩], []) := by
    decide +kernel
  obtain ⟨s, hs, hfacts⟩ := Option.map_eq_some_iff.mp hsome
  obtain ⟨hheard, hpeek⟩ := Prod.mk.inj hfacts
  obtain ⟨v, hv, hcontext, -, hgiven, hcalm, hstream, hshut, -⟩ := served_refines hs
  rw [hheard] at hv
  cases hv
  have hkept : keptOf s.given = [[7, 8]] := (keptOf_of_forall (hcalm (by decide))).trans hgiven
  rw [hkept] at hstream hshut
  exact ⟨s, hs, hcontext, hstream, by rw [hshut, hpeek]; rfl⟩

end Served

end MuduoCpp11.Net
