import MuduoCpp11.Net.TcpConnection.Phase

/-! # Every run of a connection follows its life cycle

The runs of one connection on its loop thread, with an owner that stays alive: events of its channel,
batches of functors, delayed closes, calls of the user's, and the owner's reaction to a close. The log
of every run is accepted by the automaton of `Phase`, and the phase says what `state_` is, that a
closed connection is watched for nothing, and where the one call of `ConnectDestroyed` is on its way
(`Inv`).

The invariant is followed through the handlers one effect at a time; a user callback in the middle of
a handler is a list of calls of which each keeps it. -/

namespace MuduoCpp11.Net.TcpConnection

open MuduoCpp11.Lib.Run

namespace LifeCycle

/-- The calls of `ConnectDestroyed` in the queue. -/
def destroysQueued (c : TcpConnection) : ℕ := c.loop.queued.count .connectDestroyed

/-- The owner holds the connection and nothing is on its way to destroy it. -/
def Owned (c : TcpConnection) : Prop :=
  c.owner.removePending = false ∧ c.owner.holds = true ∧ destroysQueued c = 0

/-- The owner holds the connection until it is told of the close, and sends `ConnectDestroyed` once. -/
def OwnerOk (c : TcpConnection) : Phase → Prop
  | .closed =>
    c.owner.removePending = true ∧ c.owner.holds = true ∧ destroysQueued c = 0 ∨
      c.owner.removePending = false ∧ c.owner.holds = false ∧ destroysQueued c = 1
  | .removed _ =>
    c.owner.removePending = false ∧ c.owner.holds = false ∧ destroysQueued c = 0
  | _ => Owned c

/-- **The invariant**: the log has been read up to the phase `p`, and the connection agrees. -/
structure Inv (c : TcpConnection) (p : Phase) : Prop where
  log : run Phase.next .connecting c.log = some p
  state : c.state = p.state
  quiet : p.isQuiet = true → c.channel.events = kNoneEvent
  owner : OwnerOk c p

variable {c c' : TcpConnection} {p p' : Phase}

theorem OwnerOk.congr (h : OwnerOk c p) (ho : c'.owner = c.owner)
    (hq : destroysQueued c' = destroysQueued c) : OwnerOk c' p := by
  cases p <;> simp only [OwnerOk, Owned, ho, hq] at h ⊢ <;> exact h

theorem Inv.congr (h : Inv c p) (hl : c'.log = c.log) (hs : c'.state = c.state)
    (he : c'.channel.events = c.channel.events) (ho : c'.owner = c.owner)
    (hq : destroysQueued c' = destroysQueued c) : Inv c' p :=
  ⟨hl ▸ h.log, hs ▸ h.state, he ▸ h.quiet, h.owner.congr ho hq⟩

theorem not_isQuiet_of_isOpen (h : p.isOpen = true) : p.isQuiet ≠ true := by
  cases p <;> simp_all [Phase.isOpen, Phase.isQuiet]

theorem run_emit {e : Effect} (h : run Phase.next .connecting c.log = some p)
    (hn : p.next e = some p') : run Phase.next .connecting (c.emit e).log = some p' :=
  run_concat.mpr ⟨p, h, hn⟩

/-! ### One effect -/

theorem Inv.emit (h : Inv c p) {e : Effect} (hs : p.Serves e) : Inv (c.emit e) p :=
  ⟨run_emit h.log (Phase.next_serves hs), h.state, h.quiet, h.owner⟩

theorem Inv.queueInLoop (h : Inv c p) {f : Functor} (hf : f ≠ .connectDestroyed) :
    Inv (c.queueInLoop f) p := by
  refine h.congr rfl rfl rfl rfl ?_
  simp [destroysQueued, TcpConnection.queueInLoop, List.count_append, hf]

theorem Inv.update (h : Inv c p) (hp : p.isOpen = true) (f : Channel → Channel) :
    Inv (c.update f) p :=
  ⟨run_emit h.log (Phase.next_serves (Or.inr hp)), h.state,
    fun hq => absurd hq (not_isQuiet_of_isOpen hp), h.owner⟩

theorem Inv.owned (h : Inv c p) (hp : p.isOpen = true) : Owned c := by
  have := h.owner
  cases p <;> first | exact this | simp [Phase.isOpen] at hp

theorem Inv.setDisconnecting (h : Inv c p) (hp : p.isOpen = true) :
    Inv (c.setState .kDisconnecting) .disconnecting :=
  ⟨run_emit (c := { c with state := .kDisconnecting }) h.log (if_pos hp), rfl, nofun, h.owned hp⟩

theorem Inv.setDisconnected (h : Inv c p) (hp : p.isOpen = true) :
    Inv (c.setState .kDisconnected) .closing :=
  ⟨run_emit (c := { c with state := .kDisconnected }) h.log (if_pos hp), rfl, nofun, h.owned hp⟩

theorem Inv.disableAll (h : Inv c .closing) : Inv (c.update Channel.disableAll) .disabled :=
  ⟨run_emit (c := { c with channel := c.channel.disableAll }) h.log rfl, h.state, fun _ => rfl,
    h.owner⟩

theorem Inv.reportDown (h : Inv c .disabled) : Inv (c.emit (.connectionCallback c.state)) .down :=
  ⟨run_emit h.log (by rw [h.state]; rfl), h.state, h.quiet, h.owner⟩

/-- The connection is in use or reported down: it may still be told to shut down. -/
theorem Inv.shutdownInLoop (h : Inv c p) (hp : p.isOpen = true ∨ p.isDown = true) :
    Inv c.shutdownInLoop p := by
  unfold TcpConnection.shutdownInLoop
  split_ifs
  · exact h.emit hp
  · exact h

/-! ### Output, while the connection is open -/

section isOpen

variable (hp : p.isOpen = true)
include hp

theorem Inv.writeDirectly (h : Inv c p) (data : List UInt8) (w : WriteResult) :
    Inv (c.writeDirectly data w).1 p := by
  cases w with
  | room n =>
    have hw : Inv (c.emit (.write (data.take (min n data.length)))) p := h.emit hp
    simp only [TcpConnection.writeDirectly]
    split_ifs
    · exact hw.queueInLoop nofun
    · exact hw
  | error e => exact h

theorem Inv.bufferRemaining (h : Inv c p) (remaining : List UInt8) :
    Inv (c.bufferRemaining remaining) p := by
  obtain ⟨c₁, hc₁, h₁⟩ : ∃ c₁ : TcpConnection, c.bufferRemaining remaining =
      (if !c₁.channel.isWriting then c₁.update Channel.enableWriting else c₁) ∧ Inv c₁ p := by
    refine ⟨_, rfl, ?_⟩
    split_ifs
    · exact Inv.congr (h.queueInLoop (f := .highWatermarkCallback _) nofun) rfl rfl rfl rfl rfl
    · exact h.congr rfl rfl rfl rfl rfl
  rw [hc₁]
  split_ifs
  · exact h₁.update hp _
  · exact h₁

theorem Inv.sendInLoop (h : Inv c p) (data : List UInt8) (w : WriteResult) :
    Inv (c.sendInLoop data w) p := by
  unfold TcpConnection.sendInLoop
  split_ifs with hst hd
  · exact h
  · dsimp only
    split_ifs
    · exact (h.writeDirectly hp data w).bufferRemaining hp _
    · exact h.writeDirectly hp data w
  · dsimp only
    split_ifs
    · exact h.bufferRemaining hp _
    · exact h

theorem Inv.drained (h : Inv c p) : Inv c.drained p := by
  have hu := h.update hp Channel.disableWriting
  obtain ⟨c₁, hc₁, h₁⟩ : ∃ c₁ : TcpConnection, c.drained =
      (if c₁.state = .kDisconnecting then c₁.shutdownInLoop else c₁) ∧ Inv c₁ p := by
    refine ⟨_, rfl, ?_⟩
    split_ifs
    · exact hu.queueInLoop nofun
    · exact hu
  rw [hc₁]
  split_ifs
  · exact h₁.shutdownInLoop (Or.inl hp)
  · exact h₁

theorem Inv.handleWrite (h : Inv c p) (w : WriteResult) : Inv (c.handleWrite w) p := by
  unfold TcpConnection.handleWrite
  split_ifs
  · cases w with
    | room n =>
      have hw : Inv (c.emit (.write (c.outputBuffer.peek.take
          (min n c.outputBuffer.readableBytes)))) p := h.emit hp
      have hr : Inv { c.emit (.write (c.outputBuffer.peek.take
          (min n c.outputBuffer.readableBytes))) with
            outputBuffer := c.outputBuffer.retrieve (min n c.outputBuffer.readableBytes) } p :=
        hw.congr rfl rfl rfl rfl rfl
      dsimp only
      split_ifs
      · exact hr.drained hp
      · exact hr
      · exact hw
    | error e => exact h
  · exact h

/-- A call of the user's keeps the connection open. -/
theorem Inv.call (h : Inv c p) (u : UserCall) : ∃ p', p'.isOpen = true ∧ Inv (c.call u) p' := by
  cases u with
  | send m w =>
    refine ⟨p, hp, ?_⟩
    simp only [TcpConnection.call, TcpConnection.send]
    split_ifs
    · exact h.sendInLoop hp m w
    · exact h
  | shutdown =>
    simp only [TcpConnection.call, TcpConnection.shutdown]
    split_ifs
    · exact ⟨.disconnecting, rfl, (h.setDisconnecting hp).shutdownInLoop (Or.inl rfl)⟩
    · exact ⟨p, hp, h⟩
  | forceClose =>
    simp only [TcpConnection.call, TcpConnection.forceClose]
    split_ifs
    · exact ⟨.disconnecting, rfl, (h.setDisconnecting hp).queueInLoop nofun⟩
    · exact ⟨p, hp, h⟩
  | forceCloseWithDelay =>
    simp only [TcpConnection.call, TcpConnection.forceCloseWithDelay]
    split_ifs
    · exact ⟨.disconnecting, rfl, (h.setDisconnecting hp).congr rfl rfl rfl rfl rfl⟩
    · exact ⟨p, hp, h⟩
  | retrieve len => exact ⟨p, hp, h.congr rfl rfl rfl rfl rfl⟩

end isOpen

theorem Inv.calls : ∀ {c : TcpConnection} {p : Phase} (script : List UserCall), Inv c p →
    p.isOpen = true → ∃ p', p'.isOpen = true ∧ Inv (c.calls script) p'
  | c, p, [], h, hp => ⟨p, hp, h⟩
  | c, p, u :: script, h, hp => by
    obtain ⟨p', hp', h'⟩ := h.call hp u
    exact h'.calls script hp'

/-! ### A connection that is disconnected -/

/-- A call of the user's does nothing but take from the input buffer. -/
theorem call_of_disconnected (h : c.state = .kDisconnected) (u : UserCall) :
    c.call u = c ∨ ∃ b, c.call u = { c with inputBuffer := b } := by
  cases u with
  | retrieve len => exact Or.inr ⟨_, rfl⟩
  | send m w => exact Or.inl (by simp [TcpConnection.call, send, h])
  | shutdown => exact Or.inl (by simp [TcpConnection.call, shutdown, h])
  | forceClose => exact Or.inl (by simp [TcpConnection.call, forceClose, h])
  | forceCloseWithDelay => exact Or.inl (by simp [TcpConnection.call, forceCloseWithDelay, h])

theorem Inv.calls_disconnected : ∀ {c : TcpConnection} (script : List UserCall), Inv c p →
    p.state = .kDisconnected → Inv (c.calls script) p
  | c, [], h, _ => h
  | c, u :: script, h, hp => by
    have h' : Inv (c.call u) p := by
      rcases call_of_disconnected (h.state.trans hp) u with hb | ⟨b, hb⟩ <;> rw [hb]
      · exact h
      · exact h.congr rfl rfl rfl rfl rfl
    exact h'.calls_disconnected script hp

theorem not_isWriting_of_isQuiet (h : Inv c p) (hp : p.isQuiet = true) :
    c.channel.isWriting = false := by
  simp [Channel.isWriting, hasEvent, h.quiet hp, kNoneEvent]

theorem handleWrite_of_isQuiet (h : Inv c p) (hp : p.isQuiet = true) (w : WriteResult) :
    c.handleWrite w = c := by
  simp [TcpConnection.handleWrite, not_isWriting_of_isQuiet h hp]

/-! ### Closing -/

/-- The owner removes the connection: `ConnectDestroyed` is on its way. -/
theorem inv_removeConnectionInLoop (hl : run Phase.next .connecting c.log = some .closed)
    (hst : c.state = .kDisconnected) (he : c.channel.events = kNoneEvent)
    (hh : c.owner.holds = true) (hq : destroysQueued c = 0) :
    Inv c.removeConnectionInLoop .closed := by
  have hassert : c.assert .removeConnectionInLoop c.owner.holds = c := by
    rw [TcpConnection.assert, if_pos hh]
  unfold TcpConnection.removeConnectionInLoop
  rw [hassert]
  refine ⟨hl, hst, fun _ => he, Or.inr ⟨rfl, rfl, ?_⟩⟩
  unfold destroysQueued at hq ⊢
  simp [List.count_append, hq]

/-- The owner is told. -/
theorem Inv.closeCallback (h : Inv c .down) : Inv c.closeCallback .closed := by
  obtain ⟨hr, hh, hq⟩ : Owned c := h.owner
  have hl : run Phase.next .connecting (c.emit .closeCallback).log = some .closed :=
    run_emit h.log rfl
  unfold TcpConnection.closeCallback
  dsimp only
  split_ifs
  · exact inv_removeConnectionInLoop hl h.state (h.quiet rfl) hh hq
  · exact ⟨hl, h.state, h.quiet, Or.inl ⟨rfl, hh, hq⟩⟩

/-- `kDisconnected` is stored, the channel is disabled, the user is told. -/
theorem Inv.takeDown (h : Inv c p) (hp : p.isOpen = true) (script : List UserCall) :
    Inv ((((c.setState .kDisconnected).update Channel.disableAll).emit
      (.connectionCallback ((c.setState .kDisconnected).update Channel.disableAll).state)).calls
        script) .down :=
  (h.setDisconnected hp).disableAll.reportDown.calls_disconnected script rfl

/-- **`HandleClose` closes an open connection**, and its assertion holds. -/
theorem Inv.handleClose (h : Inv c p) (hp : p.isOpen = true) (script : List UserCall) :
    Inv (c.handleClose script) .closed := by
  have hassert : c.assert .handleClose
      (decide (c.state = .kConnected ∨ c.state = .kDisconnecting)) = c := by
    rw [TcpConnection.assert, if_pos (by rw [h.state]; simpa using Phase.state_of_isOpen hp)]
  unfold TcpConnection.handleClose
  rw [hassert]
  exact (h.takeDown hp script).closeCallback

theorem Inv.handleRead (h : Inv c p) (hp : p.isOpen = true) (r : ReadResult)
    (script : List UserCall) :
    ∃ p', (p'.isOpen = true ∨ p' = .closed) ∧ Inv (c.handleRead r script) p' := by
  unfold TcpConnection.handleRead
  split
  · rename_i buffer data _
    have hb : Inv { c with inputBuffer := buffer } p := h.congr rfl rfl rfl rfl rfl
    dsimp only
    split_ifs
    · obtain ⟨p', hp', h'⟩ := (hb.emit (e := .messageCallback) hp).calls script hp
      exact ⟨p', Or.inl hp', h'⟩
    · exact ⟨.closed, Or.inr rfl, hb.handleClose hp script⟩
  · exact ⟨p, Or.inl hp, h⟩

theorem hasEvent_or (e m m' : BitVec 32) : hasEvent e (m ||| m') = (hasEvent e m || hasEvent e m') := by
  simp [hasEvent, BitVec.and_or_distrib_left, BitVec.or_eq_zero_iff]

/-- The events of a dispatch: a hang-up without input does not come together with urgent data or
with the end of the peer's output. -/
def Allowed (ev : Event) : Prop :=
  hasEvent ev.revents POLLHUP = true → hasEvent ev.revents POLLIN = false →
    hasEvent ev.revents POLLPRI = false ∧ hasEvent ev.revents POLLRDHUP = false

instance (ev : Event) : Decidable (Allowed ev) := by unfold Allowed; infer_instance

/-- The write callback, behind the others. -/
theorem Inv.writeCallback (h : Inv c p) (hp : p.isOpen = true ∨ p = .closed) (b : Bool)
    (w : WriteResult) : Inv (if b then c.handleWrite w else c) p := by
  split_ifs
  · rcases hp with hp | rfl
    · exact h.handleWrite hp w
    · rw [handleWrite_of_isQuiet h rfl]
      exact h
  · exact h

/-- **A dispatch** leaves an open connection open or closed. -/
theorem Inv.handleEventWithGuard (h : Inv c p) (hp : p.isOpen = true) {ev : Event}
    (hev : Allowed ev) :
    ∃ p', (p'.isOpen = true ∨ p' = .closed) ∧ Inv (c.handleEventWithGuard ev) p' := by
  have h₀ : Inv { c with channel := { c.channel with revents := ev.revents, eventHandling := true } } p :=
    h.congr rfl rfl rfl rfl rfl
  obtain ⟨c₁, p₁, hp₁, h₁, heq⟩ : ∃ c₁ p₁, (p₁.isOpen = true ∨ p₁ = .closed) ∧ Inv c₁ p₁ ∧
      c.handleEventWithGuard ev =
        { (if hasEvent ev.revents POLLOUT then c₁.handleWrite ev.write else c₁) with
          channel := { (if hasEvent ev.revents POLLOUT then c₁.handleWrite ev.write else c₁).channel with
            eventHandling := false } } := by
    unfold TcpConnection.handleEventWithGuard
    dsimp only
    by_cases hhup : hasEvent ev.revents POLLHUP = true ∧ (!hasEvent ev.revents POLLIN) = true
    · -- the hang-up closes, and the read callback is not called
      have hin : hasEvent ev.revents POLLIN = false := by simpa using hhup.2
      obtain ⟨hpri, hrdhup⟩ := hev hhup.1 hin
      have hread : hasEvent ev.revents (POLLIN ||| POLLPRI ||| POLLRDHUP) = false := by
        simp [hasEvent_or, hin, hpri, hrdhup]
      simp only [hhup, and_self, if_true, hread, Bool.false_eq_true, if_false]
      exact ⟨_, .closed, Or.inr rfl, h₀.handleClose hp ev.onClose, rfl⟩
    · rw [if_neg hhup]
      by_cases hread : hasEvent ev.revents (POLLIN ||| POLLPRI ||| POLLRDHUP) = true
      · obtain ⟨p', hp', h'⟩ := h₀.handleRead hp ev.read ev.onRead
        rw [if_pos hread]
        exact ⟨_, p', hp', h', rfl⟩
      · rw [if_neg hread]
        exact ⟨_, p, Or.inl hp, h₀, rfl⟩
  refine ⟨p₁, hp₁, ?_⟩
  rw [heq]
  exact (h₁.writeCallback hp₁ _ ev.write).congr rfl rfl rfl rfl rfl

/-! ### Runs -/

/-- What happens to the connection on its loop thread. -/
inductive Act where
  /-- The poller reports events of the channel. -/
  | dispatch (ev : Event)
  | beginFunctors
  /-- The next functor; `script` is what the user's callback does, if the functor calls one. -/
  | functor (w : WriteResult) (script : List UserCall)
  | endFunctors
  /-- A delayed close is due. -/
  | timer
  /-- A functor or a timer of the user's. -/
  | user (script : List UserCall)
  /-- `RemoveConnectionInLoop` runs in the owner's loop. -/
  | removeConnection

/-- One step. The poller reports events only of a channel that is interested in some. -/
def step (c : TcpConnection) : Act → Option TcpConnection
  | .dispatch ev =>
    if c.loop.callingPendingFunctors = false ∧ c.channel.events ≠ kNoneEvent ∧ Allowed ev then
      some (c.handleEventWithGuard ev)
    else none
  | .beginFunctors => c.loop.beginFunctors.map fun loop => { c with loop }
  | .functor w script => c.loop.nextFunctor.map fun (f, loop) => { c with loop }.runFunctor f w script
  | .endFunctors => c.loop.endFunctors.map fun loop => { c with loop }
  | .timer => if 0 < c.delayed then some c.fireDelayed else none
  | .user script => some (c.calls script)
  | .removeConnection => if c.owner.removePending then some c.removeConnectionInLoop else none

/-- Between two steps a connection is open, closed or removed. -/
def Rest (p : Phase) : Prop := p.isOpen = true ∨ p = .closed ∨ ∃ told, p = .removed told

theorem Rest.of_open_or_closed (h : p.isOpen = true ∨ p = .closed) : Rest p :=
  h.imp_right Or.inl

/-- The phases of a connection that is no longer open. -/
theorem Rest.down (h : Rest p) (hp : p.isOpen = false) :
    p.isDown = true ∧ p.isQuiet = true ∧ p.state = .kDisconnected := by
  rcases h with h | rfl | ⟨told, rfl⟩
  · simp [hp] at h
  · exact ⟨rfl, rfl, rfl⟩
  · exact ⟨rfl, rfl, rfl⟩

theorem removeChannel_eq (he : c.channel.events = kNoneEvent) :
    c.removeChannel = { c with channel := c.channel.remove }.emit .removeChannel := by
  have hassert : c.assert .remove c.channel.isNoneEvent = c := by
    rw [TcpConnection.assert, if_pos (by simpa [Channel.isNoneEvent] using he)]
  rw [TcpConnection.removeChannel, hassert]

theorem Inv.of_queued_eq (h : Inv c p) {loop : EventLoop Functor}
    (hq : loop.queued = c.loop.queued) : Inv { c with loop } p :=
  h.congr rfl rfl rfl rfl (by simp [destroysQueued, hq])

/-- A functor other than `ConnectDestroyed`, on an open connection. -/
theorem Inv.runFunctor_isOpen (h : Inv c p) (hp : p.isOpen = true) {f : Functor}
    (hf : f ≠ .connectDestroyed) (w : WriteResult) (script : List UserCall) :
    ∃ p', (p'.isOpen = true ∨ p' = .closed) ∧ Inv (c.runFunctor f w script) p' := by
  cases f with
  | sendInLoop m => exact ⟨p, Or.inl hp, h.sendInLoop hp m w⟩
  | shutdownInLoop => exact ⟨p, Or.inl hp, h.shutdownInLoop (Or.inl hp)⟩
  | forceCloseInLoop =>
    simp only [TcpConnection.runFunctor, TcpConnection.forceCloseInLoop]
    split_ifs
    · exact ⟨.closed, Or.inr rfl, h.handleClose hp script⟩
    · exact ⟨p, Or.inl hp, h⟩
  | connectDestroyed => exact absurd rfl hf
  | writeCompleteCallback =>
    obtain ⟨p', hp', h'⟩ := (h.emit (e := .writeCompleteCallback) (Or.inl hp)).calls script hp
    exact ⟨p', Or.inl hp', h'⟩
  | highWatermarkCallback len =>
    obtain ⟨p', hp', h'⟩ := (h.emit (e := .highWatermarkCallback len) (Or.inl hp)).calls script hp
    exact ⟨p', Or.inl hp', h'⟩

/-- On a connection that is down it leaves the phase. -/
theorem Inv.runFunctor_isDown (h : Inv c p) (hp : p.isDown = true) (hst : p.state = .kDisconnected)
    {f : Functor} (hf : f ≠ .connectDestroyed) (w : WriteResult) (script : List UserCall) :
    Inv (c.runFunctor f w script) p := by
  have hcst : c.state = .kDisconnected := h.state.trans hst
  cases f with
  | sendInLoop m =>
    rw [TcpConnection.runFunctor, TcpConnection.sendInLoop, if_pos hcst]
    exact h
  | shutdownInLoop => exact h.shutdownInLoop (Or.inr hp)
  | forceCloseInLoop =>
    rw [TcpConnection.runFunctor, TcpConnection.forceCloseInLoop, if_neg (by simp [hcst])]
    exact h
  | connectDestroyed => exact absurd rfl hf
  | writeCompleteCallback =>
    exact (h.emit (e := .writeCompleteCallback) (Or.inr hp)).calls_disconnected script hst
  | highWatermarkCallback len =>
    exact (h.emit (e := .highWatermarkCallback len) (Or.inr hp)).calls_disconnected script hst

/-- `ConnectDestroyed` finds the connection closed, and removes its channel. -/
theorem Inv.runFunctor_connectDestroyed (h : Inv c p) (hp : Rest p) {loop : EventLoop Functor}
    (hq : c.loop.queued = .connectDestroyed :: loop.queued) (w : WriteResult)
    (script : List UserCall) :
    p = .closed ∧ Inv ({ c with loop }.runFunctor .connectDestroyed w script) (.removed true) := by
  have hpos : destroysQueued c = loop.queued.count .connectDestroyed + 1 := by
    simp [destroysQueued, hq]
  have howner := h.owner
  rcases hp with hp | rfl | ⟨told, rfl⟩
  · have := (h.owned hp).2.2
    omega
  · obtain ⟨-, -, h0⟩ | ⟨hr, hh, h1⟩ := howner
    · omega
    · refine ⟨rfl, ?_⟩
      have hcst : ({ c with loop } : TcpConnection).state ≠ .kConnected := by
        rw [show ({ c with loop } : TcpConnection).state = _ from h.state]; nofun
      simp only [TcpConnection.runFunctor, TcpConnection.connectDestroyed, if_neg hcst]
      rw [removeChannel_eq (c := { c with loop }) (h.quiet rfl)]
      refine ⟨run_emit (c := { c with loop, channel := c.channel.remove }) h.log rfl, h.state,
        fun _ => h.quiet rfl, hr, hh, ?_⟩
      change loop.queued.count .connectDestroyed = 0
      omega
  · have := howner.2.2
    omega

/-- **A step keeps the invariant**; a removed connection stays removed. -/
theorem step_inv {a : Act} (h : Inv c p) (hp : Rest p) (hs : step c a = some c') :
    ∃ p', Rest p' ∧ Inv c' p' ∧ (p.isOpen = false → p ≠ .closed → p' = p) := by
  have hkeep : Inv c' p → ∃ p', Rest p' ∧ Inv c' p' ∧ (p.isOpen = false → p ≠ .closed → p' = p) :=
    fun h' => ⟨p, hp, h', fun _ _ => rfl⟩
  have hopen : p.isOpen = true → (∃ p', (p'.isOpen = true ∨ p' = .closed) ∧ Inv c' p') →
      ∃ p', Rest p' ∧ Inv c' p' ∧ (p.isOpen = false → p ≠ .closed → p' = p) := by
    rintro ho ⟨p', hp', h'⟩
    exact ⟨p', .of_open_or_closed hp', h', fun hf => by simp [ho] at hf⟩
  cases a with
  | dispatch ev =>
    simp only [step] at hs
    split_ifs at hs with hg
    cases hs
    have ho : p.isOpen = true := by
      by_contra hno
      exact hg.2.1 (h.quiet (hp.down (by simpa using hno)).2.1)
    exact hopen ho (h.handleEventWithGuard ho hg.2.2)
  | beginFunctors =>
    obtain ⟨loop, hloop, rfl⟩ := Option.map_eq_some_iff.mp hs
    exact hkeep (h.of_queued_eq (EventLoop.queued_beginFunctors hloop))
  | functor w script =>
    obtain ⟨⟨f, loop⟩, hnext, rfl⟩ := Option.map_eq_some_iff.mp hs
    have hq := EventLoop.queued_nextFunctor hnext
    by_cases hf : f = .connectDestroyed
    · subst hf
      obtain ⟨rfl, h'⟩ := h.runFunctor_connectDestroyed hp hq w script
      exact ⟨_, Or.inr (Or.inr ⟨true, rfl⟩), h', fun _ hne => absurd rfl hne⟩
    · have h₀ : Inv { c with loop } p :=
        h.congr rfl rfl rfl rfl (by simp [destroysQueued, hq, hf])
      by_cases ho : p.isOpen = true
      · exact hopen ho (h₀.runFunctor_isOpen ho hf w script)
      · obtain ⟨hd, -, hst⟩ := hp.down (by simpa using ho)
        exact hkeep (h₀.runFunctor_isDown hd hst hf w script)
  | endFunctors =>
    obtain ⟨loop, hloop, rfl⟩ := Option.map_eq_some_iff.mp hs
    exact hkeep (h.of_queued_eq (EventLoop.queued_endFunctors hloop))
  | timer =>
    simp only [step] at hs
    split_ifs at hs
    cases hs
    have h₀ : Inv { c with delayed := c.delayed - 1 } p := h.congr rfl rfl rfl rfl rfl
    by_cases ho : p.isOpen = true
    · obtain ⟨p', hp', h'⟩ := h₀.call ho .forceClose
      exact hopen ho ⟨p', Or.inl hp', h'⟩
    · obtain ⟨-, -, hst⟩ := hp.down (by simpa using ho)
      exact hkeep (h₀.calls_disconnected [.forceClose] hst)
  | user script =>
    cases hs
    by_cases ho : p.isOpen = true
    · obtain ⟨p', hp', h'⟩ := h.calls script ho
      exact hopen ho ⟨p', Or.inl hp', h'⟩
    · obtain ⟨-, -, hst⟩ := hp.down (by simpa using ho)
      exact hkeep (h.calls_disconnected script hst)
  | removeConnection =>
    simp only [step] at hs
    split_ifs at hs with hr
    cases hs
    have howner := h.owner
    rcases hp with ho | rfl | ⟨told, rfl⟩
    · simp [(h.owned ho).1] at hr
    · obtain ⟨-, hh, hq⟩ | ⟨hr', -, -⟩ := howner
      · exact hkeep (inv_removeConnectionInLoop h.log h.state (h.quiet rfl) hh hq)
      · simp [hr'] at hr
    · simp [howner.1] at hr

/-- **Every run keeps the invariant.** -/
theorem run_inv_rest {acts : List Act} (h : Inv c p) (hp : Rest p) (hr : run step c acts = some c') :
    ∃ p', Rest p' ∧ Inv c' p' ∧ (p.isOpen = false → p ≠ .closed → p' = p) := by
  refine run_inv (P := fun d => ∃ p', Rest p' ∧ Inv d p' ∧ (p.isOpen = false → p ≠ .closed → p' = p))
    ?_ hr ⟨p, hp, h, fun _ _ => rfl⟩
  rintro d a d' hd ⟨p₁, hp₁, h₁, hkeep₁⟩
  obtain ⟨p₂, hp₂, h₂, hkeep₂⟩ := step_inv h₁ hp₁ hd
  refine ⟨p₂, hp₂, h₂, fun ho hne => ?_⟩
  have he := hkeep₁ ho hne
  exact (hkeep₂ (he ▸ ho) (he ▸ hne)).trans he

/-- `ConnectEstablished` opens the connection. -/
theorem inv_connectEstablished (fd : ℤ) (highWatermark : ℕ)
    (writeComplete highWater sameLoop : Bool) (script : List UserCall) :
    ∃ p, p.isOpen = true ∧ Inv ((new fd highWatermark writeComplete highWater
      sameLoop).connectEstablished script) p := by
  have hup : Inv ((new fd highWatermark writeComplete highWater sameLoop).connectEstablished [])
      .up :=
    ⟨rfl, rfl, nofun, rfl, rfl, rfl⟩
  exact hup.calls script rfl

/-- **The life cycle of a connection.** In every run: `state_` only moves forward; the connection is
reported up exactly once, down at most once and only behind that, and the owner is told at most once;
no assertion fails; and once `kDisconnected` has been stored the channel has no events and never gets
any again. -/
theorem life_cycle {fd : ℤ} {highWatermark : ℕ} {writeComplete highWater sameLoop : Bool}
    {script : List UserCall} {acts : List Act} {c : TcpConnection}
    (h : run step ((new fd highWatermark writeComplete highWater sameLoop).connectEstablished script)
      acts = some c) :
    List.IsChain (fun s t => Phase.forward s t = true)
      (.kConnecting :: c.log.filterMap Phase.stored) ∧
    (.kConnecting :: c.log.filterMap Phase.stored).getLast (by simp) = c.state ∧
    c.log.count (.connectionCallback .kConnected) = 1 ∧
    c.log.count (.connectionCallback .kDisconnected) ≤ 1 ∧
    (∀ pre post, c.log = pre ++ .connectionCallback .kDisconnected :: post →
      .connectionCallback .kConnected ∈ pre) ∧
    c.log.count .closeCallback ≤ 1 ∧
    (∀ a, .assertFailed a ∉ c.log) ∧
    (c.state = .kDisconnected → c.channel.events = kNoneEvent) ∧
    ∀ pre post, c.log = pre ++ .setState .kDisconnected :: post →
      ∀ events, .updateChannel events ∈ post → events = kNoneEvent := by
  obtain ⟨p₀, hp₀, h₀⟩ :=
    inv_connectEstablished fd highWatermark writeComplete highWater sameLoop script
  obtain ⟨p, hp, hinv, -⟩ := run_inv_rest h₀ (Or.inl hp₀) h
  have hups := Phase.run_count Phase.next_ups hinv.log
  have hdowns := Phase.run_count Phase.next_downs hinv.log
  have hcloses := Phase.run_count Phase.next_closes hinv.log
  refine ⟨Phase.run_states hinv.log, (Phase.run_getLast hinv.log).trans hinv.state.symm, ?_, ?_, ?_,
    ?_, Phase.not_assertFailed hinv.log, ?_, ?_⟩
  · have : p.ups = 1 := by
      rcases hp with hp | rfl | ⟨told, rfl⟩
      · cases p <;> first | rfl | simp [Phase.isOpen] at hp
      · rfl
      · rfl
    simp only [Phase.ups] at hups this
    omega
  · have : p.downs ≤ 1 := by unfold Phase.downs; split_ifs <;> omega
    omega
  · intro pre post he
    exact Phase.up_mem_of_down post (he ▸ hinv.log)
  · have : p.closes ≤ 1 := by unfold Phase.closes; split <;> omega
    omega
  · intro hst
    by_cases ho : p.isOpen = true
    · have hs := Phase.state_of_isOpen ho
      rw [← hinv.state, hst] at hs
      simp at hs
    · exact hinv.quiet (hp.down (by simpa using ho)).2.1
  · intro pre post he
    obtain ⟨m, -, hrest⟩ := run_append_eq_some.mp (he ▸ hinv.log)
    obtain ⟨m', hm', hpost⟩ := Option.bind_eq_some_iff.mp hrest
    have hst : m'.state = .kDisconnected := (Phase.next_state hm').2
    exact Phase.updateChannel_of_disconnected hpost hst

/-- A connection that sends, receives, is closed by force and destroyed. -/
theorem life_cycle_forceClose : ∃ c,
    run step ((new 5 64 true true true).connectEstablished [.send [1] (.room 1)])
      [.dispatch ⟨POLLIN, .bytes [2, 3], .room 0, [], [.retrieve 2, .forceClose, .shutdown]⟩,
        .beginFunctors, .functor (.room 0) [], .functor (.room 0) [.forceClose], .endFunctors,
        .beginFunctors, .functor (.room 0) [], .endFunctors] = some c ∧
    c.state = .kDisconnected ∧ c.log.count (.connectionCallback .kConnected) = 1 ∧
    c.log.count (.connectionCallback .kDisconnected) ≤ 1 ∧ c.log.count .closeCallback ≤ 1 := by
  have hrun : (run step ((new 5 64 true true true).connectEstablished [.send [1] (.room 1)])
      [.dispatch ⟨POLLIN, .bytes [2, 3], .room 0, [], [.retrieve 2, .forceClose, .shutdown]⟩,
        .beginFunctors, .functor (.room 0) [], .functor (.room 0) [.forceClose], .endFunctors,
        .beginFunctors, .functor (.room 0) [], .endFunctors]).map (fun c => c.state) =
      some .kDisconnected := by decide +kernel
  obtain ⟨c, hc, hst⟩ := Option.map_eq_some_iff.mp hrun
  obtain ⟨-, -, hup, hdown, -, hclose, -⟩ := life_cycle hc
  exact ⟨c, hc, hst, hup, hdown, hclose⟩

end LifeCycle

end MuduoCpp11.Net.TcpConnection
