import MuduoCpp11.Net.Connector.Ownership
import MuduoCpp11.Net.TcpConnection

/-! # Dispatching the active channels

One iteration of `Loop` with any number of connections and connectors on it. `Poll` reports channels that
are registered, each once; `Loop` goes through this list and calls the handlers, then through the
functors. A handler may call whatever the loop thread can call on any other object, and other threads may
call what they can at any time, but a channel is removed in two ways only: by a functor
(`ConnectDestroyed`, `StopInLoop`), and then no event is being handled, or by the handler of a connector,
and then it is the channel whose handler runs.

The functors of all objects are in one queue. Here each object has its own, and in the time for functors
these are called in any order: more runs than there are. -/

namespace MuduoCpp11.Net

open MuduoCpp11.Lib

/-! ### A connection keeps its channel -/

namespace TcpConnection

/-- Nothing has been removed on the way from `c` to `c'`. -/
structure Keeps (c c' : TcpConnection) : Prop where
  log : ∃ new, c'.log = c.log ++ new ∧ .removeChannel ∉ new
  added : c.channel.addedToLoop = true → c'.channel.addedToLoop = true

variable {c₀ c c' : TcpConnection}

theorem Keeps.drop_log (h : Keeps c₀ c) : .removeChannel ∉ c.log.drop c₀.log.length := by
  obtain ⟨new, hnew, hne⟩ := h.log
  simpa [hnew] using hne

theorem Keeps.refl (c : TcpConnection) : Keeps c c := ⟨⟨[], by simp, by simp⟩, id⟩

/-- Other fields change. -/
theorem Keeps.congr (h : Keeps c₀ c) (hlog : c'.log = c.log)
    (hadded : c'.channel.addedToLoop = c.channel.addedToLoop) : Keeps c₀ c' :=
  ⟨hlog ▸ h.log, fun h₀ => hadded ▸ h.added h₀⟩

/-- The log grows by another entry than that of a removal. -/
theorem Keeps.push (h : Keeps c₀ c) {e : Effect} (he : e ≠ .removeChannel)
    (hlog : c'.log = c.log ++ [e])
    (hadded : c.channel.addedToLoop = true → c'.channel.addedToLoop = true) : Keeps c₀ c' := by
  obtain ⟨new, hnew, hne⟩ := h.log
  refine ⟨⟨new ++ [e], ?_, ?_⟩, fun h₀ => hadded (h.added h₀)⟩
  · rw [hlog, hnew, List.append_assoc]
  · simpa [hne] using he.symm

theorem Keeps.emit (h : Keeps c₀ c) (e : Effect) (he : e ≠ .removeChannel) : Keeps c₀ (c.emit e) :=
  h.push he rfl id

theorem Keeps.queueInLoop (h : Keeps c₀ c) (f : Functor) : Keeps c₀ (c.queueInLoop f) :=
  h.congr rfl rfl

theorem Keeps.setState (h : Keeps c₀ c) (st : StateE) : Keeps c₀ (c.setState st) :=
  h.push (e := .setState st) nofun rfl id

theorem Keeps.update (h : Keeps c₀ c) (f : Channel → Channel)
    (hf : (f c.channel).addedToLoop = true) : Keeps c₀ (c.update f) :=
  h.push (e := .updateChannel (f c.channel).events) nofun rfl fun _ => hf

theorem Keeps.ite {p : Prop} [Decidable p] (h : Keeps c₀ c) (h' : Keeps c₀ c') :
    Keeps c₀ (if p then c else c') := by
  split_ifs
  · exact h
  · exact h'

theorem Keeps.assert (h : Keeps c₀ c) (a : Assertion) (p : Bool) : Keeps c₀ (c.assert a p) := by
  unfold TcpConnection.assert
  split_ifs
  · exact h
  · exact h.emit _ nofun

theorem Keeps.writeDirectly (h : Keeps c₀ c) (data : List UInt8) (w : WriteResult) :
    Keeps c₀ (c.writeDirectly data w).1 := by
  cases w with
  | room n =>
    have hw := h.emit (.write (data.take (min n data.length))) nofun
    exact .ite (hw.queueInLoop _) hw
  | error e => exact h

theorem Keeps.bufferRemaining (h : Keeps c₀ c) (remaining : List UInt8) :
    Keeps c₀ (c.bufferRemaining remaining) := by
  have hmark := Keeps.ite (p := c.outputBuffer.readableBytes + remaining.length ≥ c.highWatermark ∧
    c.outputBuffer.readableBytes < c.highWatermark ∧ c.hasHighWatermarkCallback)
    (h.queueInLoop (.highWatermarkCallback (c.outputBuffer.readableBytes + remaining.length))) h
  refine .ite (.update ?_ Channel.enableWriting rfl) ?_
  · exact hmark.congr rfl rfl
  · exact hmark.congr rfl rfl

theorem Keeps.sendInLoop (h : Keeps c₀ c) (data : List UInt8) (w : WriteResult) :
    Keeps c₀ (c.sendInLoop data w) := by
  unfold TcpConnection.sendInLoop
  split_ifs with hst hd
  · exact h
  · dsimp only
    split_ifs
    · exact (h.writeDirectly data w).bufferRemaining _
    · exact h.writeDirectly data w
  · dsimp only
    split_ifs
    · exact h.bufferRemaining _
    · exact h

theorem Keeps.shutdownInLoop (h : Keeps c₀ c) : Keeps c₀ c.shutdownInLoop := by
  unfold TcpConnection.shutdownInLoop
  split_ifs
  · exact h.emit _ nofun
  · exact h

theorem Keeps.drained (h : Keeps c₀ c) : Keeps c₀ c.drained := by
  have hu : Keeps c₀ (c.update Channel.disableWriting) := h.update _ rfl
  simp only [TcpConnection.drained]
  split_ifs
  · exact (hu.queueInLoop _).shutdownInLoop
  · exact hu.queueInLoop _
  · exact hu.shutdownInLoop
  · exact hu

theorem Keeps.handleWrite (h : Keeps c₀ c) (w : WriteResult) : Keeps c₀ (c.handleWrite w) := by
  unfold TcpConnection.handleWrite
  split_ifs
  · cases w with
    | room n =>
      have hw : Keeps c₀ (c.emit (.write (c.outputBuffer.peek.take
          (min n c.outputBuffer.readableBytes)))) := h.emit _ nofun
      dsimp only
      split_ifs
      · exact Keeps.drained (hw.congr rfl rfl)
      · exact hw.congr rfl rfl
      · exact hw
    | error e => exact h
  · exact h

theorem Keeps.call (h : Keeps c₀ c) (u : UserCall) : Keeps c₀ (c.call u) := by
  cases u with
  | send m w =>
    simp only [TcpConnection.call, TcpConnection.send]
    split_ifs
    · exact h.sendInLoop m w
    · exact h
  | shutdown =>
    simp only [TcpConnection.call, TcpConnection.shutdown]
    split_ifs
    · exact (h.setState _).shutdownInLoop
    · exact h
  | forceClose =>
    simp only [TcpConnection.call, TcpConnection.forceClose]
    split_ifs
    · exact (h.setState _).queueInLoop _
    · exact h
  | forceCloseWithDelay =>
    simp only [TcpConnection.call, TcpConnection.forceCloseWithDelay]
    split_ifs
    · exact (h.setState .kDisconnecting).congr rfl rfl
    · exact h
  | retrieve len => exact h.congr rfl rfl

theorem Keeps.calls : ∀ {c : TcpConnection} (script : List UserCall), Keeps c₀ c →
    Keeps c₀ (c.calls script)
  | _, [], h => h
  | _, u :: script, h => (h.call u).calls script

theorem Keeps.connectEstablished (h : Keeps c₀ c) (script : List UserCall) :
    Keeps c₀ (c.connectEstablished script) := by
  have hs := (h.assert .connectEstablished (c.state = .kConnecting)).setState .kConnected
  refine Keeps.calls script (.emit (.update ?_ Channel.enableReading rfl) _ nofun)
  exact hs.congr rfl rfl

theorem Keeps.removeConnectionInLoop (h : Keeps c₀ c) : Keeps c₀ c.removeConnectionInLoop :=
  (h.assert .removeConnectionInLoop c.owner.holds).congr rfl rfl

theorem Keeps.closeCallback (h : Keeps c₀ c) : Keeps c₀ c.closeCallback := by
  have he : Keeps c₀ (c.emit .closeCallback) := h.emit _ nofun
  simp only [TcpConnection.closeCallback]
  split_ifs
  · exact he.removeConnectionInLoop
  · exact he.congr rfl rfl

theorem Keeps.handleClose (h : Keeps c₀ c) (script : List UserCall) :
    Keeps c₀ (c.handleClose script) := by
  have ha := h.assert .handleClose (c.state = .kConnected ∨ c.state = .kDisconnecting)
  have hd := (ha.setState .kDisconnected).update Channel.disableAll rfl
  exact ((hd.emit (.connectionCallback _) nofun).calls script).closeCallback

theorem Keeps.handleRead (h : Keeps c₀ c) (r : ReadResult) (script : List UserCall) :
    Keeps c₀ (c.handleRead r script) := by
  unfold TcpConnection.handleRead
  split
  · rename_i buffer data _
    have hb : Keeps c₀ { c with inputBuffer := buffer } := h.congr rfl rfl
    dsimp only
    split_ifs
    · exact (hb.emit .messageCallback nofun).calls script
    · exact hb.handleClose script
  · exact h

/-- **A connection does not remove its channel in a handler.** -/
theorem Keeps.handleEventWithGuard (h : Keeps c₀ c) (ev : Event) :
    Keeps c₀ (c.handleEventWithGuard ev) := by
  have h₀ : Keeps c₀ { c with
      channel := { c.channel with revents := ev.revents, eventHandling := true } } := h.congr rfl rfl
  have h₁ := Keeps.ite (p := hasEvent ev.revents POLLHUP ∧ !hasEvent ev.revents POLLIN)
    (h₀.handleClose ev.onClose) h₀
  have h₂ := Keeps.ite (p := hasEvent ev.revents (POLLIN ||| POLLPRI ||| POLLRDHUP))
    (h₁.handleRead ev.read ev.onRead) h₁
  have h₃ := Keeps.ite (p := hasEvent ev.revents POLLOUT) (h₂.handleWrite ev.write) h₂
  exact h₃.congr rfl rfl

end TcpConnection

/-! ### The loop -/

/-- Channels: one for each connection, one for each socket of a connector, and those of timers, acceptors
and the wakeup descriptor, which are not removed. -/
inductive ChannelId where
  | connection (i : ℕ)
  | connector (i : ℕ) (sockfd : ℤ)
  | other (i : ℕ)
  deriving DecidableEq, Repr

/-- A call of `RemoveChannel`, with what the loop was doing. -/
structure Removal where
  channel : ChannelId
  eventHandling : Bool
  current : Option ChannelId
  active : List ChannelId
  deriving DecidableEq, Repr

/-- An entry of `active_channels_` when `Loop` reaches it: whether its channel is registered, and the
channels removed so far in this iteration. -/
structure Reached where
  channel : ChannelId
  registered : Bool
  removed : List ChannelId
  deriving DecidableEq, Repr

/-- The objects of a loop and what `Loop` does. `upcoming` are the entries of `active_channels_` ahead of
the iterator. -/
structure Dispatcher (F : Type*) where
  connections : List TcpConnection := []
  connectors : List (Connector F) := []
  activeChannels : List ChannelId := []
  upcoming : List ChannelId := []
  currentActiveChannel : Option ChannelId := none
  eventHandling : Bool := false
  callingPendingFunctors : Bool := false
  removed : List ChannelId := []
  removals : List Removal := []
  reached : List Reached := []

namespace Dispatcher

variable {F : Type*}

def new : Dispatcher F := {}

section
variable (s : Dispatcher F)

/-- The channel is in the poller. -/
def registered : ChannelId → Bool
  | .connection i => s.connections[i]?.any fun c => c.channel.addedToLoop
  | .connector i sockfd => s.connectors[i]?.any fun c => c.channelFd = some sockfd
  | .other _ => true

/-- `EventLoop::RemoveChannel` is called for these channels. -/
def removeChannels (channels : List ChannelId) : Dispatcher F :=
  { s with
    removed := s.removed ++ channels
    removals := s.removals ++ channels.map fun channel =>
      ⟨channel, s.eventHandling, s.currentActiveChannel, s.activeChannels⟩ }

/-- The channels that a connection has removed: the entries of its log behind `old`. -/
def removedByConnection (i : ℕ) (old : ℕ) (c : TcpConnection) : List ChannelId :=
  (c.log.drop old).filterMap fun e => if e = .removeChannel then some (.connection i) else none

def removedByConnector (i : ℕ) (old : ℕ) (c : Connector F) : List ChannelId :=
  (c.log.drop old).filterMap fun
    | .removeChannel sockfd => some (.connector i sockfd)
    | _ => none

/-- Connection `i` goes on to `f c`. -/
def onConnection (i : ℕ) (f : TcpConnection → Option TcpConnection) : Option (Dispatcher F) :=
  s.connections[i]?.bind fun c => (f c).map fun c' =>
    { s with connections := s.connections.set i c' }.removeChannels
      (removedByConnection i c.log.length c')

/-- Connector `i` takes a step; the run ends if an assertion of `StartInLoop` or `Connecting` fails. -/
def onConnector (i : ℕ) (a : Connector.Act F) : Option (Dispatcher F) :=
  s.connectors[i]?.bind fun c => (c.step a).bind fun c' =>
    if ∀ e ∈ c'.log, e.Holds then
      some ({ s with connectors := s.connectors.set i c' }.removeChannels
        (removedByConnector i c.log.length c'))
    else none

/-- The loop thread is not inside of a function of a connector. -/
def idle : Bool := s.connectors.all fun c => c.todo.isEmpty

end

/-- What happens to a connection: on the loop thread but for `queue`, which is what the functions that
other threads may call come to. -/
inductive ConnectionAct where
  | connectEstablished (script : List UserCall)
  | handleEvent (ev : TcpConnection.Event)
  | beginFunctors
  | functor (w : WriteResult) (script : List UserCall)
  | endFunctors
  | timer
  | user (script : List UserCall)
  | removeConnectionInLoop
  | queue (st : StateE) (f : Functor)

inductive Act (F : Type*) where
  | newConnection (c : TcpConnection)
  | newConnector
  | poll (activeChannels : List ChannelId)
  | next
  | endEvents
  | endFunctors
  | connection (i : ℕ) (a : ConnectionAct)
  | connector (i : ℕ) (a : Connector.Act F)

/-- When the loop thread may take a step of connection `i`: handlers are called for the current channel,
functors in their time. -/
def allowsConnection (s : Dispatcher F) (i : ℕ) : ConnectionAct → Bool
  | .handleEvent _ => s.eventHandling && s.currentActiveChannel = some (.connection i) && s.idle
  | .beginFunctors | .functor _ _ | .endFunctors => s.callingPendingFunctors && s.idle
  | .connectEstablished _ | .timer | .user _ | .removeConnectionInLoop => s.idle
  | .queue _ _ => true

def connectionStep (c : TcpConnection) : ConnectionAct → Option TcpConnection
  | .connectEstablished script => some (c.connectEstablished script)
  | .handleEvent ev => some (c.handleEventWithGuard ev)
  | .beginFunctors => c.loop.beginFunctors.map fun loop => { c with loop }
  | .functor w script =>
    c.loop.nextFunctor.map fun r => { c with loop := r.2 }.runFunctor r.1 w script
  | .endFunctors => c.loop.endFunctors.map fun loop => { c with loop }
  | .timer => if 0 < c.delayed then some c.fireDelayed else none
  | .user script => some (c.calls script)
  | .removeConnectionInLoop => some c.removeConnectionInLoop
  | .queue st f => some ((c.setState st).queueInLoop f)

def allowsConnector (s : Dispatcher F) (i : ℕ) : Connector.Act F → Bool
  | .dispatch _ => s.eventHandling && s.idle &&
    (s.currentActiveChannel.any fun
      | .connector j _ => i = j
      | _ => false)
  | .beginFunctors | .functor | .endFunctors => s.callingPendingFunctors && s.idle
  | .start | .stop | .restart | .timer _ => s.idle
  | .exec _ | .startCall | .stopCall | .queue _ | .queueOther _ _ => true

def step (s : Dispatcher F) : Act F → Option (Dispatcher F)
  | .newConnection c =>
    if c.log = [] then some { s with connections := s.connections ++ [c] } else none
  | .newConnector => some { s with connectors := s.connectors ++ [.new] }
  | .poll activeChannels =>
    if s.eventHandling = false ∧ s.callingPendingFunctors = false ∧ s.idle ∧ activeChannels.Nodup ∧
        ∀ ch ∈ activeChannels, s.registered ch then
      some { s with
        activeChannels
        upcoming := activeChannels
        eventHandling := true
        removed := [] }
    else none
  | .next =>
    if s.eventHandling ∧ s.idle then
      match s.upcoming with
      | [] => none
      | ch :: upcoming => some { s with
          upcoming
          currentActiveChannel := some ch
          reached := s.reached ++ [⟨ch, s.registered ch, s.removed⟩] }
    else none
  | .endEvents =>
    if s.eventHandling ∧ s.idle ∧ s.upcoming = [] then
      some { s with
        currentActiveChannel := none
        eventHandling := false
        callingPendingFunctors := true }
    else none
  | .endFunctors =>
    if s.callingPendingFunctors ∧ s.idle then some { s with callingPendingFunctors := false } else none
  | .connection i a =>
    if s.allowsConnection i a then s.onConnection i (connectionStep · a) else none
  | .connector i a => if s.allowsConnector i a then s.onConnector i a else none

def run : Dispatcher F → List (Act F) → Option (Dispatcher F) := Run.run step

/-! ### What holds in an iteration -/

/-- Channels that are removed while events are handled are behind the iterator, and those ahead of it are
registered. A handler of a connector is ahead of the loop thread only for the current channel, which is
the one the connector has. -/
structure Inv (s : Dispatcher F) : Prop where
  nodup : s.upcoming.Nodup
  quiet : s.eventHandling = false → s.upcoming = [] ∧ s.currentActiveChannel = none
  phases : s.callingPendingFunctors = true → s.eventHandling = false
  current : ∀ ch, s.currentActiveChannel = some ch → ch ∉ s.upcoming
  removed : s.eventHandling = true → ∀ ch ∈ s.removed, ch ∉ s.upcoming
  upcoming : ∀ ch ∈ s.upcoming, s.registered ch = true
  own : ∀ i sockfd, s.currentActiveChannel = some (.connector i sockfd) →
    ∃ c ch, s.connectors[i]? = some c ∧ c.channel = some ch ∧ ch.fd = sockfd
  handler : ∀ i c, s.connectors[i]? = some c → (.handleError ∈ c.todo ∨ .handleWrite ∈ c.todo) →
    ∃ sockfd, s.currentActiveChannel = some (.connector i sockfd)
  removals : ∀ r ∈ s.removals, r.eventHandling = false ∨ r.current = some r.channel
  reached : ∀ r ∈ s.reached, r.channel ∉ r.removed ∧ r.registered = true

theorem Inv.new : Inv (Dispatcher.new : Dispatcher F) where
  nodup := List.nodup_nil
  quiet := fun _ => ⟨rfl, rfl⟩
  phases := nofun
  current := nofun
  removed := nofun
  upcoming := nofun
  own := nofun
  handler := by simp [Dispatcher.new]
  removals := nofun
  reached := nofun

section
variable {s s' : Dispatcher F}

theorem Inv.removeChannels (h : Inv s) {channels : List ChannelId}
    (hch : ∀ ch ∈ channels, s.eventHandling = false ∨ s.currentActiveChannel = some ch) :
    Inv (s.removeChannels channels) := by
  refine ⟨h.nodup, h.quiet, h.phases, h.current, fun hev ch hmem => ?_, h.upcoming, h.own, h.handler,
    fun r hr => ?_, h.reached⟩
  · rcases List.mem_append.mp hmem with hmem | hmem
    · exact h.removed hev ch hmem
    · rcases hch ch hmem with hoff | hcurrent
      · exact Bool.noConfusion (hoff.symm.trans hev)
      · exact h.current ch hcurrent
  · rcases List.mem_append.mp hr with hr | hr
    · exact h.removals r hr
    · obtain ⟨ch, hmem, rfl⟩ := List.mem_map.mp hr
      exact hch ch hmem

theorem Inv.setConnections (h : Inv s) {connections : List TcpConnection}
    (hreg : ∀ i, .connection i ∈ s.upcoming → s.registered (.connection i) = true →
      { s with connections := connections }.registered (.connection i) = true) :
    Inv { s with connections := connections } := by
  refine ⟨h.nodup, h.quiet, h.phases, h.current, h.removed, fun ch hmem => ?_, h.own, h.handler,
    h.removals, h.reached⟩
  cases ch with
  | connection i => exact hreg i hmem (h.upcoming _ hmem)
  | connector i sockfd => exact h.upcoming _ hmem
  | other i => rfl

theorem removedByConnection_eq_nil {i : ℕ} {c c' : TcpConnection} (h : TcpConnection.Keeps c c') :
    removedByConnection i c.log.length c' = [] := by
  refine List.filterMap_eq_nil_iff.mpr fun e he => if_neg ?_
  rintro rfl
  exact h.drop_log he

/-- **Outside of its functors a connection keeps its channel.** -/
theorem connectionStep_keeps {c c' : TcpConnection} {a : ConnectionAct}
    (hs : connectionStep c a = some c') (hf : ∀ w script, a ≠ .functor w script) :
    TcpConnection.Keeps c c' := by
  have h := TcpConnection.Keeps.refl c
  cases a with
  | connectEstablished script =>
    cases hs
    exact h.connectEstablished script
  | handleEvent ev =>
    cases hs
    exact h.handleEventWithGuard ev
  | beginFunctors | endFunctors =>
    obtain ⟨loop, -, rfl⟩ := Option.map_eq_some_iff.mp hs
    exact h.congr rfl rfl
  | functor w script => exact absurd rfl (hf w script)
  | timer =>
    simp only [connectionStep] at hs
    split_ifs at hs
    cases hs
    exact TcpConnection.Keeps.call (c := { c with delayed := c.delayed - 1 }) (h.congr rfl rfl)
      .forceClose
  | user script =>
    cases hs
    exact h.calls script
  | removeConnectionInLoop =>
    cases hs
    exact h.removeConnectionInLoop
  | queue st f =>
    cases hs
    exact (h.setState st).queueInLoop f

theorem Inv.connection (h : Inv s) {i : ℕ} {a : ConnectionAct} (ha : s.allowsConnection i a = true)
    (hs : s.onConnection i (connectionStep · a) = some s') : Inv s' := by
  obtain ⟨c, hc, hs⟩ := Option.bind_eq_some_iff.mp hs
  obtain ⟨c', hc', rfl⟩ := Option.map_eq_some_iff.mp hs
  by_cases hf : ∃ w script, a = .functor w script
  · obtain ⟨w, script, rfl⟩ := hf
    have hoff : s.eventHandling = false := by
      simp only [allowsConnection, Bool.and_eq_true] at ha
      exact h.phases ha.1
    refine Inv.removeChannels (h.setConnections fun j hmem => ?_) fun _ _ => Or.inl hoff
    rw [(h.quiet hoff).1] at hmem
    cases hmem
  · have hkeeps := connectionStep_keeps hc' fun w script ha => hf ⟨w, script, ha⟩
    rw [removedByConnection_eq_nil hkeeps]
    refine Inv.removeChannels (h.setConnections fun j hmem hreg => ?_) nofun
    simp only [registered] at hreg ⊢
    by_cases hij : i = j
    · subst hij
      have hi : i < s.connections.length := (List.getElem?_eq_some_iff.mp hc).1
      rw [hc, Option.any_some] at hreg
      simpa [List.getElem?_set_self hi] using hkeeps.added hreg
    · rw [List.getElem?_set_ne hij]
      exact hreg

theorem channel_of_channelFd {c : Connector F} {sockfd : ℤ} (h : c.channelFd = some sockfd) :
    ∃ ch, c.channel = some ch ∧ ch.fd = sockfd := by
  obtain ⟨ch, hch, hfd⟩ := Option.map_eq_some_iff.mp h
  exact ⟨ch, (Option.filter_eq_some_iff.mp hch).1, hfd⟩

theorem todo_of_idle (h : s.idle = true) {i : ℕ} {c : Connector F} (hc : s.connectors[i]? = some c) :
    c.todo = [] := by
  have hall := List.all_eq_true.mp h c (List.mem_of_getElem? hc)
  simpa using hall

/-- What a connector removes while events are handled is the current channel. -/
theorem Inv.removedByConnector (h : Inv s) {i : ℕ} {a : Connector.Act F} {c c' : Connector F}
    (ha : s.allowsConnector i a = true) (hc : s.connectors[i]? = some c) (hs : c.step a = some c') :
    ∀ ch ∈ removedByConnector i c.log.length c',
      s.eventHandling = false ∨ s.currentActiveChannel = some ch := by
  intro ch hmem
  obtain ⟨new, hlog, hcaused⟩ := Connector.step_log hs
  obtain ⟨e, he, hch⟩ := List.mem_filterMap.mp hmem
  rw [hlog, List.drop_left] at he
  cases hcaused e he with
  | removed htodo hstmt hchannel =>
    obtain rfl : ChannelId.connector i _ = ch := Option.some.inj hch
    have hahead : .handleError ∈ c.todo ∨ .handleWrite ∈ c.todo := by
      rcases hstmt with rfl | rfl
      · exact Or.inl (by simp [htodo])
      · exact Or.inr (by simp [htodo])
    obtain ⟨sockfd, hcurrent⟩ := h.handler i c hc hahead
    obtain ⟨c'', ch'', hc'', hch'', rfl⟩ := h.own i sockfd hcurrent
    obtain rfl : c = c'' := Option.some.inj (hc.symm.trans hc'')
    rw [Option.some.inj (hchannel.symm.trans hch'')]
    exact Or.inr hcurrent
  | stopped =>
    simp only [allowsConnector, Bool.and_eq_true] at ha
    exact Or.inl (h.phases ha.1)
  | _ => cases hch

/-- While events are handled, a connector has the channel it had. -/
theorem Inv.channel (h : Inv s) {i : ℕ} {a : Connector.Act F} {c c' : Connector F} {ch : Channel}
    (ha : s.allowsConnector i a = true) (hev : s.eventHandling = true) (hs : c.step a = some c')
    (hlog : ∀ e ∈ c'.log, e.Holds) (hch : c.channel = some ch) :
    ∃ ch', c'.channel = some ch' ∧ ch'.fd = ch.fd ∧
      ((∀ stmt ∈ c.todo, stmt ≠ .handleError ∧ stmt ≠ .handleWrite) → ch' = ch) := by
  refine Connector.step_channel hs ?_ hch fun hmem => by cases hlog _ hmem
  rintro rfl
  simp only [allowsConnector, Bool.and_eq_true] at ha
  exact Bool.noConfusion ((h.phases ha.1).symm.trans hev)

/-- No handler of a connector runs while the entry of its channel is ahead. -/
theorem Inv.idle_of_upcoming (h : Inv s) {i : ℕ} {c : Connector F} {ch : Channel}
    (hc : s.connectors[i]? = some c) (hch : c.channel = some ch)
    (hmem : .connector i ch.fd ∈ s.upcoming) :
    ∀ stmt ∈ c.todo, stmt ≠ .handleError ∧ stmt ≠ .handleWrite := by
  refine fun stmt hstmt => not_or.mp fun hor => ?_
  have hahead : .handleError ∈ c.todo ∨ .handleWrite ∈ c.todo := by
    rcases hor with rfl | rfl
    · exact Or.inl hstmt
    · exact Or.inr hstmt
  obtain ⟨sockfd, hcur⟩ := h.handler i c hc hahead
  obtain ⟨d, ch', hd, hch', rfl⟩ := h.own i sockfd hcur
  obtain rfl : c = d := Option.some.inj (hc.symm.trans hd)
  rw [← Option.some.inj (hch.symm.trans hch')] at hcur
  exact h.current _ hcur hmem

theorem Inv.connector (h : Inv s) {i : ℕ} {a : Connector.Act F} (ha : s.allowsConnector i a = true)
    (hs : s.onConnector i a = some s') : Inv s' := by
  obtain ⟨c, hc, hs⟩ := Option.bind_eq_some_iff.mp hs
  obtain ⟨c', hc', hs⟩ := Option.bind_eq_some_iff.mp hs
  split_ifs at hs with hlog
  cases hs
  have hi : i < s.connectors.length := (List.getElem?_eq_some_iff.mp hc).1
  have hself : (s.connectors.set i c')[i]? = some c' := List.getElem?_set_self hi
  have hev {ch : ChannelId} (hch : ch ∈ s.upcoming ∨ s.currentActiveChannel = some ch) :
      s.eventHandling = true := by
    by_contra hoff
    obtain ⟨hup, hcur⟩ := h.quiet (by simpa using hoff)
    simp [hup, hcur] at hch
  have hset : Inv { s with connectors := s.connectors.set i c' } := by
    refine ⟨h.nodup, h.quiet, h.phases, h.current, h.removed, fun ch hmem => ?_, fun j sockfd hcur => ?_,
      fun j d hd hahead => ?_, h.removals, h.reached⟩
    · -- an entry ahead: no handler of its connector runs, so the channel is as it was
      have hreg := h.upcoming ch hmem
      cases ch with
      | connection j => exact hreg
      | other j => rfl
      | connector j sockfd =>
        simp only [registered] at hreg ⊢
        by_cases hij : i = j
        · subst hij
          rw [hc, Option.any_some, decide_eq_true_eq] at hreg
          rw [hself, Option.any_some, decide_eq_true_eq, ← hreg]
          obtain ⟨ch, hch, hfd⟩ := channel_of_channelFd hreg
          obtain ⟨ch', hch', -, hkeep⟩ := h.channel ha (hev (Or.inl hmem)) hc' hlog hch
          have hidle := h.idle_of_upcoming hc hch (hfd ▸ hmem)
          simp [Connector.channelFd, hch, hch', hkeep hidle]
        · rw [List.getElem?_set_ne hij]
          exact hreg
    · obtain ⟨d, ch, hd, hch, rfl⟩ := h.own j sockfd hcur
      by_cases hij : i = j
      · subst hij
        obtain rfl : c = d := Option.some.inj (hc.symm.trans hd)
        obtain ⟨ch', hch', hfd, -⟩ := h.channel ha (hev (Or.inr hcur)) hc' hlog hch
        exact ⟨c', ch', hself, hch', hfd⟩
      · exact ⟨d, ch, by simpa [List.getElem?_set_ne hij] using hd, hch, rfl⟩
    · by_cases hij : i = j
      · subst hij
        obtain rfl : c' = d := Option.some.inj (hself.symm.trans hd)
        have hpushed : (.handleError ∈ c.todo ∨ .handleWrite ∈ c.todo) ∨
            ∃ revents, a = .dispatch revents := by
          rcases hahead with hmem | hmem
          · exact (Connector.step_todo hc' hmem).imp_left Or.inl
          · exact (Connector.step_todo hc' hmem).imp_left Or.inr
        rcases hpushed with hahead | ⟨revents, rfl⟩
        · exact h.handler i c hc hahead
        · simp only [allowsConnector, Bool.and_eq_true] at ha
          obtain ⟨ch, hcur, hown⟩ := (Option.any_eq_true _ _).mp ha.2
          cases ch with
          | connection j | other j => cases hown
          | connector j sockfd =>
            obtain rfl : i = j := by simpa using hown
            exact ⟨sockfd, hcur⟩
      · exact h.handler j d (by simpa [List.getElem?_set_ne hij] using hd) hahead
  exact hset.removeChannels (h.removedByConnector ha hc hc')

/-- A new connector has no channel yet, and nothing ahead. -/
theorem Inv.newConnector (h : Inv s) : Inv { s with connectors := s.connectors ++ [.new] } := by
  have hold {i : ℕ} {c : Connector F} (hc : s.connectors[i]? = some c) :
      (s.connectors ++ [.new])[i]? = some c := by
    rw [List.getElem?_append_left (List.getElem?_eq_some_iff.mp hc).1, hc]
  refine ⟨h.nodup, h.quiet, h.phases, h.current, h.removed, fun ch hmem => ?_, fun i sockfd hcur => ?_,
    fun i c hc hahead => ?_, h.removals, h.reached⟩
  · have hreg := h.upcoming ch hmem
    cases ch with
    | connection i => exact hreg
    | other i => rfl
    | connector i sockfd =>
      simp only [registered] at hreg ⊢
      obtain ⟨c, hc, hfd⟩ := (Option.any_eq_true _ _).mp hreg
      rw [hold hc]
      exact hfd
  · obtain ⟨c, ch, hc, hch⟩ := h.own i sockfd hcur
    exact ⟨c, ch, hold hc, hch⟩
  · by_cases hi : i < s.connectors.length
    · rw [List.getElem?_append_left hi] at hc
      exact h.handler i c hc hahead
    · rw [List.getElem?_append_right (by omega)] at hc
      obtain rfl : c = .new := List.mem_singleton.mp (List.mem_of_getElem? hc)
      simp [Connector.new] at hahead

/-- The channels that `Poll` reports are registered, and the loop is at none of them yet. -/
theorem Inv.poll (h : Inv s) {activeChannels : List ChannelId}
    (hs : s.step (.poll activeChannels) = some s') : Inv s' := by
  simp only [Dispatcher.step] at hs
  split_ifs at hs with hp
  cases hs
  obtain ⟨hoff, hcalling, hidle, hnodup, hreg⟩ := hp
  have hcur := (h.quiet hoff).2
  refine ⟨hnodup, by simp, fun hc => ?_, fun ch hch => ?_, by simp, hreg, fun i sockfd hch => ?_,
    fun i c hc hahead => ?_, h.removals, h.reached⟩
  · exact Bool.noConfusion (hcalling.symm.trans hc)
  · cases hcur.symm.trans hch
  · cases hcur.symm.trans hch
  · simp [todo_of_idle hidle hc] at hahead

/-- The loop goes on to the next entry, which has not been removed. -/
theorem Inv.next (h : Inv s) (hs : s.step .next = some s') : Inv s' := by
  simp only [Dispatcher.step] at hs
  split_ifs at hs with hn
  split at hs
  · cases hs
  · rename_i ch rest hup
    cases hs
    have hnodup := h.nodup
    rw [hup, List.nodup_cons] at hnodup
    have hmem : ch ∈ s.upcoming := by simp [hup]
    have hreg := h.upcoming ch hmem
    have hrest : ∀ x ∈ rest, x ∈ s.upcoming := fun x hx => by simp [hup, hx]
    refine ⟨hnodup.2, fun hoff => ?_, h.phases, fun x hx => ?_, fun hev x hx hmem => ?_,
      fun x hx => h.upcoming x (hrest x hx), fun i sockfd hcur => ?_, fun i c hc hahead => ?_,
      h.removals, fun r hr => ?_⟩
    · exact Bool.noConfusion (hoff.symm.trans hn.1)
    · exact Option.some.inj hx ▸ hnodup.1
    · exact h.removed hev x hx (hrest x hmem)
    · rw [Option.some.inj hcur, registered] at hreg
      obtain ⟨c, hc, hfd⟩ := (Option.any_eq_true _ _).mp hreg
      obtain ⟨ch', hch', hfd'⟩ := channel_of_channelFd (by simpa using hfd)
      exact ⟨c, ch', hc, hch', hfd'⟩
    · simp [todo_of_idle hn.2 hc] at hahead
    · rcases List.mem_append.mp hr with hr | hr
      · exact h.reached r hr
      · rw [List.mem_singleton.mp hr]
        exact ⟨fun hremoved => h.removed hn.1 ch hremoved hmem, hreg⟩

theorem Inv.step (h : Inv s) {a : Act F} (hs : s.step a = some s') : Inv s' := by
  cases a with
  | newConnection c =>
    simp only [Dispatcher.step] at hs
    split_ifs at hs
    cases hs
    refine h.setConnections fun i _ hreg => ?_
    simp only [registered] at hreg ⊢
    obtain ⟨d, hd, hadded⟩ := (Option.any_eq_true _ _).mp hreg
    rw [List.getElem?_append_left (List.getElem?_eq_some_iff.mp hd).1, hd]
    exact hadded
  | newConnector =>
    cases hs
    exact h.newConnector
  | poll activeChannels => exact h.poll hs
  | next => exact h.next hs
  | endEvents =>
    simp only [Dispatcher.step] at hs
    split_ifs at hs with he
    cases hs
    refine ⟨h.nodup, fun _ => ⟨he.2.2, rfl⟩, fun _ => rfl, by simp, by simp, h.upcoming, by simp,
      fun i c hc hahead => ?_, h.removals, h.reached⟩
    simp [todo_of_idle he.2.1 hc] at hahead
  | endFunctors =>
    simp only [Dispatcher.step] at hs
    split_ifs at hs with he
    cases hs
    exact ⟨h.nodup, h.quiet, by simp, h.current, h.removed, h.upcoming, h.own, h.handler, h.removals,
      h.reached⟩
  | connection i a =>
    simp only [Dispatcher.step] at hs
    split_ifs at hs with ha
    exact h.connection ha hs
  | connector i a =>
    simp only [Dispatcher.step] at hs
    split_ifs at hs with ha
    exact h.connector ha hs

end

/-- The assertion of `EventLoop::RemoveChannel`. -/
def Asserted (r : Removal) : Prop :=
  r.eventHandling = true → r.current = some r.channel ∨ r.channel ∉ r.active

/-- **No removed channel is dispatched.** In every run, a channel is removed while no event is handled or
by its own handler, so the assertion of `RemoveChannel` holds; and an entry of `active_channels_` that
`Loop` reaches has not been removed in this iteration, and is still registered. -/
theorem removed_not_dispatched {acts : List (Act F)} {s : Dispatcher F}
    (hrun : run new acts = some s) :
    (∀ r ∈ s.removals, (r.eventHandling = false ∨ r.current = some r.channel) ∧ Asserted r) ∧
      ∀ r ∈ s.reached, r.channel ∉ r.removed ∧ r.registered = true := by
  have h : Inv s := Run.run_inv (fun _ _ _ hs h => Inv.step h hs) hrun .new
  refine ⟨fun r hr => ⟨h.removals r hr, fun hev => ?_⟩, h.reached⟩
  rcases h.removals r hr with hoff | hcurrent
  · exact Bool.noConfusion (hoff.symm.trans hev)
  · exact Or.inl hcurrent

/-- A connection is closed by the peer while an attempt completes in the same iteration: the connector
removes its channel in its handler, the connection in a functor. -/
theorem removed_not_dispatched_of_two :
    let acts : List (Act Unit) := [.newConnection (.new 7 1024 false false true),
      .connection 0 (.connectEstablished []), .newConnector, .connector 0 .start,
      .connector 0 (.exec {}), .connector 0 (.exec {}), .connector 0 (.exec {}),
      .poll [.connection 0, .connector 0 0], .next,
      .connection 0 (.handleEvent { revents := POLLHUP, read := .bytes [], write := .room 0 }), .next,
      .connector 0 (.dispatch POLLOUT),
      .connector 0 (.exec {}), .connector 0 (.exec {}), .endEvents, .connection 0 .beginFunctors,
      .connection 0 (.functor (.room 0) [])]
    ∃ s, run new acts = some s ∧ s.removals.map Removal.channel = [.connector 0 0, .connection 0] ∧
      s.reached.map Reached.channel = [.connection 0, .connector 0 0] ∧
      (∀ r ∈ s.removals, (r.eventHandling = false ∨ r.current = some r.channel) ∧ Asserted r) ∧
        ∀ r ∈ s.reached, r.channel ∉ r.removed ∧ r.registered = true := by
  intro acts
  obtain ⟨s, hrun, hs⟩ : ∃ s, run new acts = some s ∧
      s.removals.map Removal.channel = [.connector 0 0, .connection 0] ∧
      s.reached.map Reached.channel = [.connection 0, .connector 0 0] := ⟨_, rfl, by decide⟩
  exact ⟨s, hrun, hs.1, hs.2, removed_not_dispatched hrun⟩

end Dispatcher

end MuduoCpp11.Net
