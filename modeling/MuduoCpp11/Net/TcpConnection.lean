import MuduoCpp11.Net.Buffer
import MuduoCpp11.Net.Channel
import MuduoCpp11.Net.EventLoop

/-! # A TCP connection

The member functions of `TcpConnection` that run on the loop thread, as functions on the connection.
What a call of the kernel returns is an argument (`WriteResult`, `ReadResult`), and so is what a user
callback does: a list of calls of the connection's own interface, made in the middle of the handler.

Everything a function does to the outside is appended to `log`: the calls of the kernel and of the
poller, the callbacks, each store to `state_`, and each assertion that fails (the function then goes
on as without it). Functors go to the queue of the loop. -/

namespace MuduoCpp11.Net

inductive StateE where
  | kDisconnected | kConnecting | kConnected | kDisconnecting
  deriving DecidableEq, Repr

/-- What a connection hands over to its loop. -/
inductive Functor where
  | sendInLoop (message : List UInt8)
  | shutdownInLoop
  | forceCloseInLoop
  | connectDestroyed
  | writeCompleteCallback
  | highWatermarkCallback (len : ℕ)
  deriving DecidableEq, Repr

/-- The functions whose assertions are part of the model. -/
inductive Assertion where
  | connectEstablished | handleClose | remove | removeConnectionInLoop
  deriving DecidableEq, Repr

/-- `shutdownWrite` shows the bytes still in the output buffer, `connectionCallback` the state. -/
inductive Effect where
  | setState (s : StateE)
  | updateChannel (events : BitVec 32)
  | removeChannel
  | write (data : List UInt8)
  | shutdownWrite (unsent : List UInt8)
  | connectionCallback (s : StateE)
  | messageCallback
  | closeCallback
  | writeCompleteCallback
  | highWatermarkCallback (len : ℕ)
  | assertFailed (a : Assertion)
  deriving DecidableEq, Repr

/-- What `TcpServer` or `TcpClient` knows of the connection: whether its own loop is the connection's,
whether it still holds the connection, and whether a call of `RemoveConnectionInLoop` waits in its
loop. -/
structure Owner where
  sameLoop : Bool
  holds : Bool := true
  removePending : Bool := false
  deriving DecidableEq, Repr

/-- `delayed` counts the timers of `ForceCloseWithDelay` that have not fired. -/
structure TcpConnection where
  state : StateE := .kConnecting
  channel : Channel
  inputBuffer : Buffer := Buffer.new
  outputBuffer : Buffer := Buffer.new
  highWatermark : ℕ := 64 * 1024 * 1024
  hasWriteCompleteCallback : Bool := false
  hasHighWatermarkCallback : Bool := false
  loop : EventLoop Functor := {}
  delayed : ℕ := 0
  owner : Owner
  log : List Effect := []

/-- The constructor, with what the owner and the user set before `ConnectEstablished`. -/
def TcpConnection.new (fd : ℤ) (highWatermark : ℕ) (writeComplete highWater sameLoop : Bool) :
    TcpConnection where
  channel := { fd }
  highWatermark
  hasWriteCompleteCallback := writeComplete
  hasHighWatermarkCallback := highWater
  owner := { sameLoop }

/-- A call of the user's on the loop thread; `w` is what a direct write returns. -/
inductive UserCall where
  | send (message : List UInt8) (w : WriteResult)
  | shutdown
  | forceClose
  | forceCloseWithDelay
  | retrieve (len : ℕ)
  deriving DecidableEq, Repr

namespace TcpConnection

variable (c : TcpConnection)

def emit (e : Effect) : TcpConnection := { c with log := c.log ++ [e] }

def setState (s : StateE) : TcpConnection := { c with state := s }.emit (.setState s)

/-- An operation of the channel, with its `Update()`. -/
def update (f : Channel → Channel) : TcpConnection :=
  { c with channel := f c.channel }.emit (.updateChannel (f c.channel).events)

/-- `loop_->QueueInLoop` on the loop thread. -/
def queueInLoop (cb : Functor) : TcpConnection := { c with loop := c.loop.queueInLoop true cb }

def assert (a : Assertion) (p : Bool) : TcpConnection := if p then c else c.emit (.assertFailed a)

/-! ### Output -/

/-- Nothing is in the output queue, so a message is written directly. -/
def writesDirectly : Bool := !c.channel.isWriting && c.outputBuffer.readableBytes = 0

/-- The direct write of `SendInLoop`: the connection, `nwrote` and `fault_error`. -/
def writeDirectly (data : List UInt8) (w : WriteResult) : TcpConnection × ℕ × Bool :=
  match w with
  | .room n =>
    let nwrote := min n data.length
    let c := c.emit (.write (data.take nwrote))
    (if nwrote = data.length ∧ c.hasWriteCompleteCallback then c.queueInLoop .writeCompleteCallback
      else c, nwrote, false)
  | .error e => (c, 0, e.isFault)

/-- The bytes of `SendInLoop` that were not written go to the output buffer. -/
def bufferRemaining (remaining : List UInt8) : TcpConnection :=
  let oldLen := c.outputBuffer.readableBytes
  let c := if oldLen + remaining.length ≥ c.highWatermark ∧ oldLen < c.highWatermark ∧
      c.hasHighWatermarkCallback then
    c.queueInLoop (.highWatermarkCallback (oldLen + remaining.length)) else c
  let c := { c with outputBuffer := c.outputBuffer.append remaining }
  if !c.channel.isWriting then c.update Channel.enableWriting else c

def sendInLoop (data : List UInt8) (w : WriteResult) : TcpConnection :=
  if c.state = .kDisconnected then c
  else
    let (c, nwrote, faultError) :=
      if c.writesDirectly then c.writeDirectly data w else (c, 0, false)
    let remaining := data.drop nwrote
    if !faultError ∧ remaining.length > 0 then c.bufferRemaining remaining else c

def shutdownInLoop : TcpConnection :=
  if !c.channel.isWriting then c.emit (.shutdownWrite c.outputBuffer.peek) else c

/-- What `HandleWrite` does when the output buffer is empty behind its write. -/
def drained : TcpConnection :=
  let c := c.update Channel.disableWriting
  let c := if c.hasWriteCompleteCallback then c.queueInLoop .writeCompleteCallback else c
  if c.state = .kDisconnecting then c.shutdownInLoop else c

def handleWrite (w : WriteResult) : TcpConnection :=
  if c.channel.isWriting then
    match w with
    | .room n =>
      let n := min n c.outputBuffer.readableBytes
      let c := c.emit (.write (c.outputBuffer.peek.take n))
      if n > 0 then
        let c := { c with outputBuffer := c.outputBuffer.retrieve n }
        if c.outputBuffer.readableBytes = 0 then c.drained else c
      else c
    | .error _ => c
  else c

/-! ### The user's calls, on the loop thread -/

def send (message : List UInt8) (w : WriteResult) : TcpConnection :=
  if c.state = .kConnected then c.sendInLoop message w else c

def shutdown : TcpConnection :=
  if c.state = .kConnected then (c.setState .kDisconnecting).shutdownInLoop else c

def forceClose : TcpConnection :=
  if c.state = .kConnected ∨ c.state = .kDisconnecting then
    (c.setState .kDisconnecting).queueInLoop .forceCloseInLoop
  else c

def forceCloseWithDelay : TcpConnection :=
  if c.state = .kConnected ∨ c.state = .kDisconnecting then
    let c := c.setState .kDisconnecting
    { c with delayed := c.delayed + 1 }
  else c

def call : UserCall → TcpConnection
  | .send message w => c.send message w
  | .shutdown => c.shutdown
  | .forceClose => c.forceClose
  | .forceCloseWithDelay => c.forceCloseWithDelay
  | .retrieve len => { c with inputBuffer := c.inputBuffer.retrieve len }

/-- A user callback that makes these calls. -/
def calls (script : List UserCall) : TcpConnection := script.foldl call c

/-! ### Connecting and closing -/

def connectEstablished (script : List UserCall) : TcpConnection :=
  let c := c.assert .connectEstablished (c.state = .kConnecting)
  let c := c.setState .kConnected
  let c := { c with channel := c.channel.tie }
  let c := c.update Channel.enableReading
  (c.emit (.connectionCallback c.state)).calls script

/-- `channel_->Remove()` -/
def removeChannel : TcpConnection :=
  let c := c.assert .remove c.channel.isNoneEvent
  { c with channel := c.channel.remove }.emit .removeChannel

def connectDestroyed (script : List UserCall) : TcpConnection :=
  let c := if c.state = .kConnected then
      let c := c.setState .kDisconnected
      let c := c.update Channel.disableAll
      (c.emit (.connectionCallback c.state)).calls script
    else c
  c.removeChannel

/-- `RemoveConnectionInLoop` of the owner. -/
def removeConnectionInLoop : TcpConnection :=
  let c := c.assert .removeConnectionInLoop c.owner.holds
  { c with
    owner := { c.owner with holds := false, removePending := false }
    loop := c.loop.queueInLoop c.owner.sameLoop .connectDestroyed }

/-- `close_callback_`, that is, `RemoveConnection` of the owner. -/
def closeCallback : TcpConnection :=
  let c := c.emit .closeCallback
  if c.owner.sameLoop then c.removeConnectionInLoop
  else { c with owner := { c.owner with removePending := true } }

def handleClose (script : List UserCall) : TcpConnection :=
  let c := c.assert .handleClose (c.state = .kConnected ∨ c.state = .kDisconnecting)
  let c := c.setState .kDisconnected
  let c := c.update Channel.disableAll
  ((c.emit (.connectionCallback c.state)).calls script).closeCallback

def forceCloseInLoop (script : List UserCall) : TcpConnection :=
  if c.state = .kConnected ∨ c.state = .kDisconnecting then c.handleClose script else c

/-- `HandleRead`; an error is only reported. -/
def handleRead (r : ReadResult) (script : List UserCall) : TcpConnection :=
  match c.inputBuffer.readFd r with
  | (buffer, .bytes data) =>
    let c := { c with inputBuffer := buffer }
    if data.length > 0 then (c.emit .messageCallback).calls script else c.handleClose script
  | (_, .error _) => c

/-! ### What the loop calls -/

/-- An event of the channel: what was polled, what the kernel returns to the handlers, and what the
user's callbacks do if the handlers call them. -/
structure Event where
  revents : BitVec 32
  read : ReadResult
  write : WriteResult
  onClose : List UserCall := []
  onRead : List UserCall := []

/-- `Channel::HandleEventWithGuard` with the callbacks of the connection; the error callback only
reports. -/
def handleEventWithGuard (ev : Event) : TcpConnection :=
  let c := { c with channel := { c.channel with revents := ev.revents, eventHandling := true } }
  let c := if hasEvent ev.revents POLLHUP ∧ !hasEvent ev.revents POLLIN then
    c.handleClose ev.onClose else c
  let c := if hasEvent ev.revents (POLLIN ||| POLLPRI ||| POLLRDHUP) then
    c.handleRead ev.read ev.onRead else c
  let c := if hasEvent ev.revents POLLOUT then c.handleWrite ev.write else c
  { c with channel := { c.channel with eventHandling := false } }

/-- A functor runs. -/
def runFunctor (f : Functor) (w : WriteResult) (script : List UserCall) : TcpConnection :=
  match f with
  | .sendInLoop message => c.sendInLoop message w
  | .shutdownInLoop => c.shutdownInLoop
  | .forceCloseInLoop => c.forceCloseInLoop script
  | .connectDestroyed => c.connectDestroyed script
  | .writeCompleteCallback => (c.emit .writeCompleteCallback).calls script
  | .highWatermarkCallback len => (c.emit (.highWatermarkCallback len)).calls script

/-- A timer of `ForceCloseWithDelay` fires. -/
def fireDelayed : TcpConnection := { c with delayed := c.delayed - 1 }.forceClose

end TcpConnection

end MuduoCpp11.Net
