import MuduoCpp11.Lib.Run
import MuduoCpp11.Net.Channel
import MuduoCpp11.Net.EventLoop

/-! # Connectors

A `Connector` makes one attempt after another to connect a socket. It lives on its loop thread, where
everything but the stores of `Start` and `Stop` happens; these may come from any thread, at any time,
between any two statements of the loop thread that read `connect_`. So the functions of the loop thread
are cut where they read `connect_`: what is left of them is in `todo`, the statements ahead of the loop
thread, and one of these is executed at a time.

Everything that matters outside is written to `log`: a call of `StartInLoop`, `Connecting` or
`ResetChannel` with what it found, each socket with its end, the removal of a channel. A failed
assertion shows there, and the function goes on as without it; a call through a null pointer has no
next state. -/

namespace MuduoCpp11.Net

open MuduoCpp11.Lib

namespace Connector

inductive States where
  | kDisconnected
  | kConnecting
  | kConnected
  deriving DecidableEq, Repr

def kMaxRetryDelayMs : ℕ := 30 * 1000
def kInitRetryDelayMs : ℕ := 500

/-- What is queued in the loop: functors of the connector, of which `StopInLoop` carries the number of
its call of `Stop`, and those of others. -/
inductive Functor (F : Type*) where
  | startInLoop
  | stopInLoop (call : ℕ)
  | resetChannel
  | other (f : F)
  deriving DecidableEq, Repr

/-- A call of `Start` or `Stop` on another thread, behind its store. -/
inductive Call where
  | start
  | stop (call : ℕ)
  deriving DecidableEq, Repr

/-- What such a thread queues. -/
def Call.functor {F : Type*} : Call → Functor F
  | .start => .startInLoop
  | .stop call => .stopInLoop call

/-- `errno` behind `connect(2)`; `none` is a success. -/
inductive Errno where
  | EINPROGRESS | EINTR | EISCONN
  | EAGAIN | EADDRINUSE | EADDRNOTAVAIL | ECONNREFUSED | ENETUNREACH
  | EACCES | EPERM | EAFNOSUPPORT | EALREADY | EBADF | EFAULT | ENOTSOCK
  | other (code : ℕ)
  deriving DecidableEq, Repr

/-- What the kernel says: the result of `connect(2)`, `SO_ERROR`, and whether the two ends of the
socket have one address. -/
structure Env where
  errno : Option Errno := none
  soError : Bool := false
  selfConnect : Bool := false
  deriving DecidableEq, Repr

/-- Statements ahead of the loop thread. -/
inductive Stmt where
  | start
  | stop
  | queueStopInLoop (call : ℕ)
  | restart
  | startInLoop
  | connect
  | retry (sockfd : ℤ)
  | handleError
  | handleWrite
  | newConnectionCallback (sockfd : ℤ)
  deriving DecidableEq, Repr

inductive Event where
  | startInLoop (connect : Bool) (state : States)
  | stopInLoop (call : ℕ)
  | connect (sockfd : ℤ)
  | connecting (channel : Option Channel)
  | removeChannel (sockfd : ℤ)
  | resetChannel (channel : Option Channel)
  | handleWrite (state : States)
  | connected (sockfd : ℤ)
  | newConnection (sockfd : ℤ)
  | close (sockfd : ℤ)
  deriving DecidableEq, Repr

end Connector

/-- `sockets` counts the sockets that have been made, and a socket is told by its number: descriptors
are used again by the kernel, but not while they are open. `timers` are the delays of the pending retry
timers. `calls` are those of the threads that are inside of `Start` or `Stop`; `stops` counts the calls
of `Stop`. -/
structure Connector (F : Type*) where
  connect : Bool := false
  state : Connector.States := .kDisconnected
  channel : Option Channel := none
  retryDelayMs : ℕ := Connector.kInitRetryDelayMs
  loop : EventLoop (Connector.Functor F) := {}
  timers : List ℕ := []
  todo : List Connector.Stmt := []
  calls : List Connector.Call := []
  stops : ℕ := 0
  sockets : ℕ := 0
  log : List Connector.Event := []

namespace Connector

variable {F : Type*}

def new : Connector F := {}

section
variable (s : Connector F)

def emit (e : Event) : Connector F := { s with log := s.log ++ [e] }

def push (stmt : Stmt) : Connector F := { s with todo := stmt :: s.todo }

def queueInLoop (isInLoopThread : Bool) (f : Functor F) : Connector F :=
  { s with loop := s.loop.queueInLoop isInLoopThread f }

/-- `channel_` is registered with the poller. -/
def registered : Bool := s.channel.any Channel.addedToLoop

/-! ### The functions of the loop thread -/

def startInLoop : Connector F :=
  let s := s.emit (.startInLoop s.connect s.state)
  if s.connect then s.push .connect else s

def connecting (sockfd : ℤ) : Connector F :=
  let s := { s with state := .kConnecting }.emit (.connecting s.channel)
  { s with channel := some ({ fd := sockfd } : Channel).enableWriting }

/-- `Connect()`. -/
def connectSocket (errno : Option Errno) : Connector F :=
  let sockfd : ℤ := s.sockets
  let s := { s with sockets := s.sockets + 1 }.emit (.connect sockfd)
  match errno with
  | none | some .EINPROGRESS | some .EINTR | some .EISCONN => s.connecting sockfd
  | some .EAGAIN | some .EADDRINUSE | some .EADDRNOTAVAIL | some .ECONNREFUSED
  | some .ENETUNREACH => s.push (.retry sockfd)
  | some .EACCES | some .EPERM | some .EAFNOSUPPORT | some .EALREADY | some .EBADF | some .EFAULT
  | some .ENOTSOCK => s.emit (.close sockfd)
  | some (.other _) => s.emit (.close sockfd)

def removeAndResetChannel : Option (ℤ × Connector F) :=
  s.channel.map fun c =>
    (c.fd, ({ s with channel := some c.disableAll.remove }.emit (.removeChannel c.fd)).queueInLoop true
      .resetChannel)

def resetChannel : Connector F := { s.emit (.resetChannel s.channel) with channel := none }

def retry (sockfd : ℤ) : Connector F :=
  let s := { s.emit (.close sockfd) with state := .kDisconnected }
  if s.connect then
    { s with
      timers := s.timers ++ [s.retryDelayMs]
      retryDelayMs := min (s.retryDelayMs * 2) kMaxRetryDelayMs }
  else s

def stopInLoop (call : ℕ) : Option (Connector F) :=
  let s := s.emit (.stopInLoop call)
  if s.state = .kConnecting then
    { s with state := .kDisconnected }.removeAndResetChannel.map fun (r : ℤ × Connector F) =>
      r.2.push (.retry r.1)
  else some s

def handleWrite (soError selfConnect : Bool) : Option (Connector F) :=
  if s.state = .kConnecting then
    s.removeAndResetChannel.map fun (r : ℤ × Connector F) =>
      let (sockfd, s) := r
      if soError then s.push (.retry sockfd)
      else if selfConnect then s.push (.retry sockfd)
      else
        let s := { s with state := .kConnected }.emit (.connected sockfd)
        if s.connect then s.push (.newConnectionCallback sockfd) else s.emit (.close sockfd)
  else some (s.emit (.handleWrite s.state))

def handleError : Option (Connector F) :=
  if s.state = .kConnecting then
    s.removeAndResetChannel.map fun (r : ℤ × Connector F) => r.2.push (.retry r.1)
  else some s

def restart : Connector F :=
  { s with
    state := .kDisconnected
    retryDelayMs := kInitRetryDelayMs
    connect := true }.push .startInLoop

/-- The next statement of the loop thread is executed. -/
def exec (env : Env) (stmt : Stmt) : Option (Connector F) :=
  match stmt with
  | .start => some ({ s with connect := true }.push .startInLoop)
  | .stop =>
    some ({ s with connect := false, stops := s.stops + 1 }.push (.queueStopInLoop s.stops))
  | .queueStopInLoop call => some (s.queueInLoop true (.stopInLoop call))
  | .restart => some s.restart
  | .startInLoop => some s.startInLoop
  | .connect => some (s.connectSocket env.errno)
  | .retry sockfd => some (s.retry sockfd)
  | .handleError => s.handleError
  | .handleWrite => s.handleWrite env.soError env.selfConnect
  | .newConnectionCallback sockfd => some (s.emit (.newConnection sockfd))

/-- A functor is called. -/
def runFunctor : Functor F → Option (Connector F)
  | .startInLoop => some (s.push .startInLoop)
  | .stopInLoop call => s.stopInLoop call
  | .resetChannel => some s.resetChannel
  | .other _ => some s

/-- The callbacks `Channel::HandleEventWithGuard` calls, of the two that are set. -/
def handlers (revents : BitVec 32) : List Stmt :=
  (if hasEvent revents (POLLERR ||| POLLNVAL) then [.handleError] else []) ++
    if hasEvent revents POLLOUT then [.handleWrite] else []

end

/-! ### Runs -/

inductive Act (F : Type*) where
  /-- The loop thread calls `Start` or `Stop`, or `Restart` as `TcpClient` does. -/
  | start
  | stop
  | restart
  /-- Another thread calls `Start` or `Stop`, up to its store. -/
  | startCall
  | stopCall
  /-- The `i`-th of these threads queues its functor. -/
  | queue (i : ℕ)
  /-- Somebody else queues a functor. -/
  | queueOther (isInLoopThread : Bool) (f : F)
  /-- The loop thread executes a statement, -/
  | exec (env : Env)
  /-- handles an event of the channel, -/
  | dispatch (revents : BitVec 32)
  /-- calls the `i`-th of the pending timers, -/
  | timer (i : ℕ)
  /-- and goes through its functors. -/
  | beginFunctors
  | functor
  | endFunctors

/-- Events and timers are handled outside of `DoPendingFunctors`, and all of this when the loop thread
has nothing else ahead. -/
def step (s : Connector F) : Act F → Option (Connector F)
  | .start => if s.todo = [] then some (s.push .start) else none
  | .stop => if s.todo = [] then some (s.push .stop) else none
  | .restart => if s.todo = [] then some (s.push .restart) else none
  | .startCall => some { s with connect := true, calls := s.calls ++ [.start] }
  | .stopCall =>
    some { s with connect := false, stops := s.stops + 1, calls := s.calls ++ [.stop s.stops] }
  | .queue i =>
    s.calls[i]?.map fun c => { s with calls := s.calls.eraseIdx i }.queueInLoop false c.functor
  | .queueOther isInLoopThread f => some (s.queueInLoop isInLoopThread (.other f))
  | .exec env =>
    match s.todo with
    | [] => none
    | stmt :: rest => { s with todo := rest }.exec env stmt
  | .dispatch revents =>
    if s.todo = [] ∧ s.loop.callingPendingFunctors = false ∧ s.registered then
      some { s with todo := handlers revents }
    else none
  | .timer i =>
    if s.todo = [] ∧ s.loop.callingPendingFunctors = false ∧ i < s.timers.length then
      some ({ s with timers := s.timers.eraseIdx i }.push .startInLoop)
    else none
  | .beginFunctors =>
    if s.todo = [] then s.loop.beginFunctors.map fun loop => { s with loop } else none
  | .functor =>
    if s.todo = [] then s.loop.nextFunctor.bind fun r => { s with loop := r.2 }.runFunctor r.1
    else none
  | .endFunctors =>
    if s.todo = [] then s.loop.endFunctors.map fun loop => { s with loop } else none

def run : Connector F → List (Act F) → Option (Connector F) := Run.run step

/-! ### What the functions of the loop thread can do -/

theorem retry_eq (s : Connector F) (sockfd : ℤ) :
    s.retry sockfd =
      { s with
        state := .kDisconnected
        retryDelayMs := if s.connect then min (s.retryDelayMs * 2) kMaxRetryDelayMs
          else s.retryDelayMs
        timers := if s.connect then s.timers ++ [s.retryDelayMs] else s.timers
        log := s.log ++ [.close sockfd] } := by
  cases hconnect : s.connect with
  | true => simp [retry, emit, hconnect]
  | false => simp [retry, emit, hconnect]

section
variable {s s' : Connector F}

/-- The connector behind `RemoveAndResetChannel`, with `c` its channel. -/
def dropChannel (s : Connector F) (c : Channel) : Connector F :=
  ({ s with channel := some c.disableAll.remove }.emit (.removeChannel c.fd)).queueInLoop true
    .resetChannel

/-- An attempt is open if it has a channel; the others are over, and nothing happens. -/
theorem handleError_cases (h : s.handleError = some s') :
    (s.state = .kConnecting ∧ ∃ c, s.channel = some c ∧
      s' = (s.dropChannel c).push (.retry c.fd)) ∨ s.state ≠ .kConnecting ∧ s' = s := by
  unfold handleError at h
  split_ifs at h with hstate
  · simp only [removeAndResetChannel, Option.map_map, Option.map_eq_some_iff] at h
    obtain ⟨c, hc, rfl⟩ := h
    exact Or.inl ⟨hstate, c, hc, rfl⟩
  · cases h
    exact Or.inr ⟨hstate, rfl⟩

theorem stopInLoop_cases {call : ℕ} (h : s.stopInLoop call = some s') :
    (s.state = .kConnecting ∧ ∃ c, s.channel = some c ∧
      s' = ({ s.emit (.stopInLoop call) with state := .kDisconnected }.dropChannel c).push
        (.retry c.fd)) ∨
      s.state ≠ .kConnecting ∧ s' = s.emit (.stopInLoop call) := by
  simp only [stopInLoop] at h
  split_ifs at h with hstate
  · simp only [removeAndResetChannel, Option.map_map, Option.map_eq_some_iff] at h
    obtain ⟨c, hc, rfl⟩ := h
    exact Or.inl ⟨hstate, c, hc, rfl⟩
  · cases h
    exact Or.inr ⟨hstate, rfl⟩

theorem handleWrite_cases {soError selfConnect : Bool}
    (h : s.handleWrite soError selfConnect = some s') :
    (s.state = .kConnecting ∧ ∃ c, s.channel = some c ∧
      (s' = (s.dropChannel c).push (.retry c.fd) ∨
        soError = false ∧ selfConnect = false ∧
          s' = if s.connect then
            ({ s.dropChannel c with state := .kConnected }.emit (.connected c.fd)).push
              (.newConnectionCallback c.fd)
          else ({ s.dropChannel c with state := .kConnected }.emit (.connected c.fd)).emit
            (.close c.fd))) ∨
      s.state ≠ .kConnecting ∧ s' = s.emit (.handleWrite s.state) := by
  unfold handleWrite at h
  by_cases hstate : s.state = .kConnecting
  · rw [if_pos hstate] at h
    simp only [removeAndResetChannel, Option.map_map, Option.map_eq_some_iff] at h
    obtain ⟨c, hc, rfl⟩ := h
    refine Or.inl ⟨hstate, c, hc, ?_⟩
    cases soError with
    | true => exact Or.inl rfl
    | false =>
      cases selfConnect with
      | true => exact Or.inl rfl
      | false => exact Or.inr ⟨rfl, rfl, rfl⟩
  · rw [if_neg hstate] at h
    cases h
    exact Or.inr ⟨hstate, rfl⟩

/-- Of the many results of `connect(2)` there are three kinds. -/
theorem connectSocket_cases (s : Connector F) (errno : Option Errno) :
    let s' := { s with sockets := s.sockets + 1 }.emit (.connect s.sockets)
    s.connectSocket errno = s'.connecting s.sockets ∨
      s.connectSocket errno = s'.push (.retry s.sockets) ∨
      s.connectSocket errno = s'.emit (.close s.sockets) := by
  unfold connectSocket
  split
  all_goals simp

theorem step_exec {env : Env} (h : s.step (.exec env) = some s') :
    ∃ stmt rest, s.todo = stmt :: rest ∧ { s with todo := rest }.exec env stmt = some s' := by
  simp only [step] at h
  split at h
  · cases h
  · exact ⟨_, _, ‹_›, h⟩

theorem step_functor (h : s.step .functor = some s') :
    s.todo = [] ∧ ∃ f loop, s.loop.nextFunctor = some (f, loop) ∧
      { s with loop := loop }.runFunctor f = some s' := by
  simp only [step] at h
  split_ifs at h with htodo
  obtain ⟨⟨f, loop⟩, hf, hs⟩ := Option.bind_eq_some_iff.mp h
  exact ⟨htodo, f, loop, hf, hs⟩

/-- The steps that only turn to the queue of the loop, or add to it from outside. -/
theorem step_queue {a : Act F} (h : s.step a = some s')
    (ha : a = .beginFunctors ∨ a = .endFunctors ∨ ∃ b f, a = .queueOther b f) :
    ∃ loop, s' = { s with loop := loop } ∧
      (loop.queued = s.loop.queued ∨ ∃ f, loop.queued = s.loop.queued ++ [.other f]) := by
  rcases ha with rfl | rfl | ⟨b, f, rfl⟩
  · simp only [step] at h
    split_ifs at h
    obtain ⟨loop, hloop, rfl⟩ := Option.map_eq_some_iff.mp h
    exact ⟨loop, rfl, Or.inl (EventLoop.queued_beginFunctors hloop)⟩
  · simp only [step] at h
    split_ifs at h
    obtain ⟨loop, hloop, rfl⟩ := Option.map_eq_some_iff.mp h
    exact ⟨loop, rfl, Or.inl (EventLoop.queued_endFunctors hloop)⟩
  · cases h
    exact ⟨_, rfl, Or.inr ⟨f, EventLoop.queued_queueInLoop _ _ _⟩⟩

/-- What stands ahead of the loop thread when an entry is written, but for the closing of a socket. -/
inductive Caused (s : Connector F) : Act F → Event → Prop where
  | startInLoop {env rest} (h : s.todo = .startInLoop :: rest) :
    Caused s (.exec env) (.startInLoop s.connect s.state)
  | connect {env rest} (h : s.todo = .connect :: rest) : Caused s (.exec env) (.connect s.sockets)
  | connecting {env rest} (h : s.todo = .connect :: rest) :
    Caused s (.exec env) (.connecting s.channel)
  | newConnection {env rest sockfd} (h : s.todo = .newConnectionCallback sockfd :: rest) :
    Caused s (.exec env) (.newConnection sockfd)
  | handleWrite {env rest} (h : s.todo = .handleWrite :: rest) :
    Caused s (.exec env) (.handleWrite s.state)
  | connected {env rest c} (h : s.todo = .handleWrite :: rest) (hstate : s.state = .kConnecting)
    (hc : s.channel = some c) : Caused s (.exec env) (.connected c.fd)
  | removed {env stmt rest c} (h : s.todo = stmt :: rest)
    (hstmt : stmt = .handleError ∨ stmt = .handleWrite) (hc : s.channel = some c) :
    Caused s (.exec env) (.removeChannel c.fd)
  | stopInLoop {call loop} (h : s.loop.nextFunctor = some (.stopInLoop call, loop)) :
    Caused s .functor (.stopInLoop call)
  | stopped {call loop c} (h : s.loop.nextFunctor = some (.stopInLoop call, loop))
    (hc : s.channel = some c) : Caused s .functor (.removeChannel c.fd)
  | resetChannel {loop} (h : s.loop.nextFunctor = some (.resetChannel, loop)) :
    Caused s .functor (.resetChannel s.channel)
  | close {a sockfd} : Caused s a (.close sockfd)

theorem Caused.startInLoop_inv {a : Act F} {connect : Bool} {state : States}
    (h : Caused s a (.startInLoop connect state)) :
    ∃ env rest, a = .exec env ∧ s.todo = .startInLoop :: rest ∧ connect = s.connect ∧
      state = s.state := by
  cases h with
  | startInLoop htodo => exact ⟨_, _, rfl, htodo, rfl, rfl⟩

theorem Caused.connecting_inv {a : Act F} {channel : Option Channel}
    (h : Caused s a (.connecting channel)) :
    ∃ env rest, a = .exec env ∧ s.todo = .connect :: rest ∧ channel = s.channel := by
  cases h with
  | connecting htodo => exact ⟨_, _, rfl, htodo, rfl⟩

theorem Caused.resetChannel_inv {a : Act F} {channel : Option Channel}
    (h : Caused s a (.resetChannel channel)) :
    ∃ loop, s.loop.nextFunctor = some (.resetChannel, loop) ∧ channel = s.channel := by
  cases h with
  | resetChannel hf => exact ⟨_, hf, rfl⟩

theorem exec_log {env : Env} {stmt : Stmt} {rest : List Stmt} (htodo : s.todo = stmt :: rest)
    (h : { s with todo := rest }.exec env stmt = some s') :
    ∃ new, s'.log = s.log ++ new ∧ ∀ e ∈ new, Caused s (.exec env) e := by
  cases stmt with
  | start | stop | queueStopInLoop | restart =>
    cases h
    exact ⟨[], by simp [push, queueInLoop, restart], by simp⟩
  | startInLoop =>
    cases h
    refine ⟨[.startInLoop s.connect s.state], ?_, by simpa using .startInLoop htodo⟩
    simp only [startInLoop]
    split_ifs <;> rfl
  | connect =>
    cases h
    obtain hc | hc | hc := connectSocket_cases { s with todo := rest } env.errno
    · refine ⟨[.connect s.sockets, .connecting s.channel], by simp [hc, connecting, emit], ?_⟩
      simpa using ⟨.connect htodo, .connecting htodo⟩
    · exact ⟨[.connect s.sockets], by simp [hc, push, emit], by simpa using .connect htodo⟩
    · refine ⟨[.connect s.sockets, .close s.sockets], by simp [hc, emit], ?_⟩
      simpa using ⟨.connect htodo, .close⟩
  | retry sockfd =>
    cases h
    exact ⟨[.close sockfd], by simp [retry_eq], by simpa using .close⟩
  | handleError =>
    obtain ⟨-, c, hc, rfl⟩ | ⟨-, rfl⟩ := handleError_cases h
    · refine ⟨[.removeChannel c.fd], by simp [dropChannel, push, queueInLoop, emit], ?_⟩
      simpa using .removed htodo (Or.inl rfl) hc
    · exact ⟨[], by simp, by simp⟩
  | handleWrite =>
    obtain ⟨hstate, c, hc, rfl | ⟨-, -, rfl⟩⟩ | ⟨-, rfl⟩ := handleWrite_cases h
    · refine ⟨[.removeChannel c.fd], by simp [dropChannel, push, queueInLoop, emit], ?_⟩
      simpa using .removed htodo (Or.inr rfl) hc
    · have hremoved : Caused s (.exec env) (.removeChannel c.fd) := .removed htodo (Or.inr rfl) hc
      split_ifs
      · refine ⟨[.removeChannel c.fd, .connected c.fd], ?_, ?_⟩
        · simp [dropChannel, push, queueInLoop, emit]
        · simpa using ⟨hremoved, .connected htodo hstate hc⟩
      · refine ⟨[.removeChannel c.fd, .connected c.fd, .close c.fd], ?_, ?_⟩
        · simp [dropChannel, queueInLoop, emit]
        · simpa using ⟨hremoved, .connected htodo hstate hc, .close⟩
    · exact ⟨[.handleWrite s.state], by simp [emit], by simpa using .handleWrite htodo⟩
  | newConnectionCallback sockfd =>
    cases h
    exact ⟨[.newConnection sockfd], by simp [emit], by simpa using .newConnection htodo⟩

theorem runFunctor_log {f : Functor F} {loop : EventLoop (Functor F)}
    (hf : s.loop.nextFunctor = some (f, loop)) (h : { s with loop := loop }.runFunctor f = some s') :
    ∃ new, s'.log = s.log ++ new ∧ ∀ e ∈ new, Caused s .functor e := by
  cases f with
  | startInLoop | other =>
    cases h
    exact ⟨[], by simp [push], by simp⟩
  | stopInLoop call =>
    obtain ⟨-, c, hc, rfl⟩ | ⟨-, rfl⟩ := stopInLoop_cases h
    · refine ⟨[.stopInLoop call, .removeChannel c.fd], ?_, ?_⟩
      · simp [dropChannel, push, queueInLoop, emit]
      · simpa using ⟨.stopInLoop hf, .stopped hf hc⟩
    · exact ⟨[.stopInLoop call], by simp [emit], by simpa using .stopInLoop hf⟩
  | resetChannel =>
    cases h
    refine ⟨[.resetChannel s.channel], by simp [resetChannel, emit], ?_⟩
    simpa using .resetChannel hf

/-- The log grows, and every entry has its cause. -/
theorem step_log {a : Act F} (h : s.step a = some s') :
    ∃ new, s'.log = s.log ++ new ∧ ∀ e ∈ new, Caused s a e := by
  cases a with
  | start | stop | restart | dispatch | timer =>
    simp only [step] at h
    split_ifs at h
    cases h
    exact ⟨[], by simp [push], by simp⟩
  | startCall | stopCall =>
    cases h
    exact ⟨[], by simp, by simp⟩
  | queue i =>
    simp only [step, Option.map_eq_some_iff] at h
    obtain ⟨c, -, rfl⟩ := h
    exact ⟨[], by simp [queueInLoop], by simp⟩
  | exec env =>
    obtain ⟨stmt, rest, htodo, hs⟩ := step_exec h
    exact exec_log htodo hs
  | beginFunctors | endFunctors | queueOther =>
    obtain ⟨loop, rfl, -⟩ := step_queue h (by simp)
    exact ⟨[], by simp, by simp⟩
  | functor =>
    obtain ⟨-, f, loop, hf, hs⟩ := step_functor h
    exact runFunctor_log hf hs

theorem step_event {a : Act F} {e : Event} (h : s.step a = some s') (he : e ∈ s'.log) :
    e ∈ s.log ∨ Caused s a e := by
  obtain ⟨new, hlog, hnew⟩ := step_log h
  rw [hlog, List.mem_append] at he
  exact he.imp_right (hnew e)

/-- When a step may put a statement ahead of the loop thread: only the calls of `Start` and `Restart`
end in their stores, only an event is handled, and only with `connect_` set is there a `Connect` or a
new connection. -/
def Pushed (s : Connector F) (a : Act F) : Stmt → Prop
  | .start => a = .start
  | .restart => a = .restart
  | .handleError | .handleWrite => ∃ revents, a = .dispatch revents
  | .connect => s.connect = true
  | .newConnectionCallback _ => s.connect = true
  | _ => True

theorem mem_pushed {a : Act F} {stmt x : Stmt} {rest : List Stmt} (hmem : x ∈ stmt :: rest)
    (hrest : ∀ x ∈ rest, x ∈ s.todo) (hstmt : Pushed s a stmt) : x ∈ s.todo ∨ Pushed s a x := by
  rcases List.mem_cons.mp hmem with rfl | hmem
  · exact Or.inr hstmt
  · exact Or.inl (hrest x hmem)

theorem exec_todo {env : Env} {stmt stmt' : Stmt} {rest : List Stmt} (htodo : s.todo = stmt :: rest)
    (h : { s with todo := rest }.exec env stmt = some s') (hmem : stmt' ∈ s'.todo) :
    stmt' ∈ s.todo ∨ Pushed s (.exec env) stmt' := by
  have hrest : ∀ x ∈ rest, x ∈ s.todo := fun x hx => by simp [htodo, hx]
  cases stmt with
  | start | stop | restart =>
    cases h
    exact mem_pushed hmem hrest trivial
  | queueStopInLoop | newConnectionCallback =>
    cases h
    exact Or.inl (hrest _ hmem)
  | startInLoop =>
    cases h
    cases hconnect : s.connect with
    | true =>
      simp only [startInLoop, emit, hconnect, if_true] at hmem
      exact mem_pushed hmem hrest hconnect
    | false =>
      simp only [startInLoop, emit, hconnect, Bool.false_eq_true, if_false] at hmem
      exact Or.inl (hrest _ hmem)
  | connect =>
    cases h
    obtain hc | hc | hc := connectSocket_cases { s with todo := rest } env.errno
    · rw [hc] at hmem
      exact Or.inl (hrest _ hmem)
    · rw [hc] at hmem
      exact mem_pushed hmem hrest trivial
    · rw [hc] at hmem
      exact Or.inl (hrest _ hmem)
  | retry sockfd =>
    cases h
    rw [retry_eq] at hmem
    exact Or.inl (hrest _ hmem)
  | handleError =>
    obtain ⟨-, c, -, rfl⟩ | ⟨-, rfl⟩ := handleError_cases h
    · exact mem_pushed hmem hrest trivial
    · exact Or.inl (hrest _ hmem)
  | handleWrite =>
    obtain ⟨-, c, -, rfl | ⟨-, -, rfl⟩⟩ | ⟨-, rfl⟩ := handleWrite_cases h
    · exact mem_pushed hmem hrest trivial
    · cases hconnect : s.connect with
      | true =>
        simp only [hconnect, if_true] at hmem
        exact mem_pushed hmem hrest hconnect
      | false =>
        simp only [hconnect, Bool.false_eq_true, if_false] at hmem
        exact Or.inl (hrest _ hmem)
    · exact Or.inl (hrest _ hmem)

theorem step_todo {a : Act F} {stmt : Stmt} (h : s.step a = some s') (hmem : stmt ∈ s'.todo) :
    stmt ∈ s.todo ∨ Pushed s a stmt := by
  cases a with
  | start | stop | restart =>
    simp only [step] at h
    split_ifs at h
    cases h
    exact mem_pushed hmem (fun _ hx => hx) (by simp [Pushed])
  | startCall | stopCall =>
    cases h
    exact Or.inl hmem
  | queue i =>
    simp only [step, Option.map_eq_some_iff] at h
    obtain ⟨c, -, rfl⟩ := h
    exact Or.inl hmem
  | exec env =>
    obtain ⟨stmt, rest, htodo, hs⟩ := step_exec h
    exact exec_todo htodo hs hmem
  | dispatch revents =>
    simp only [step] at h
    split_ifs at h
    cases h
    refine Or.inr ?_
    simp only [handlers, List.mem_append] at hmem
    split_ifs at hmem <;> simp at hmem
    · rcases hmem with rfl | rfl
      · exact ⟨revents, rfl⟩
      · exact ⟨revents, rfl⟩
    · subst hmem
      exact ⟨revents, rfl⟩
    · subst hmem
      exact ⟨revents, rfl⟩
  | timer i =>
    simp only [step] at h
    split_ifs at h
    cases h
    exact mem_pushed hmem (fun _ hx => hx) trivial
  | beginFunctors | endFunctors | queueOther =>
    obtain ⟨loop, rfl, -⟩ := step_queue h (by simp)
    exact Or.inl hmem
  | functor =>
    obtain ⟨-, f, loop, -, hs⟩ := step_functor h
    cases f with
    | startInLoop =>
      cases hs
      exact mem_pushed hmem (fun _ hx => hx) trivial
    | stopInLoop call =>
      obtain ⟨-, c, -, rfl⟩ | ⟨-, rfl⟩ := stopInLoop_cases hs
      · exact mem_pushed hmem (fun _ hx => hx) trivial
      · exact Or.inl hmem
    | resetChannel | other =>
      cases hs
      exact Or.inl hmem

/-- The calls of `Start` and `Restart` set `connect_`. -/
theorem step_connect {a : Act F} (h : s.step a = some s') (hconnect : s'.connect = true) :
    s.connect = true ∨ a = .startCall ∨ .start ∈ s.todo ∨ .restart ∈ s.todo := by
  cases a with
  | start | stop | restart | dispatch | timer =>
    simp only [step] at h
    split_ifs at h
    cases h
    exact Or.inl hconnect
  | startCall => exact Or.inr (Or.inl rfl)
  | stopCall =>
    cases h
    cases hconnect
  | queue i =>
    simp only [step, Option.map_eq_some_iff] at h
    obtain ⟨c, -, rfl⟩ := h
    exact Or.inl hconnect
  | exec env =>
    obtain ⟨stmt, rest, htodo, hs⟩ := step_exec h
    cases stmt with
    | start => exact Or.inr (Or.inr (Or.inl (by simp [htodo])))
    | restart => exact Or.inr (Or.inr (Or.inr (by simp [htodo])))
    | stop =>
      cases hs
      cases hconnect
    | queueStopInLoop | newConnectionCallback =>
      cases hs
      exact Or.inl hconnect
    | startInLoop =>
      cases hs
      simp only [startInLoop] at hconnect
      split_ifs at hconnect <;> exact Or.inl hconnect
    | connect =>
      cases hs
      obtain hc | hc | hc := connectSocket_cases { s with todo := rest } env.errno <;>
        · rw [hc] at hconnect
          exact Or.inl hconnect
    | retry sockfd =>
      cases hs
      rw [retry_eq] at hconnect
      exact Or.inl hconnect
    | handleError =>
      obtain ⟨-, c, -, rfl⟩ | ⟨-, rfl⟩ := handleError_cases hs
      · exact Or.inl hconnect
      · exact Or.inl hconnect
    | handleWrite =>
      obtain ⟨-, c, -, rfl | ⟨-, -, rfl⟩⟩ | ⟨-, rfl⟩ := handleWrite_cases hs
      · exact Or.inl hconnect
      · split_ifs at hconnect <;> exact Or.inl hconnect
      · exact Or.inl hconnect
  | beginFunctors | endFunctors | queueOther =>
    obtain ⟨loop, rfl, -⟩ := step_queue h (by simp)
    exact Or.inl hconnect
  | functor =>
    obtain ⟨-, f, loop, -, hs⟩ := step_functor h
    cases f with
    | startInLoop | resetChannel | other =>
      cases hs
      exact Or.inl hconnect
    | stopInLoop call =>
      obtain ⟨-, c, -, rfl⟩ | ⟨-, rfl⟩ := stopInLoop_cases hs
      · exact Or.inl hconnect
      · exact Or.inl hconnect

/-- A channel stays until it is reset, or another one is made in its place. -/
theorem exec_channel {env : Env} {stmt : Stmt} {c : Channel} (h : s.exec env stmt = some s')
    (hc : s.channel = some c) (hnone : .connecting (some c) ∉ s'.log) :
    ∃ c', s'.channel = some c' ∧ c'.fd = c.fd ∧
      (stmt ≠ .handleError ∧ stmt ≠ .handleWrite → c' = c) := by
  cases stmt with
  | start | stop | queueStopInLoop | restart | newConnectionCallback =>
    cases h
    exact ⟨c, hc, rfl, fun _ => rfl⟩
  | startInLoop =>
    cases h
    refine ⟨c, ?_, rfl, fun _ => rfl⟩
    simp only [startInLoop]
    split_ifs <;> exact hc
  | connect =>
    cases h
    obtain he | he | he := connectSocket_cases s env.errno
    · rw [he] at hnone
      exact absurd (by simp [connecting, emit, hc]) hnone
    · exact ⟨c, by rw [he]; exact hc, rfl, fun _ => rfl⟩
    · exact ⟨c, by rw [he]; exact hc, rfl, fun _ => rfl⟩
  | retry sockfd =>
    cases h
    exact ⟨c, by rw [retry_eq]; exact hc, rfl, fun _ => rfl⟩
  | handleError =>
    obtain ⟨-, c', hc', rfl⟩ | ⟨-, rfl⟩ := handleError_cases h
    · obtain rfl : c = c' := Option.some.inj (hc.symm.trans hc')
      exact ⟨c.disableAll.remove, rfl, rfl, fun hne => absurd rfl hne.1⟩
    · exact ⟨c, hc, rfl, fun _ => rfl⟩
  | handleWrite =>
    obtain ⟨-, c', hc', hs'⟩ | ⟨-, rfl⟩ := handleWrite_cases h
    · obtain rfl : c = c' := Option.some.inj (hc.symm.trans hc')
      refine ⟨c.disableAll.remove, ?_, rfl, fun hne => absurd rfl hne.2⟩
      rcases hs' with rfl | ⟨-, -, rfl⟩
      · rfl
      · split_ifs <;> rfl
    · exact ⟨c, hc, rfl, fun _ => rfl⟩

theorem step_channel {a : Act F} {c : Channel} (h : s.step a = some s') (ha : a ≠ .functor)
    (hc : s.channel = some c) (hnone : .connecting (some c) ∉ s'.log) :
    ∃ c', s'.channel = some c' ∧ c'.fd = c.fd ∧
      ((∀ stmt ∈ s.todo, stmt ≠ .handleError ∧ stmt ≠ .handleWrite) → c' = c) := by
  cases a with
  | start | stop | restart | dispatch | timer =>
    simp only [step] at h
    split_ifs at h
    cases h
    exact ⟨c, hc, rfl, fun _ => rfl⟩
  | startCall | stopCall =>
    cases h
    exact ⟨c, hc, rfl, fun _ => rfl⟩
  | queue i =>
    simp only [step, Option.map_eq_some_iff] at h
    obtain ⟨call, -, rfl⟩ := h
    exact ⟨c, hc, rfl, fun _ => rfl⟩
  | exec env =>
    obtain ⟨stmt, rest, htodo, hs⟩ := step_exec h
    obtain ⟨c', hc', hfd, hkeep⟩ := exec_channel hs hc hnone
    exact ⟨c', hc', hfd, fun hall => hkeep (hall stmt (by simp [htodo]))⟩
  | beginFunctors | endFunctors | queueOther =>
    obtain ⟨loop, rfl, -⟩ := step_queue h (by simp)
    exact ⟨c, hc, rfl, fun _ => rfl⟩
  | functor => exact absurd rfl ha

end

end Connector

end MuduoCpp11.Net
