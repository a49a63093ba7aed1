import MuduoCpp11.Net.Channel
import MuduoCpp11.Net.EventLoop
import MuduoCpp11.Net.TcpConnection
import MuduoCpp11.Net.TcpServer

/-! # The server and its loops

A connection is accepted on the loop of the acceptor and lives on one of the IO loops, or on the same
one if there are no others. It is handed over by functors: `ConnectEstablished` to its own loop, with
its close `RemoveConnectionInLoop` back to that of the acceptor, and from there `ConnectDestroyed` to
its own loop again. `RunInLoop` calls the first two at once if the loops coincide; `ConnectDestroyed`
is queued in any case.

Every such call is written to a log, with the loop it runs on. What happens to a connection is at any
time the beginning of one and the same list of five entries (`hand_over`). -/

namespace MuduoCpp11.Net

open MuduoCpp11.Lib

namespace TcpServer

inductive Functor where
  | connectEstablished (conn : Connection)
  | removeConnectionInLoop (conn : Connection)
  | connectDestroyed (conn : Connection)
  | forceCloseInLoop (conn : Connection)
  deriving DecidableEq, Repr

/-- `asserted`: the assertion on `state_` or on the mask of the channel holds; `n` is the number of
entries erased from the map. -/
inductive Event where
  | newConnection (conn : Connection) (loop : ℕ)
  | connectEstablished (conn : Connection) (loop : ℕ) (asserted : Bool)
  | handleClose (conn : Connection) (loop : ℕ) (asserted : Bool)
  | removeConnectionInLoop (conn : Connection) (loop n : ℕ)
  | connectDestroyed (conn : Connection) (loop : ℕ) (asserted : Bool)
  deriving DecidableEq, Repr

def Functor.conn : Functor → Connection
  | .connectEstablished conn | .removeConnectionInLoop conn | .connectDestroyed conn
  | .forceCloseInLoop conn => conn

def Event.conn : Event → Connection
  | .newConnection conn _ | .connectEstablished conn _ _ | .handleClose conn _ _
  | .removeConnectionInLoop conn _ _ | .connectDestroyed conn _ _ => conn

/-- What the hand-over reads and writes of a `TcpConnection`. -/
structure Peer where
  loop : ℕ := 0
  state : StateE := .kConnecting
  channel : Channel := { fd := 0 }

def Peer.isOpen (p : Peer) : Bool := p.state = .kConnected ∨ p.state = .kDisconnecting

/-- Loop `0` is that of the acceptor, the IO loops are `1`, ..., `numThreads`. -/
structure Loops where
  server : TcpServer
  numThreads : ℕ
  next : ℕ := 0
  loops : ℕ → EventLoop Functor := fun _ => {}
  peers : Connection → Peer := fun _ => {}
  log : List Event := []

namespace Loops

def new (listenAddr : InetAddress) (name : List Char) (numThreads : ℕ) : Loops where
  server := .new listenAddr name
  numThreads := numThreads

section
variable (s : Loops)

def emit (e : Event) : Loops := { s with log := s.log ++ [e] }

def setPeer (conn : Connection) (p : Peer) : Loops :=
  { s with peers := Function.update s.peers conn p }

def setLoop (k : ℕ) (loop : EventLoop Functor) : Loops :=
  { s with loops := Function.update s.loops k loop }

/-- `QueueInLoop` of loop `k`, called on the thread of loop `caller`. -/
def queueInLoop (caller k : ℕ) (f : Functor) : Loops :=
  s.setLoop k ((s.loops k).queueInLoop (caller = k) f)

def getNextLoop : ℕ × Loops :=
  if s.numThreads = 0 then (0, s)
  else (s.next + 1, { s with next := if s.next + 1 ≥ s.numThreads then 0 else s.next + 1 })

/-! ### The functions, on the thread of loop `k` -/

def connectEstablished (k : ℕ) (conn : Connection) : Loops :=
  let p := s.peers conn
  (s.emit (.connectEstablished conn k (p.state = .kConnecting))).setPeer conn
    { p with state := .kConnected, channel := p.channel.tie.enableReading }

def connectDestroyed (k : ℕ) (conn : Connection) : Loops :=
  let p := s.peers conn
  let p := if p.state = .kConnected then
    { p with state := .kDisconnected, channel := p.channel.disableAll } else p
  (s.emit (.connectDestroyed conn k p.channel.isNoneEvent)).setPeer conn
    { p with channel := p.channel.remove }

/-- `RemoveConnectionInLoop`, up to the functor. -/
def eraseConnection (k : ℕ) (conn : Connection) : Loops :=
  let (n, server) := s.server.removeConnectionInLoop conn
  { s with server }.emit (.removeConnectionInLoop conn k n)

def removeConnectionInLoop (k : ℕ) (conn : Connection) : Loops :=
  (s.eraseConnection k conn).queueInLoop k (s.peers conn).loop (.connectDestroyed conn)

def removeConnection (k : ℕ) (conn : Connection) : Loops :=
  if k = 0 then s.removeConnectionInLoop k conn
  else s.queueInLoop k 0 (.removeConnectionInLoop conn)

/-- `HandleClose`, up to the callbacks. -/
def setDisconnected (k : ℕ) (conn : Connection) : Loops :=
  let p := s.peers conn
  (s.emit (.handleClose conn k p.isOpen)).setPeer conn
    { p with state := .kDisconnected, channel := p.channel.disableAll }

def handleClose (k : ℕ) (conn : Connection) : Loops :=
  (s.setDisconnected k conn).removeConnection k conn

def forceCloseInLoop (k : ℕ) (conn : Connection) : Loops :=
  if (s.peers conn).isOpen then s.handleClose k conn else s

def shutdown (conn : Connection) : Loops :=
  let p := s.peers conn
  if p.state = .kConnected then s.setPeer conn { p with state := .kDisconnecting } else s

def forceClose (conn : Connection) : Loops :=
  let p := s.peers conn
  if p.isOpen then
    (s.setPeer conn { p with state := .kDisconnecting }).queueInLoop p.loop p.loop
      (.forceCloseInLoop conn)
  else s

/-- The connection that the next call of `NewConnection` makes. -/
def nextConnection : Connection := ⟨s.server.nextConnId, s.server.connName s.server.nextConnId⟩

/-- The connection is made and entered into the map. -/
def insertConnection (ioLoop : ℕ) : Loops :=
  ({ s with server := s.server.newConnection }.setPeer s.nextConnection { loop := ioLoop }).emit
    (.newConnection s.nextConnection 0)

def newConnection : Loops :=
  let (ioLoop, s) := s.getNextLoop
  let conn := s.nextConnection
  let s := s.insertConnection ioLoop
  if ioLoop = 0 then s.connectEstablished 0 conn
  else s.queueInLoop 0 ioLoop (.connectEstablished conn)

def runFunctor (k : ℕ) : Functor → Loops
  | .connectEstablished conn => s.connectEstablished k conn
  | .removeConnectionInLoop conn => s.removeConnectionInLoop k conn
  | .connectDestroyed conn => s.connectDestroyed k conn
  | .forceCloseInLoop conn => s.forceCloseInLoop k conn

end

/-- The acceptor has a connection, a connection is closed by an event of its channel, the user calls
`Shutdown` or `ForceClose` on the loop of a connection, and a loop goes through its functors. -/
inductive Act where
  | newConnection
  | close (conn : Connection)
  | shutdown (conn : Connection)
  | forceClose (conn : Connection)
  | beginFunctors (k : ℕ)
  | functor (k : ℕ)
  | endFunctors (k : ℕ)
  deriving DecidableEq, Repr

/-- The poller of a loop reports events of a channel that is interested in some. -/
def step (s : Loops) : Act → Option Loops
  | .newConnection =>
    if (s.loops 0).callingPendingFunctors = false ∧ s.server.nextConnId < INT_MAX then
      some s.newConnection
    else none
  | .close conn =>
    if conn ∈ s.server.accepted ∧ (s.loops (s.peers conn).loop).callingPendingFunctors = false ∧
        (s.peers conn).channel.events ≠ kNoneEvent then
      some (s.handleClose (s.peers conn).loop conn)
    else none
  | .shutdown conn => if conn ∈ s.server.accepted then some (s.shutdown conn) else none
  | .forceClose conn => if conn ∈ s.server.accepted then some (s.forceClose conn) else none
  | .beginFunctors k => (s.loops k).beginFunctors.map (s.setLoop k)
  | .functor k => (s.loops k).nextFunctor.map fun r => (s.setLoop k r.2).runFunctor k r.1
  | .endFunctors k => (s.loops k).endFunctors.map (s.setLoop k)

def run : Loops → List Act → Option Loops := Run.run step

/-! ### One connection -/

/-- The life of a connection of the loop `ioLoop`. -/
def life (conn : Connection) (ioLoop : ℕ) : List Event :=
  [.newConnection conn 0, .connectEstablished conn ioLoop true, .handleClose conn ioLoop true,
    .removeConnectionInLoop conn 0 1, .connectDestroyed conn ioLoop true]

/-- The functors by which the connection is handed over. -/
def HandsOver (conn : Connection) (f : Functor) : Prop :=
  f = .connectEstablished conn ∨ f = .removeConnectionInLoop conn ∨ f = .connectDestroyed conn

/-- How often a functor is queued in loop `k`, with `n` entries of the connection's life behind it. -/
def due (ioLoop n k : ℕ) : Functor → ℕ
  | .connectEstablished _ => if n = 1 ∧ k = ioLoop then 1 else 0
  | .removeConnectionInLoop _ => if n = 3 ∧ k = 0 then 1 else 0
  | .connectDestroyed _ => if n = 4 ∧ k = ioLoop then 1 else 0
  | .forceCloseInLoop _ => 0

section
variable (s : Loops)

/-- What has happened to a connection. -/
def history (conn : Connection) : List Event := s.log.filter fun e => e.conn = conn

def pending (k : ℕ) (f : Functor) : ℕ := (s.loops k).queued.count f

end

/-- The first `n` entries of the life of the connection have happened. -/
structure Core (s : Loops) (conn : Connection) (n : ℕ) : Prop where
  history : s.history conn = (life conn (s.peers conn).loop).take n
  accepted : conn ∈ s.server.accepted ↔ 0 < n
  kConnecting : n ≤ 1 → (s.peers conn).state = .kConnecting
  isOpen : n = 2 → (s.peers conn).isOpen = true
  kDisconnected : 2 < n → (s.peers conn).state = .kDisconnected
  events : n ≠ 2 → (s.peers conn).channel.events = kNoneEvent
  entry : s.server.connections conn.name = some conn ↔ 0 < n ∧ n ≤ 3
  forced : ∀ k, s.pending k (.forceCloseInLoop conn) ≠ 0 → 0 < n ∧ k = (s.peers conn).loop

/-- And the functor that leads on is queued, once. -/
structure At (s : Loops) (conn : Connection) (n : ℕ) : Prop extends Core s conn n where
  le : n ≤ 5
  queued : ∀ k f, HandsOver conn f → s.pending k f = due (s.peers conn).loop n k f

/-- Or it has been taken from the queue, and is called. -/
structure Called (s : Loops) (conn : Connection) (n : ℕ) : Prop extends Core s conn n where
  queued : ∀ k f, HandsOver conn f → s.pending k f = 0

section
variable {s s' s'' : Loops} {conn d : Connection} {f g : Functor} {loop : EventLoop Functor}
  {ioLoop n k : ℕ}

/-! ### Functors -/

theorem HandsOver.conn_eq (hf : HandsOver conn f) : f.conn = conn := by
  rcases hf with rfl | rfl | rfl
  · rfl
  · rfl
  · rfl

theorem HandsOver.ne_forceCloseInLoop (hf : HandsOver conn f) : f ≠ .forceCloseInLoop conn := by
  rcases hf with rfl | rfl | rfl
  · nofun
  · nofun
  · nofun

theorem handsOver_or (f : Functor) : HandsOver f.conn f ∨ f = .forceCloseInLoop f.conn := by
  cases f <;> simp [HandsOver, Functor.conn]

theorem due_eq_zero (hn : n ≠ 1 ∧ n ≠ 3 ∧ n ≠ 4) (f : Functor) : due ioLoop n k f = 0 := by
  cases f <;> simp [due, hn]

theorem due_le_one (ioLoop n k : ℕ) (f : Functor) : due ioLoop n k f ≤ 1 := by
  cases f with
  | forceCloseInLoop conn => exact Nat.zero_le _
  | _ =>
    simp only [due]
    split_ifs
    · exact le_rfl
    · exact Nat.zero_le _

/-- At most one functor is due. -/
theorem due_unique (hf : HandsOver conn f) (hg : HandsOver conn g) (h : due ioLoop n k f = 1)
    (j : ℕ) : due ioLoop n j g = if j = k ∧ f = g then 1 else 0 := by
  rcases hf with rfl | rfl | rfl <;> simp only [due, ite_eq_left_iff] at h <;>
    rcases hg with rfl | rfl | rfl <;> simp_all [due]

theorem pending_setLoop (s : Loops) (k j : ℕ) (loop : EventLoop Functor) (g : Functor) :
    (s.setLoop k loop).pending j g = if j = k then loop.queued.count g else s.pending j g := by
  change ((Function.update s.loops k loop) j).queued.count g = _
  split_ifs with hj
  · rw [hj, Function.update_self]
  · rw [Function.update_of_ne hj, pending]

theorem pending_queueInLoop (s : Loops) (caller k j : ℕ) (f g : Functor) :
    (s.queueInLoop caller k f).pending j g = s.pending j g + if j = k ∧ f = g then 1 else 0 := by
  unfold Loops.queueInLoop
  rw [pending_setLoop, EventLoop.queued_queueInLoop]
  by_cases hj : j = k
  · rw [hj]
    simp [pending, List.count_singleton, beq_iff_eq]
  · simp [hj]

/-- Loop `k` takes a functor from its queue. -/
theorem pending_nextFunctor (h : (s.loops k).nextFunctor = some (f, loop)) (j : ℕ) (g : Functor) :
    s.pending j g = (s.setLoop k loop).pending j g + if j = k ∧ f = g then 1 else 0 := by
  rw [pending_setLoop]
  by_cases hj : j = k
  · rw [hj, pending, EventLoop.queued_nextFunctor h]
    simp [List.count_cons, beq_iff_eq]
  · simp [hj]

/-! ### The others -/

/-- Nothing has happened to connection `d`. -/
structure Same (s s' : Loops) (d : Connection) : Prop where
  history : s'.history d = s.history d
  peers : s'.peers d = s.peers d
  accepted : d ∈ s'.server.accepted ↔ d ∈ s.server.accepted
  entry : s'.server.connections d.name = some d ↔ s.server.connections d.name = some d
  queued : ∀ k f, f.conn = d → s'.pending k f = s.pending k f

theorem Same.refl (s : Loops) (d : Connection) : Same s s d :=
  ⟨rfl, rfl, Iff.rfl, Iff.rfl, fun _ _ _ => rfl⟩

theorem Same.trans (h : Same s s' d) (h' : Same s' s'' d) : Same s s'' d where
  history := h'.history.trans h.history
  peers := h'.peers.trans h.peers
  accepted := h'.accepted.trans h.accepted
  entry := h'.entry.trans h.entry
  queued k f hf := (h'.queued k f hf).trans (h.queued k f hf)

theorem Core.congr (h : Core s d n) (hs : Same s s' d) : Core s' d n where
  history := by rw [hs.history, hs.peers, h.history]
  accepted := hs.accepted.trans h.accepted
  kConnecting := by rw [hs.peers]; exact h.kConnecting
  isOpen := by rw [hs.peers]; exact h.isOpen
  kDisconnected := by rw [hs.peers]; exact h.kDisconnected
  events := by rw [hs.peers]; exact h.events
  entry := hs.entry.trans h.entry
  forced k := by rw [hs.queued k _ rfl, hs.peers]; exact h.forced k

theorem At.congr (h : At s d n) (hs : Same s s' d) : At s' d n where
  toCore := h.toCore.congr hs
  le := h.le
  queued k f hf := by rw [hs.queued k f hf.conn_eq, hs.peers, h.queued k f hf]

theorem same_emit {e : Event} (he : e.conn ≠ d) : Same s (s.emit e) d := by
  refine ⟨?_, rfl, Iff.rfl, Iff.rfl, fun _ _ _ => rfl⟩
  simp [Loops.history, Loops.emit, he]

theorem same_setPeer (hne : d ≠ conn) (p : Peer) : Same s (s.setPeer conn p) d :=
  ⟨rfl, Function.update_of_ne hne _ _, Iff.rfl, Iff.rfl, fun _ _ _ => rfl⟩

theorem same_setLoop (h : ∀ j g, g.conn = d → (s.setLoop k loop).pending j g = s.pending j g) :
    Same s (s.setLoop k loop) d :=
  ⟨rfl, rfl, Iff.rfl, Iff.rfl, h⟩

theorem same_of_queued (h : loop.queued = (s.loops k).queued) : Same s (s.setLoop k loop) d := by
  refine same_setLoop fun j g _ => ?_
  rw [pending_setLoop, h]
  split_ifs with hj
  · rw [hj, pending]
  · rfl

theorem same_queueInLoop (hf : f.conn ≠ d) (caller k : ℕ) :
    Same s (s.queueInLoop caller k f) d := by
  refine same_setLoop fun j g hg => ?_
  have hfg : ¬ (j = k ∧ f = g) := by
    rintro ⟨-, rfl⟩
    exact hf hg
  exact (pending_queueInLoop s caller k j f g).trans (by rw [if_neg hfg, Nat.add_zero])

theorem same_nextFunctor (h : (s.loops k).nextFunctor = some (f, loop)) (hf : f.conn ≠ d) :
    Same s (s.setLoop k loop) d := by
  refine same_setLoop fun j g hg => ?_
  have hfg : ¬ (j = k ∧ f = g) := by
    rintro ⟨-, rfl⟩
    exact hf hg
  rw [pending_nextFunctor h, if_neg hfg, Nat.add_zero]

/-! ### The queue -/

theorem At.called (h : At s conn n) (hn : n ≠ 1 ∧ n ≠ 3 ∧ n ≠ 4) : Called s conn n :=
  ⟨h.toCore, fun k f hf => (h.queued k f hf).trans (due_eq_zero hn f)⟩

theorem Called.at (h : Called s conn n) (hle : n ≤ 5) (hn : n ≠ 1 ∧ n ≠ 3 ∧ n ≠ 4) : At s conn n :=
  ⟨h.toCore, hle, fun k f hf => (h.queued k f hf).trans (due_eq_zero hn f).symm⟩

theorem Core.setLoop (h : Core s conn n)
    (hf : ∀ j, (s.setLoop k loop).pending j (.forceCloseInLoop conn) ≠ 0 →
      0 < n ∧ j = (s.peers conn).loop) : Core (s.setLoop k loop) conn n :=
  ⟨h.history, h.accepted, h.kConnecting, h.isOpen, h.kDisconnected, h.events, h.entry, hf⟩

/-- The functor that leads on is queued. -/
theorem Called.queueInLoop (h : Called s conn n) (hle : n ≤ 5) (hf : HandsOver conn f)
    (hdue : due (s.peers conn).loop n k f = 1) (caller : ℕ) :
    At (s.queueInLoop caller k f) conn n where
  toCore := by
    refine h.toCore.setLoop fun j hj => h.forced j ?_
    have hpending := pending_queueInLoop s caller k j f (.forceCloseInLoop conn)
    rw [if_neg fun h => hf.ne_forceCloseInLoop h.2, Nat.add_zero] at hpending
    exact hpending ▸ hj
  le := hle
  queued j g hg := by
    rw [pending_queueInLoop, h.queued j g hg, Nat.zero_add]
    exact (due_unique hf hg hdue j).symm

/-- A functor that is taken from a queue is the one that leads on. -/
theorem At.taken (h : At s conn n) (hf : HandsOver conn f)
    (hnext : (s.loops k).nextFunctor = some (f, loop)) :
    due (s.peers conn).loop n k f = 1 ∧ Called (s.setLoop k loop) conn n := by
  have hdue : due (s.peers conn).loop n k f = 1 := by
    have hpending := pending_nextFunctor hnext k f
    have hle := due_le_one (s.peers conn).loop n k f
    rw [h.queued k f hf, if_pos ⟨rfl, rfl⟩] at hpending
    omega
  refine ⟨hdue, h.toCore.setLoop fun j hj => h.forced j ?_, fun j g hg => ?_⟩
  · rw [pending_nextFunctor hnext]
    omega
  · have hpending := pending_nextFunctor hnext j g
    rw [h.queued j g hg, due_unique hf hg hdue] at hpending
    omega

/-! ### One connection moves on -/

theorem history_emit {e : Event} (he : e.conn = conn) :
    (s.emit e).history conn = s.history conn ++ [e] := by
  simp [Loops.history, Loops.emit, he]

@[simp] theorem peers_setPeer (s : Loops) (conn : Connection) (p : Peer) :
    (s.setPeer conn p).peers conn = p :=
  Function.update_self ..

@[simp] theorem peers_emit (s : Loops) (e : Event) : (s.emit e).peers = s.peers := rfl

theorem Core.eq_two (h : Core s conn n) (hopen : (s.peers conn).isOpen = true) : n = 2 := by
  by_contra hn
  rcases Nat.lt_or_gt_of_ne hn with hlt | hgt
  · simp [Peer.isOpen, h.kConnecting (by omega)] at hopen
  · simp [Peer.isOpen, h.kDisconnected hgt] at hopen

theorem Called.insertConnection (h : Called s s.nextConnection 0) (ioLoop : ℕ) :
    Called (s.insertConnection ioLoop) s.nextConnection 1 where
  history := by
    have hlog : (s.insertConnection ioLoop).history s.nextConnection =
        s.history s.nextConnection ++ [.newConnection s.nextConnection 0] := history_emit rfl
    rw [hlog, h.history]
    rfl
  accepted := by simp [Loops.insertConnection, Loops.emit, Loops.setPeer, TcpServer.newConnection,
    Loops.nextConnection]
  kConnecting _ := by simp [Loops.insertConnection]
  isOpen := by omega
  kDisconnected := by omega
  events _ := by simp [Loops.insertConnection]
  entry := by simp [Loops.insertConnection, Loops.emit, Loops.setPeer, TcpServer.newConnection,
    Loops.nextConnection]
  forced j hj := absurd (h.forced j hj).1 (lt_irrefl 0)
  queued := h.queued

theorem Called.connectEstablished (h : Called s conn 1) (hk : k = (s.peers conn).loop) :
    Called (s.connectEstablished k conn) conn 2 where
  history := by
    have hlog : (s.connectEstablished k conn).history conn = s.history conn ++
        [.connectEstablished conn k ((s.peers conn).state = .kConnecting)] := history_emit rfl
    rw [hlog, h.history, h.kConnecting le_rfl]
    simp [Loops.connectEstablished, life, hk]
  accepted := h.accepted.trans (by simp)
  kConnecting := by omega
  isOpen _ := by simp [Loops.connectEstablished, Peer.isOpen]
  kDisconnected := by omega
  events := by omega
  entry := h.entry.trans (by simp)
  forced j hj := ⟨by omega, by simpa [Loops.connectEstablished] using (h.forced j hj).2⟩
  queued := h.queued

theorem Called.setDisconnected (h : Called s conn 2) (hk : k = (s.peers conn).loop) :
    Called (s.setDisconnected k conn) conn 3 where
  history := by
    have hlog : (s.setDisconnected k conn).history conn =
        s.history conn ++ [.handleClose conn k (s.peers conn).isOpen] := history_emit rfl
    rw [hlog, h.history, h.isOpen rfl]
    simp [Loops.setDisconnected, life, hk]
  accepted := h.accepted.trans (by simp)
  kConnecting := by omega
  isOpen := by omega
  kDisconnected _ := by simp [Loops.setDisconnected]
  events _ := by simp [Loops.setDisconnected, Channel.disableAll, Channel.setEvents]
  entry := h.entry.trans (by simp)
  forced j hj := ⟨by omega, by simpa [Loops.setDisconnected] using (h.forced j hj).2⟩
  queued := h.queued

/-- The map has the connection. -/
theorem Called.eraseConnection (h : Called s conn 3) : Called (s.eraseConnection 0 conn) conn 4 where
  history := by
    have hentry : s.server.connections conn.name = some conn := h.entry.mpr (by simp)
    have hlog : (s.eraseConnection 0 conn).history conn = s.history conn ++
        [.removeConnectionInLoop conn 0 (s.server.removeConnectionInLoop conn).1] := history_emit rfl
    rw [hlog, h.history]
    simp [Loops.eraseConnection, TcpServer.removeConnectionInLoop, hentry, life]
  accepted := h.accepted.trans (by simp)
  kConnecting := by omega
  isOpen := by omega
  kDisconnected _ := h.kDisconnected (by omega)
  events _ := h.events (by omega)
  entry := by simp [Loops.eraseConnection, Loops.emit, TcpServer.removeConnectionInLoop]
  forced j hj := ⟨by omega, (h.forced j hj).2⟩
  queued := h.queued

theorem Called.connectDestroyed (h : Called s conn 4) (hk : k = (s.peers conn).loop) :
    Called (s.connectDestroyed k conn) conn 5 := by
  have hstate : (s.peers conn).state = .kDisconnected := h.kDisconnected (by omega)
  have hevents : (s.peers conn).channel.events = kNoneEvent := h.events (by omega)
  have heq : s.connectDestroyed k conn = (s.emit (.connectDestroyed conn k true)).setPeer conn
      { s.peers conn with channel := (s.peers conn).channel.remove } := by
    simp [Loops.connectDestroyed, hstate, Channel.isNoneEvent, hevents]
  have hlog : (s.connectDestroyed k conn).history conn =
      s.history conn ++ [.connectDestroyed conn k true] := by
    rw [heq]
    exact history_emit rfl
  have hpeers : (s.connectDestroyed k conn).peers conn =
      { s.peers conn with channel := (s.peers conn).channel.remove } := by
    rw [heq, peers_setPeer]
  exact {
    history := by rw [hlog, h.history, hpeers, hk]; rfl
    accepted := h.accepted.trans (by simp)
    kConnecting := by omega
    isOpen := by omega
    kDisconnected := fun _ => by rw [hpeers]; exact hstate
    events := fun _ => by rw [hpeers]; exact hevents
    entry := h.entry.trans (by simp)
    forced := fun j hj => ⟨by omega, by rw [hpeers]; exact (h.forced j hj).2⟩
    queued := h.queued }

theorem Called.removeConnectionInLoop (h : Called s conn 3) :
    At (s.removeConnectionInLoop 0 conn) conn 4 :=
  h.eraseConnection.queueInLoop (by omega) (Or.inr (Or.inr rfl)) (if_pos ⟨rfl, rfl⟩) 0

/-- A close is the last step of the connection's on its own loop, or the way back is queued. -/
theorem Called.handleClose (h : Called s conn 2) (hk : k = (s.peers conn).loop) :
    ∃ m, At (s.handleClose k conn) conn m := by
  have hclosed := h.setDisconnected hk
  unfold Loops.handleClose Loops.removeConnection
  split_ifs with h0
  · rw [h0] at hclosed ⊢
    exact ⟨4, hclosed.removeConnectionInLoop⟩
  · exact ⟨3, hclosed.queueInLoop (by omega) (Or.inr (Or.inl rfl)) (if_pos ⟨rfl, rfl⟩) k⟩

/-! ### The user -/

theorem At.setDisconnecting (h : At s conn n) (hopen : (s.peers conn).isOpen = true) :
    At (s.setPeer conn { s.peers conn with state := .kDisconnecting }) conn n := by
  obtain rfl := h.eq_two hopen
  exact {
    history := by rw [peers_setPeer]; exact h.history
    accepted := h.accepted
    kConnecting := by omega
    isOpen := fun _ => by simp [Peer.isOpen]
    kDisconnected := by omega
    events := by omega
    entry := h.entry
    forced := by rw [peers_setPeer]; exact h.forced
    le := h.le
    queued := by rw [peers_setPeer]; exact h.queued }

theorem At.shutdown (h : At s conn n) : At (s.shutdown conn) conn n := by
  unfold Loops.shutdown
  dsimp only
  split_ifs with hc
  · exact h.setDisconnecting (by simp [Peer.isOpen, hc])
  · exact h

theorem At.queueForceClose (h : At s conn n) (hn : 0 < n) (caller : ℕ) :
    At (s.queueInLoop caller (s.peers conn).loop (.forceCloseInLoop conn)) conn n where
  toCore := by
    refine h.toCore.setLoop fun j hj => ?_
    by_cases hk : j = (s.peers conn).loop
    · exact ⟨hn, hk⟩
    · rw [pending_setLoop, if_neg hk] at hj
      exact h.forced j hj
  le := h.le
  queued j g hg := by
    rw [pending_queueInLoop, if_neg fun h => hg.ne_forceCloseInLoop h.2.symm]
    exact h.queued j g hg

theorem At.forceClose (h : At s conn n) : At (s.forceClose conn) conn n := by
  unfold Loops.forceClose
  dsimp only
  split_ifs with hopen
  · have hn := h.eq_two hopen
    have h' := (h.setDisconnecting hopen).queueForceClose (by omega) (s.peers conn).loop
    rwa [peers_setPeer] at h'
  · exact h

theorem At.takenForceClose (h : At s conn n)
    (hnext : (s.loops k).nextFunctor = some (.forceCloseInLoop conn, loop)) :
    k = (s.peers conn).loop ∧ At (s.setLoop k loop) conn n := by
  have hk : k = (s.peers conn).loop := by
    refine (h.forced k ?_).2
    rw [pending_nextFunctor hnext, if_pos ⟨rfl, rfl⟩]
    omega
  refine ⟨hk, ⟨h.toCore.setLoop fun j hj => h.forced j ?_, h.le, fun j g hg => ?_⟩⟩
  · rw [pending_nextFunctor hnext]
    omega
  · have hpending := pending_nextFunctor hnext j g
    rw [if_neg fun h => hg.ne_forceCloseInLoop h.2.symm] at hpending
    exact hpending.symm.trans (h.queued j g hg)

theorem At.forceCloseInLoop (h : At s conn n) (hk : k = (s.peers conn).loop) :
    ∃ m, At (s.forceCloseInLoop k conn) conn m := by
  unfold Loops.forceCloseInLoop
  split_ifs with hopen
  · obtain rfl := h.eq_two hopen
    exact (h.called (by omega)).handleClose hk
  · exact ⟨n, h⟩

/-! ### Steps -/

theorem At.runFunctor (h : At s f.conn n) (hnext : (s.loops k).nextFunctor = some (f, loop)) :
    ∃ m, At ((s.setLoop k loop).runFunctor k f) f.conn m := by
  cases f with
  | forceCloseInLoop conn =>
    obtain ⟨hk, h'⟩ := h.takenForceClose hnext
    exact h'.forceCloseInLoop hk
  | connectEstablished conn =>
    obtain ⟨hdue, h'⟩ := h.taken (Or.inl rfl) hnext
    obtain ⟨rfl, hk⟩ : n = 1 ∧ k = (s.peers conn).loop := by
      by_contra hn
      exact zero_ne_one ((if_neg hn).symm.trans hdue)
    exact ⟨2, (h'.connectEstablished hk).at (by omega) (by omega)⟩
  | removeConnectionInLoop conn =>
    obtain ⟨hdue, h'⟩ := h.taken (Or.inr (Or.inl rfl)) hnext
    obtain ⟨rfl, rfl⟩ : n = 3 ∧ k = 0 := by
      by_contra hn
      exact zero_ne_one ((if_neg hn).symm.trans hdue)
    exact ⟨4, h'.removeConnectionInLoop⟩
  | connectDestroyed conn =>
    obtain ⟨hdue, h'⟩ := h.taken (Or.inr (Or.inr rfl)) hnext
    obtain ⟨rfl, hk⟩ : n = 4 ∧ k = (s.peers conn).loop := by
      by_contra hn
      exact zero_ne_one ((if_neg hn).symm.trans hdue)
    exact ⟨5, (h'.connectDestroyed hk).at (by omega) (by omega)⟩

/-- No other connection has an entry under the name of `conn`. -/
def Alone (s : Loops) (conn d : Connection) : Prop :=
  s.server.connections d.name = some d → d.name ≠ conn.name

theorem same_connectEstablished (hne : conn ≠ d) (k : ℕ) :
    Same s (s.connectEstablished k conn) d := by
  refine Same.trans (same_emit ?_) (same_setPeer hne.symm _)
  exact hne

theorem same_connectDestroyed (hne : conn ≠ d) (k : ℕ) : Same s (s.connectDestroyed k conn) d := by
  refine Same.trans (same_emit ?_) (same_setPeer hne.symm _)
  exact hne

theorem same_server {server : TcpServer} (ha : d ∈ server.accepted ↔ d ∈ s.server.accepted)
    (he : server.connections d.name = some d ↔ s.server.connections d.name = some d) :
    Same s { s with server } d :=
  ⟨rfl, rfl, ha, he, fun _ _ _ => rfl⟩

theorem same_eraseConnection (hne : conn ≠ d) (ha : Alone s conn d) (k : ℕ) :
    Same s (s.eraseConnection k conn) d := by
  have hserver : Same s { s with server := (s.server.removeConnectionInLoop conn).2 } d := by
    refine same_server Iff.rfl ?_
    by_cases hd : d.name = conn.name
    · simp only [TcpServer.removeConnectionInLoop, hd, Function.update_self]
      exact ⟨by simp, fun he => absurd hd (ha (hd ▸ he))⟩
    · simp only [TcpServer.removeConnectionInLoop, Function.update_of_ne hd]
  exact hserver.trans (same_emit hne)

theorem same_removeConnectionInLoop (hne : conn ≠ d) (ha : Alone s conn d) (k : ℕ) :
    Same s (s.removeConnectionInLoop k conn) d := by
  refine (same_eraseConnection hne ha k).trans (same_queueInLoop ?_ _ _)
  exact hne

theorem same_handleClose (hne : conn ≠ d) (ha : Alone s conn d) (k : ℕ) :
    Same s (s.handleClose k conn) d := by
  have hclosed : Same s (s.setDisconnected k conn) d := by
    refine Same.trans (same_emit ?_) (same_setPeer hne.symm _)
    exact hne
  refine hclosed.trans ?_
  unfold Loops.handleClose Loops.removeConnection
  split_ifs
  · exact same_removeConnectionInLoop (s := s.setDisconnected k conn) hne ha k
  · refine same_queueInLoop ?_ k 0
    exact hne

theorem same_runFunctor (hne : f.conn ≠ d) (ha : Alone s f.conn d) (k : ℕ) :
    Same s (s.runFunctor k f) d := by
  cases f with
  | connectEstablished conn => exact same_connectEstablished hne k
  | removeConnectionInLoop conn => exact same_removeConnectionInLoop hne ha k
  | connectDestroyed conn => exact same_connectDestroyed hne k
  | forceCloseInLoop conn =>
    change Same s (s.forceCloseInLoop k conn) d
    unfold Loops.forceCloseInLoop
    split_ifs
    · exact same_handleClose hne ha k
    · exact Same.refl s d

theorem same_shutdown (hne : conn ≠ d) : Same s (s.shutdown conn) d := by
  unfold Loops.shutdown
  dsimp only
  split_ifs
  · exact same_setPeer hne.symm _
  · exact Same.refl s d

theorem same_forceClose (hne : conn ≠ d) : Same s (s.forceClose conn) d := by
  unfold Loops.forceClose
  dsimp only
  split_ifs
  · refine Same.trans (same_setPeer hne.symm _) (same_queueInLoop ?_ _ _)
    exact hne
  · exact Same.refl s d

theorem same_insertConnection (hne : s.nextConnection ≠ d) (ha : Alone s s.nextConnection d)
    (ioLoop : ℕ) : Same s (s.insertConnection ioLoop) d := by
  have hserver : Same s { s with server := s.server.newConnection } d := by
    refine same_server ?_ ?_
    · change d ∈ s.nextConnection :: _ ↔ _
      simp [hne.symm]
    · change Function.update s.server.connections s.nextConnection.name (some s.nextConnection)
        d.name = _ ↔ _
      by_cases hd : d.name = s.nextConnection.name
      · rw [hd, Function.update_self, ← hd]
        exact ⟨fun he => absurd (Option.some.inj he) hne, fun he => absurd hd (ha he)⟩
      · rw [Function.update_of_ne hd]
  exact (hserver.trans (same_setPeer hne.symm _)).trans (same_emit hne)

/-! ### Runs -/

/-- **The invariant**: connections are numbered, and each is somewhere in its life. -/
structure Inv (s : Loops) : Prop where
  numbered : ∀ conn ∈ s.server.accepted, conn.id < s.server.nextConnId
  located : ∀ conn, ∃ n, At s conn n

theorem inv_new (listenAddr : InetAddress) (name : List Char) (numThreads : ℕ) :
    Inv (new listenAddr name numThreads) where
  numbered := nofun
  located conn := by
    refine ⟨0, ⟨⟨rfl, ?_, fun _ => rfl, nofun, nofun, fun _ => rfl, ?_, ?_⟩, Nat.zero_le 5, ?_⟩⟩
    · simp [new, TcpServer.new]
    · simp [new, TcpServer.new]
    · intro k hk
      exact absurd rfl hk
    · intro k f _
      exact (due_eq_zero (by omega) f).symm

/-- Names tell the connections of the map apart. -/
theorem Inv.alone (h : Inv s) (hnames : (s.server.accepted.map Connection.name).Nodup)
    (hconn : conn ∈ s.server.accepted) (hne : conn ≠ d) : Alone s conn d := by
  intro hd hname
  obtain ⟨n, hn⟩ := h.located d
  have hmem : d ∈ s.server.accepted := hn.accepted.mpr (hn.entry.mp hd).1
  exact hne (List.inj_on_of_nodup_map hnames hconn hmem hname.symm)

/-- One connection moves on, the others stay where they are. -/
theorem Inv.move (h : Inv s) (hnum : ∀ conn ∈ s'.server.accepted, conn.id < s'.server.nextConnId)
    (hconn : ∃ m, At s' conn m) (hs : ∀ d, conn ≠ d → Same s s' d) : Inv s' where
  numbered := hnum
  located d := by
    by_cases hd : conn = d
    · exact hd ▸ hconn
    · obtain ⟨n, hn⟩ := h.located d
      exact ⟨n, hn.congr (hs d hd)⟩

/-- Only `NewConnection` adds connections. -/
def Keeps (s s' : Loops) : Prop :=
  s'.server.accepted = s.server.accepted ∧ s'.server.nextConnId = s.server.nextConnId

theorem keeps_handleClose (s : Loops) (k : ℕ) (conn : Connection) :
    Keeps s (s.handleClose k conn) := by
  unfold Loops.handleClose Loops.removeConnection
  split_ifs
  · exact ⟨rfl, rfl⟩
  · exact ⟨rfl, rfl⟩

theorem keeps_runFunctor (s : Loops) (k : ℕ) (f : Functor) : Keeps s (s.runFunctor k f) := by
  cases f with
  | forceCloseInLoop conn =>
    change Keeps s (s.forceCloseInLoop k conn)
    unfold Loops.forceCloseInLoop
    split_ifs
    · exact keeps_handleClose s k conn
    · exact ⟨rfl, rfl⟩
  | _ => exact ⟨rfl, rfl⟩

theorem keeps_shutdown (s : Loops) (conn : Connection) : Keeps s (s.shutdown conn) := by
  unfold Loops.shutdown
  dsimp only
  split_ifs
  · exact ⟨rfl, rfl⟩
  · exact ⟨rfl, rfl⟩

theorem keeps_forceClose (s : Loops) (conn : Connection) : Keeps s (s.forceClose conn) := by
  unfold Loops.forceClose
  dsimp only
  split_ifs
  · exact ⟨rfl, rfl⟩
  · exact ⟨rfl, rfl⟩

theorem Inv.keep (h : Inv s) (hkeeps : Keeps s s') (hconn : ∃ m, At s' conn m)
    (hs : ∀ d, conn ≠ d → Same s s' d) : Inv s' := by
  refine h.move (fun conn hconn => ?_) hconn hs
  rw [hkeeps.1] at hconn
  rw [hkeeps.2]
  exact h.numbered conn hconn

/-- Between the functors nothing happens to any connection. -/
theorem Inv.requeue (h : Inv s) (hloop : loop.queued = (s.loops k).queued) :
    Inv (s.setLoop k loop) where
  numbered := h.numbered
  located d := (h.located d).imp fun _ hn => hn.congr (same_of_queued hloop)

/-- A functor in a queue belongs to a connection that has been accepted. -/
theorem At.accepted_of_next (h : At s f.conn n)
    (hnext : (s.loops k).nextFunctor = some (f, loop)) : f.conn ∈ s.server.accepted := by
  refine h.accepted.mpr ?_
  rcases handsOver_or f with hf | hf
  · by_contra hn
    have hdue := (h.taken hf hnext).1
    rw [due_eq_zero (by omega)] at hdue
    omega
  · refine (h.forced k ?_).1
    rw [pending_nextFunctor hnext, if_pos ⟨rfl, hf⟩]
    omega

theorem Inv.insertConnection (h : Inv s)
    (hnames : ((s.nextConnection :: s.server.accepted).map Connection.name).Nodup) (i : ℕ) :
    Called (s.insertConnection i) s.nextConnection 1 ∧
      ∀ d, s.nextConnection ≠ d → Same s (s.insertConnection i) d := by
  have hfresh : s.nextConnection ∉ s.server.accepted := fun hmem =>
    lt_irrefl _ (h.numbered _ hmem)
  obtain ⟨n, hn⟩ := h.located s.nextConnection
  obtain rfl : n = 0 := by
    by_contra hne
    exact hfresh (hn.accepted.mpr (by omega))
  refine ⟨(hn.called (by omega)).insertConnection i, fun d hne => ?_⟩
  refine same_insertConnection hne (fun hd hname => ?_) i
  obtain ⟨m, hm⟩ := h.located d
  have hmem : d ∈ s.server.accepted := hm.accepted.mpr (hm.entry.mp hd).1
  exact (List.nodup_cons.mp hnames).1 (hname ▸ List.mem_map_of_mem hmem)

theorem getNextLoop_eq (s : Loops) : ∃ ioLoop i, s.getNextLoop = (ioLoop, { s with next := i }) := by
  unfold getNextLoop
  split_ifs
  · exact ⟨0, s.next, rfl⟩
  · exact ⟨s.next + 1, 0, rfl⟩
  · exact ⟨s.next + 1, s.next + 1, rfl⟩

theorem accepted_newConnection (s : Loops) :
    s.newConnection.server.accepted = s.nextConnection :: s.server.accepted := by
  obtain ⟨ioLoop, i, hnext⟩ := getNextLoop_eq s
  unfold Loops.newConnection
  rw [hnext]
  dsimp only
  split_ifs
  · rfl
  · rfl

theorem Inv.newConnection (h : Inv s)
    (hnames : ((s.nextConnection :: s.server.accepted).map Connection.name).Nodup) :
    Inv s.newConnection := by
  obtain ⟨ioLoop, i, hnext⟩ := getNextLoop_eq s
  have hsame : ∀ d, Same s { s with next := i } d := fun d =>
    ⟨rfl, rfl, Iff.rfl, Iff.rfl, fun _ _ _ => rfl⟩
  have h₀ : Inv { s with next := i } :=
    ⟨h.numbered, fun d => (h.located d).imp fun n hn => hn.congr (hsame d)⟩
  obtain ⟨hcalled, hothers⟩ := h₀.insertConnection hnames ioLoop
  have hnum : ∀ conn ∈ s.nextConnection :: s.server.accepted,
      conn.id < s.server.nextConnId + 1 := by
    intro conn hconn
    rcases List.mem_cons.mp hconn with rfl | hmem
    · exact Nat.lt_succ_self _
    · exact (h.numbered conn hmem).trans (Nat.lt_succ_self _)
  unfold Loops.newConnection
  rw [hnext]
  dsimp only
  split_ifs with h0
  · refine h₀.move hnum ⟨2, (hcalled.connectEstablished ?_).at (by omega) (by omega)⟩
      fun d hd => (hothers d hd).trans (same_connectEstablished hd 0)
    simp [Loops.insertConnection, Loops.nextConnection, h0]
  · refine h₀.move hnum ⟨1, hcalled.queueInLoop (by omega) (Or.inl rfl) (if_pos ⟨rfl, ?_⟩) 0⟩
      fun d hd => (hothers d hd).trans (same_queueInLoop (f := .connectEstablished _) hd 0 ioLoop)
    simp [Loops.insertConnection, Loops.nextConnection]

theorem step_newConnection (hs : step s .newConnection = some s') : s' = s.newConnection := by
  simp only [Loops.step, Option.ite_none_right_eq_some, Option.some.injEq] at hs
  exact hs.2.symm

theorem step_keeps {a : Act} (hs : step s a = some s') (ha : a ≠ .newConnection) : Keeps s s' := by
  cases a with
  | newConnection => exact absurd rfl ha
  | close conn =>
    simp only [Loops.step, Option.ite_none_right_eq_some, Option.some.injEq] at hs
    exact hs.2 ▸ keeps_handleClose s _ conn
  | shutdown conn =>
    simp only [Loops.step, Option.ite_none_right_eq_some, Option.some.injEq] at hs
    exact hs.2 ▸ keeps_shutdown s conn
  | forceClose conn =>
    simp only [Loops.step, Option.ite_none_right_eq_some, Option.some.injEq] at hs
    exact hs.2 ▸ keeps_forceClose s conn
  | beginFunctors k =>
    obtain ⟨loop, -, rfl⟩ := Option.map_eq_some_iff.mp hs
    exact ⟨rfl, rfl⟩
  | functor k =>
    obtain ⟨⟨f, loop⟩, -, rfl⟩ := Option.map_eq_some_iff.mp hs
    exact keeps_runFunctor (s.setLoop k loop) k f
  | endFunctors k =>
    obtain ⟨loop, -, rfl⟩ := Option.map_eq_some_iff.mp hs
    exact ⟨rfl, rfl⟩

/-- The connections of before have different names too. -/
theorem names_of_step {a : Act} (hs : step s a = some s')
    (hnames : (s'.server.accepted.map Connection.name).Nodup) :
    (s.server.accepted.map Connection.name).Nodup := by
  by_cases ha : a = .newConnection
  · subst ha
    rw [step_newConnection hs, accepted_newConnection] at hnames
    exact (List.nodup_cons.mp hnames).2
  · exact (step_keeps hs ha).1 ▸ hnames

theorem Inv.step {a : Act} (h : Inv s) (hs : step s a = some s')
    (hnames : (s'.server.accepted.map Connection.name).Nodup) : Inv s' := by
  have hnames' := names_of_step hs hnames
  cases a with
  | newConnection =>
    obtain rfl := step_newConnection hs
    exact h.newConnection (accepted_newConnection s ▸ hnames)
  | close conn =>
    have hkeeps := step_keeps hs (by simp)
    simp only [Loops.step, Option.ite_none_right_eq_some, Option.some.injEq] at hs
    obtain ⟨⟨hmem, -, hevents⟩, rfl⟩ := hs
    obtain ⟨n, hn⟩ := h.located conn
    obtain rfl : n = 2 := by
      by_contra hne
      exact hevents (hn.events hne)
    exact h.keep hkeeps ((hn.called (by omega)).handleClose rfl) fun d hd =>
      same_handleClose hd (h.alone hnames' hmem hd) _
  | shutdown conn =>
    have hkeeps := step_keeps hs (by simp)
    simp only [Loops.step, Option.ite_none_right_eq_some, Option.some.injEq] at hs
    obtain ⟨-, rfl⟩ := hs
    obtain ⟨n, hn⟩ := h.located conn
    exact h.keep hkeeps ⟨n, hn.shutdown⟩ fun d hd => same_shutdown hd
  | forceClose conn =>
    have hkeeps := step_keeps hs (by simp)
    simp only [Loops.step, Option.ite_none_right_eq_some, Option.some.injEq] at hs
    obtain ⟨-, rfl⟩ := hs
    obtain ⟨n, hn⟩ := h.located conn
    exact h.keep hkeeps ⟨n, hn.forceClose⟩ fun d hd => same_forceClose hd
  | beginFunctors k =>
    obtain ⟨loop, hloop, rfl⟩ := Option.map_eq_some_iff.mp hs
    exact h.requeue (EventLoop.queued_beginFunctors hloop)
  | functor k =>
    have hkeeps := step_keeps hs (by simp)
    obtain ⟨⟨f, loop⟩, hnext, rfl⟩ := Option.map_eq_some_iff.mp hs
    obtain ⟨n, hn⟩ := h.located f.conn
    have hmem := hn.accepted_of_next hnext
    exact h.keep hkeeps (hn.runFunctor hnext) fun d hd =>
      (same_nextFunctor hnext hd).trans
        (same_runFunctor (s := s.setLoop k loop) hd (h.alone hnames' hmem hd) k)
  | endFunctors k =>
    obtain ⟨loop, hloop, rfl⟩ := Option.map_eq_some_iff.mp hs
    exact h.requeue (EventLoop.queued_endFunctors hloop)

theorem inv_of_run {listenAddr : InetAddress} {name : List Char} {numThreads : ℕ} {acts : List Act}
    (h : run (new listenAddr name numThreads) acts = some s)
    (hnames : (s.server.accepted.map Connection.name).Nodup) : Inv s := by
  refine Run.run_inv (P := fun s => (s.server.accepted.map Connection.name).Nodup → Inv s)
    (fun s a s' hs hi hnames => ?_) h (fun _ => inv_new listenAddr name numThreads) hnames
  exact (hi (names_of_step hs hnames)).step hs hnames

theorem mem_history {e : Event} : e ∈ s.history e.conn ↔ e ∈ s.log := by
  simp [Loops.history]

theorem At.mem_newConnection (h : At s conn n) : .newConnection conn 0 ∈ s.log ↔ 0 < n := by
  have hle := h.le
  rw [← mem_history]
  change Event.newConnection conn 0 ∈ s.history conn ↔ 0 < n
  rw [h.history]
  interval_cases n <;> simp [life]

theorem At.mem_removeConnectionInLoop (h : At s conn n) :
    (∃ k m, .removeConnectionInLoop conn k m ∈ s.log) ↔ 3 < n := by
  have hle := h.le
  have hmem : ∀ k m, .removeConnectionInLoop conn k m ∈ s.log ↔
      .removeConnectionInLoop conn k m ∈ (life conn (s.peers conn).loop).take n := fun k m => by
    rw [← h.history, ← mem_history, Event.conn]
  simp only [hmem]
  interval_cases n <;> simp [life]

/-- **The hand-over.** If the names of the connections are different, then in every run of the server's
loop and of the IO loops what happens to a connection is the beginning of its life: it is accepted on
the server's loop, `ConnectEstablished` runs on its own loop, there it is closed, and
`RemoveConnectionInLoop` runs on the server's loop and finds one entry, then `ConnectDestroyed` on the
connection's. Each of them runs at most once, and no assertion fails. The map has the connection from
`NewConnection` to `RemoveConnectionInLoop`. -/
theorem hand_over (listenAddr : InetAddress) (name : List Char) (numThreads : ℕ) (acts : List Act)
    (h : run (new listenAddr name numThreads) acts = some s)
    (hnames : (s.server.accepted.map Connection.name).Nodup) (conn : Connection) :
    s.history conn <+: life conn (s.peers conn).loop ∧
      (conn ∈ s.server.accepted ↔ .newConnection conn 0 ∈ s.log) ∧
      (s.server.connections conn.name = some conn ↔
        .newConnection conn 0 ∈ s.log ∧ ¬ ∃ k n, .removeConnectionInLoop conn k n ∈ s.log) := by
  obtain ⟨n, hn⟩ := (inv_of_run h hnames).located conn
  refine ⟨?_, hn.accepted.trans hn.mem_newConnection.symm, ?_⟩
  · rw [hn.history]
    exact List.take_prefix n _
  · rw [hn.entry, hn.mem_newConnection, hn.mem_removeConnectionInLoop]
    omega

/-- Two connections on one IO loop; the first one is closed and goes all the way. -/
theorem hand_over_of_two : ∃ conn s,
    run (new ⟨0, 0, 0, 0, 80⟩ ['s'] 1) [.newConnection, .newConnection, .beginFunctors 1, .functor 1,
      .functor 1, .endFunctors 1, .close conn, .beginFunctors 0, .functor 0, .endFunctors 0,
      .beginFunctors 1, .functor 1] = some s ∧
    (s.server.accepted.map Connection.name).Nodup ∧ s.history conn = life conn 1 ∧
    s.history conn <+: life conn (s.peers conn).loop ∧
    (conn ∈ s.server.accepted ↔ .newConnection conn 0 ∈ s.log) ∧
    (s.server.connections conn.name = some conn ↔
      .newConnection conn 0 ∈ s.log ∧ ¬ ∃ k n, .removeConnectionInLoop conn k n ∈ s.log) := by
  refine ⟨⟨1, "s:0.0.0.0:80#1".toList⟩, ?_⟩
  obtain ⟨s, hrun, hnames, hlife⟩ : ∃ s, run (new ⟨0, 0, 0, 0, 80⟩ ['s'] 1) [.newConnection,
      .newConnection, .beginFunctors 1, .functor 1, .functor 1, .endFunctors 1,
      .close ⟨1, "s:0.0.0.0:80#1".toList⟩, .beginFunctors 0, .functor 0, .endFunctors 0,
      .beginFunctors 1, .functor 1] = some s ∧ (s.server.accepted.map Connection.name).Nodup ∧
      s.history ⟨1, "s:0.0.0.0:80#1".toList⟩ = life ⟨1, "s:0.0.0.0:80#1".toList⟩ 1 :=
    ⟨_, rfl, by decide, by decide⟩
  exact ⟨s, hrun, hnames, hlife, hand_over _ _ _ _ hrun hnames _⟩

end

end Loops

end TcpServer

end MuduoCpp11.Net
