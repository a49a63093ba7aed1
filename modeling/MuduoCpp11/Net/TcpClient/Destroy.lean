import MuduoCpp11.Lib.Run
import MuduoCpp11.Net.EventLoop
import MuduoCpp11.Net.TcpConnection

/-! # Destroying the client of a connection

`~TcpClient` leaves its connection behind. It gives the connection another close callback, which needs
no client, and closes it if nobody else shares it; a connection that others share stays open. On the
loop thread the callback is set at once, on another one it is queued, and an event that closes the
connection in front of it calls the client that is gone.

With the client destroyed on the loop thread, be it in a callback of the connection, that does not
happen, and a connection that the client alone held is closed and removed from the poller before it is
destroyed (`left_behind`). One that was shared is so too, if those who share it keep it until it has
been closed; else it is destroyed open, with its channel in the poller (`kept_until_closed`).

Both need that no thread is inside of `Shutdown` or `ForceClose`, in front of its store, when the
connection is closed. Such a thread opens the connection again, and `ForceCloseInLoop` closes it a second
time, through a client that may be gone (`left_behind_overtaken`).

The user shares the connection by `users` pointers, whatever the thread. A thread that is in a call has
one of them. -/

namespace MuduoCpp11.Net

open MuduoCpp11.Lib

namespace ClientConnection

/-- The functors of the loop; each shares the connection. -/
inductive Functor where
  | setCloseCallback
  | forceCloseInLoop
  | connectDestroyed
  deriving DecidableEq, Repr

/-- Where `~TcpClient` is on another thread than that of the loop, and whether the client alone held the
connection. -/
inductive Dtor where
  | setCallback (unique : Bool)
  | test (unique : Bool)
  | store
  | push
  | leave
  deriving DecidableEq, Repr

end ClientConnection

/-- The connection of a client behind `ConnectEstablished`. `connection` is `connection_`, and `alive`
the client; `ownCallback`: the close callback is `TcpClient::RemoveConnection`. `registered`: the
channel reports events; `removed`: `ConnectDestroyed` has been called; `batch` are the functors that
have been called and are not yet destroyed.

`shutdowns` and `forceCloses` count the threads in `Shutdown` and in `ForceClose` that have tested `state_`
and have not stored it, and `pushes` those in `ForceClose` that have stored it. What `Shutdown` queues does
nothing here.

`closed`, `shared` and `dangling` are history: the connection has been closed; it was shared when the
destructor looked; `RemoveConnection` of a client that is gone has been called. -/
structure ClientConnection where
  state : StateE := .kConnected
  registered : Bool := true
  removed : Bool := false
  connection : Bool := true
  alive : Bool := true
  ownCallback : Bool := true
  loop : EventLoop ClientConnection.Functor := {}
  batch : List ClientConnection.Functor := []
  users : ℕ := 0
  shutdowns : ℕ := 0
  forceCloses : ℕ := 0
  pushes : ℕ := 0
  dtor : Option ClientConnection.Dtor := none
  destroyed : Bool := false
  closed : Bool := false
  shared : Bool := false
  dangling : Bool := false

namespace ClientConnection

def new : ClientConnection := {}

section
variable (s : ClientConnection)

/-- Pointers to the connection. -/
def refs : ℕ :=
  s.connection.toNat + (s.batch ++ s.loop.queued).length + s.users + s.dtor.isSome.toNat

/-- The threads in a call of the user's. -/
def inCalls : ℕ := s.shutdowns + s.forceCloses + s.pushes

def queueInLoop (f : Functor) : ClientConnection := { s with loop := s.loop.push f }

/-- The connection is open. -/
def isOpen : Bool := s.state = .kConnected ∨ s.state = .kDisconnecting

/-- The close callback: `TcpClient::RemoveConnection`, or `detail::RemoveConnection`. -/
def closeCallback : ClientConnection :=
  if s.ownCallback then
    if s.alive then { s with connection := false }.queueInLoop .connectDestroyed
    else { s with dangling := true }
  else s.queueInLoop .connectDestroyed

/-- `HandleClose`, up to the callbacks. -/
def setDisconnected : ClientConnection :=
  { s with state := .kDisconnected, registered := false, closed := true }

def connectDestroyed : ClientConnection :=
  let s := if s.state = .kConnected then { s with state := .kDisconnected, registered := false } else s
  { s with removed := true }

/-- `Shutdown` on the loop thread. -/
def shutdown : ClientConnection :=
  if s.state = .kConnected then { s with state := .kDisconnecting } else s

/-- `ForceClose` on the loop thread. -/
def forceClose : ClientConnection :=
  if s.isOpen then { s with state := .kDisconnecting }.queueInLoop .forceCloseInLoop else s

/-- `connection_.unique()`; `guarded`: an event of the connection is being handled, and shares it. -/
def unique (guarded : Bool) : Bool := s.refs = 1 ∧ guarded = false

/-- `set_close_callback`, and the note of who shares the connection. -/
def setCloseCallback (unique : Bool) : ClientConnection :=
  { s with ownCallback := false, shared := !unique }

/-- `~TcpClient` on the loop thread. -/
def destroyClient (guarded : Bool) : ClientConnection :=
  if s.connection then
    let unique := s.unique guarded
    let s := s.setCloseCallback unique
    let s := if unique then s.forceClose else s
    { s with connection := false, alive := false }
  else { s with alive := false }

/-- The connection callback of a close destroys the client, or does not. -/
def handleClose (destroys : Bool) : ClientConnection :=
  let s := s.setDisconnected
  let s := if destroys ∧ s.alive ∧ s.dtor = none then s.destroyClient true else s
  s.closeCallback

def runFunctor (destroys : Bool) : Functor → ClientConnection
  | .setCloseCallback => { s with ownCallback := false }
  | .forceCloseInLoop => if s.isOpen then s.handleClose destroys else s
  | .connectDestroyed => s.connectDestroyed

/-- The last pointer destroys the connection. -/
def settle : ClientConnection := { s with destroyed := s.destroyed || s.refs = 0 }

end

/-- `share` and `drop` are what the user does with pointers. `shutdown` and `forceClose` are calls of his up
to the test of `state_`, `storeShutdown`, `storeForceClose` and `pushForceClose` what follows, and
`loopShutdown` and `loopForceClose` calls on the loop thread. `close` is an event of the channel; its
connection callback, or that of a functor, destroys the client or does not. `destroy` is `~TcpClient` on
the loop thread, and `destroyElsewhere` on another one, up to the end of its section; `dtor` is its next
statement. -/
inductive Act where
  | share
  | drop
  | shutdown
  | storeShutdown
  | forceClose
  | storeForceClose
  | pushForceClose
  | loopShutdown
  | loopForceClose
  | close (destroys : Bool)
  | beginFunctors
  | functor (destroys : Bool)
  | endFunctors
  | destroy (guarded : Bool)
  | destroyElsewhere (guarded : Bool)
  | dtor
  deriving DecidableEq, Repr

section
variable (s : ClientConnection)

/-- The next statement of `~TcpClient` on another thread. -/
def execDtor : Dtor → ClientConnection
  | .setCallback unique =>
    { s.queueInLoop .setCloseCallback with dtor := some (if unique then .test unique else .leave) }
  | .test _ => { s with dtor := some (if s.isOpen then .store else .leave) }
  | .store => { s with state := .kDisconnecting, dtor := some .push }
  | .push => { s.queueInLoop .forceCloseInLoop with dtor := some .leave }
  | .leave => { s with connection := false, alive := false, dtor := none }

def exec : Act → Option ClientConnection
  | .share => if s.destroyed then none else some { s with users := s.users + 1 }
  | .drop => if s.inCalls < s.users then some { s with users := s.users - 1 } else none
  | .shutdown =>
    if s.inCalls < s.users then
      some (if s.state = .kConnected then { s with shutdowns := s.shutdowns + 1 } else s)
    else none
  | .storeShutdown =>
    if 0 < s.shutdowns then some { s with state := .kDisconnecting, shutdowns := s.shutdowns - 1 }
    else none
  | .forceClose =>
    if s.inCalls < s.users then
      some (if s.isOpen then { s with forceCloses := s.forceCloses + 1 } else s)
    else none
  | .storeForceClose =>
    if 0 < s.forceCloses then
      some { s with
        state := .kDisconnecting
        forceCloses := s.forceCloses - 1
        pushes := s.pushes + 1 }
    else none
  | .pushForceClose =>
    if 0 < s.pushes then some { s.queueInLoop .forceCloseInLoop with pushes := s.pushes - 1 } else none
  | .loopShutdown => if s.destroyed then none else some s.shutdown
  | .loopForceClose => if s.destroyed then none else some s.forceClose
  | .close destroys =>
    if s.registered ∧ s.destroyed = false ∧ s.loop.callingPendingFunctors = false then
      some (s.handleClose destroys)
    else none
  | .beginFunctors => s.loop.beginFunctors.map fun loop => { s with loop }
  | .functor destroys =>
    s.loop.nextFunctor.map fun r =>
      { s with loop := r.2, batch := s.batch ++ [r.1] }.runFunctor destroys r.1
  | .endFunctors => s.loop.endFunctors.map fun loop => { s with loop, batch := [] }
  | .destroy guarded =>
    if s.alive ∧ s.dtor = none then some (s.destroyClient guarded) else none
  | .destroyElsewhere guarded =>
    if s.alive ∧ s.dtor = none then
      if s.connection then
        let unique := s.unique guarded
        some { s with shared := !unique, dtor := some (.setCallback unique) }
      else some { s with alive := false }
    else none
  | .dtor => s.dtor.map s.execDtor

def step (act : Act) : Option ClientConnection := (s.exec act).map settle

end

def run : ClientConnection → List Act → Option ClientConnection := Run.run step

/-! ### The invariant -/

/-- What `~TcpClient` on another thread has seen to. -/
def DtorOk (s : ClientConnection) : Prop :=
  match s.dtor with
  | some (.setCallback unique) | some (.test unique) => unique = false → s.shared = true
  | some .leave => s.closed = true ∨ s.shared = true ∨ .forceCloseInLoop ∈ s.loop.queued
  | _ => True

/-- What holds inside of `HandleClose` too. -/
structure Base (s : ClientConnection) : Prop where
  isOpen : s.closed = false → s.isOpen = true
  destroyer : .connectDestroyed ∈ s.loop.queued → s.closed = true
  removed : s.removed = true → s.closed = true
  registered : s.registered = true → s.closed = false
  held : s.closed = false →
    s.connection = true ∨ s.shared = true ∨ .forceCloseInLoop ∈ s.loop.queued
  dtor : s.DtorOk

/-- What holds whoever destroys the connection. -/
structure Core (s : ClientConnection) : Prop extends Base s where
  removal : s.closed = true → s.dangling = false →
    s.removed = true ∨ .connectDestroyed ∈ s.loop.queued

/-- **The invariant.** -/
structure Inv (s : ClientConnection) : Prop extends Core s where
  sharing : s.inCalls ≤ s.users
  dead : s.destroyed = true ↔ s.refs = 0

variable {s s' : ClientConnection} {act : Act} {f g : Functor} {loop : EventLoop Functor}
variable {guarded destroys : Bool}

theorem refs_eq_zero : s.refs = 0 ↔
    s.connection = false ∧ s.batch = [] ∧ s.loop.queued = [] ∧ s.users = 0 ∧ s.dtor = none := by
  cases hc : s.connection with
  | true =>
    simp only [refs, hc, Bool.toNat_true, Bool.true_eq_false, false_and, iff_false]
    omega
  | false => simp [refs, hc, and_assoc]

theorem mem_queueInLoop : g ∈ (s.queueInLoop f).loop.queued ↔ g ∈ s.loop.queued ∨ g = f := by
  simp [queueInLoop, EventLoop.queued, EventLoop.push, or_assoc]

/-- What the destructor has seen to stays so. -/
theorem DtorOk.mono (h : s.DtorOk) (hdtor : s'.dtor = s.dtor)
    (hshared : s.shared = true → s'.shared = true)
    (hleave : s.closed = true ∨ s.shared = true ∨ .forceCloseInLoop ∈ s.loop.queued →
      s'.closed = true ∨ s'.shared = true ∨ .forceCloseInLoop ∈ s'.loop.queued) : s'.DtorOk := by
  unfold DtorOk at h ⊢
  rw [hdtor]
  split <;> rename_i hs
  · rw [hs] at h
    exact fun hunique => hshared (h hunique)
  · rw [hs] at h
    exact fun hunique => hshared (h hunique)
  · rw [hs] at h
    exact hleave h
  · trivial

/-- A functor is queued; `ConnectDestroyed` is behind the close only. -/
theorem Base.queue (h : Base s) (hf : f = .connectDestroyed → s.closed = true) :
    Base (s.queueInLoop f) where
  isOpen := h.isOpen
  destroyer hmem := (mem_queueInLoop.mp hmem).elim h.destroyer fun he => hf he.symm
  removed := h.removed
  registered := h.registered
  held hc := (h.held hc).imp_right (Or.imp_right fun hmem => mem_queueInLoop.mpr (Or.inl hmem))
  dtor := h.dtor.mono rfl id
    (Or.imp_right (Or.imp_right fun hmem => mem_queueInLoop.mpr (Or.inl hmem)))

theorem Core.queue (h : Core s) (hf : f = .connectDestroyed → s.closed = true) :
    Core (s.queueInLoop f) :=
  ⟨h.toBase.queue hf, fun hc hd =>
    (h.removal hc hd).imp_right fun hmem => mem_queueInLoop.mpr (Or.inl hmem)⟩

theorem Base.setDisconnected (h : Base s) : Base s.setDisconnected where
  isOpen := nofun
  destroyer _ := rfl
  removed _ := rfl
  registered := nofun
  held := nofun
  dtor := h.dtor.mono rfl id fun _ => Or.inl rfl

/-- The close callback queues `ConnectDestroyed`, or calls a client that is gone. -/
theorem Base.closeCallback (h : Base s) (hclosed : s.closed = true) : Core s.closeCallback := by
  have hq : Base (s.queueInLoop .connectDestroyed) := h.queue fun _ => hclosed
  have hmem : .connectDestroyed ∈ (s.queueInLoop .connectDestroyed).loop.queued :=
    mem_queueInLoop.mpr (Or.inr rfl)
  have hnot (hc : s.closed = false) : False := by rw [hc] at hclosed; cases hclosed
  unfold ClientConnection.closeCallback
  split_ifs
  · exact ⟨⟨hq.isOpen, hq.destroyer, hq.removed, hq.registered, fun hc => (hnot hc).elim, hq.dtor⟩,
      fun _ _ => Or.inr hmem⟩
  · exact ⟨⟨h.isOpen, h.destroyer, h.removed, h.registered, h.held, h.dtor⟩, nofun⟩
  · exact ⟨hq, fun _ _ => Or.inr hmem⟩

/-! ### The destructor on the loop thread -/

/-- What the destructor leaves as it is. -/
structure Frame (s s' : ClientConnection) : Prop where
  closed : s'.closed = s.closed
  removed : s'.removed = s.removed
  dangling : s'.dangling = s.dangling
  destroyed : s'.destroyed = s.destroyed
  dtor : s'.dtor = s.dtor
  users : s'.users = s.users
  inCalls : s'.inCalls = s.inCalls
  batch : s'.batch = s.batch
  queued : ∀ f ∈ s.loop.queued, f ∈ s'.loop.queued
  pushed : ∀ f ∈ s'.loop.queued, f ∈ s.loop.queued ∨ f = .forceCloseInLoop

theorem Frame.forceClose : Frame s s.forceClose := by
  unfold ClientConnection.forceClose
  split_ifs
  · exact ⟨rfl, rfl, rfl, rfl, rfl, rfl, rfl, rfl, fun f hf => mem_queueInLoop.mpr (Or.inl hf),
      fun f hf => mem_queueInLoop.mp hf⟩
  · exact ⟨rfl, rfl, rfl, rfl, rfl, rfl, rfl, rfl, fun f hf => hf, fun f hf => Or.inl hf⟩

theorem Frame.destroyClient : Frame s (s.destroyClient guarded) := by
  unfold ClientConnection.destroyClient
  split_ifs
  · simp only
    split_ifs
    · have hf : Frame (s.setCloseCallback (s.unique guarded))
          (s.setCloseCallback (s.unique guarded)).forceClose := .forceClose
      exact ⟨hf.closed, hf.removed, hf.dangling, hf.destroyed, hf.dtor, hf.users, hf.inCalls, hf.batch,
        hf.queued, hf.pushed⟩
    · exact ⟨rfl, rfl, rfl, rfl, rfl, rfl, rfl, rfl, fun f hf => hf, fun f hf => Or.inl hf⟩
  · exact ⟨rfl, rfl, rfl, rfl, rfl, rfl, rfl, rfl, fun f hf => hf, fun f hf => Or.inl hf⟩

theorem dtorOk_of_none (h : s.dtor = none) : s.DtorOk := by simp [DtorOk, h]

theorem Base.forceClose (h : Base s) : Base s.forceClose := by
  unfold ClientConnection.forceClose
  split_ifs
  · have hb : Base { s with state := .kDisconnecting } :=
      ⟨fun _ => rfl, h.destroyer, h.removed, h.registered, h.held, h.dtor⟩
    exact hb.queue nofun
  · exact h

/-- `ForceClose` finds the connection closed, or will have it closed. -/
theorem Base.mem_forceClose (h : Base s) (hc : s.closed = false) :
    .forceCloseInLoop ∈ s.forceClose.loop.queued := by
  unfold ClientConnection.forceClose
  rw [if_pos (h.isOpen hc)]
  exact mem_queueInLoop.mpr (Or.inr rfl)

theorem Base.destroyClient (h : Base s) (hdtor : s.dtor = none) : Base (s.destroyClient guarded) := by
  unfold ClientConnection.destroyClient
  split_ifs with hconn
  · simp only
    have hset : Base (s.setCloseCallback (s.unique guarded)) :=
      ⟨h.isOpen, h.destroyer, h.removed, h.registered, fun _ => Or.inl hconn, dtorOk_of_none hdtor⟩
    split_ifs with hunique
    · have hframe : Frame (s.setCloseCallback (s.unique guarded))
          (s.setCloseCallback (s.unique guarded)).forceClose := .forceClose
      have hf := hset.forceClose
      refine ⟨hf.isOpen, hf.destroyer, hf.removed, hf.registered, fun hc => ?_,
        dtorOk_of_none (hframe.dtor.trans hdtor)⟩
      exact Or.inr (Or.inr (hset.mem_forceClose (hframe.closed.symm.trans hc)))
    · refine ⟨hset.isOpen, hset.destroyer, hset.removed, hset.registered, fun _ => ?_,
        dtorOk_of_none hdtor⟩
      exact Or.inr (Or.inl (by simp [setCloseCallback, hunique]))
  · exact ⟨h.isOpen, h.destroyer, h.removed, h.registered, h.held, h.dtor⟩

theorem Core.of_frame (h : Core s) (hbase : Base s') (hframe : Frame s s') : Core s' := by
  refine ⟨hbase, fun hc hd => ?_⟩
  rw [hframe.closed] at hc
  rw [hframe.dangling] at hd
  rw [hframe.removed]
  exact (h.removal hc hd).imp_right (hframe.queued _)

theorem Core.destroyClient (h : Core s) (hdtor : s.dtor = none) : Core (s.destroyClient guarded) :=
  h.of_frame (h.toBase.destroyClient hdtor) .destroyClient

/-! ### The functors -/

theorem Base.handleClose (h : Base s.setDisconnected) : Core (s.handleClose destroys) := by
  unfold ClientConnection.handleClose
  simp only
  split_ifs with hdestroys
  · exact (h.destroyClient hdestroys.2.2).closeCallback Frame.destroyClient.closed
  · exact h.closeCallback rfl

/-- The loop goes on to its next functor; `ForceCloseInLoop` finds the connection closed. -/
theorem Base.nextFunctor (h : Base s) (hl : s.loop.nextFunctor = some (f, loop))
    (hclose : f = .forceCloseInLoop → s.closed = true) (batch : List Functor) :
    Base { s with loop, batch } := by
  have hqueued := EventLoop.queued_nextFunctor hl
  have hrest (hc : s.closed = false) (hmem : .forceCloseInLoop ∈ s.loop.queued) :
      .forceCloseInLoop ∈ loop.queued := by
    rw [hqueued, List.mem_cons] at hmem
    refine hmem.resolve_left fun hf => ?_
    rw [hclose hf.symm] at hc
    cases hc
  refine ⟨h.isOpen, fun hmem => h.destroyer ?_, h.removed, h.registered,
    fun hc => (h.held hc).imp_right (Or.imp_right (hrest hc)), ?_⟩
  · rw [hqueued]
    exact List.mem_cons_of_mem f hmem
  · refine h.dtor.mono rfl id fun hheld => ?_
    cases hc : s.closed with
    | true => exact Or.inl rfl
    | false =>
      rw [hc] at hheld
      exact hheld.imp_right (Or.imp_right (hrest hc))

theorem Core.functor (h : Core s) (hl : s.loop.nextFunctor = some (f, loop)) :
    Core ({ s with loop, batch := s.batch ++ [f] }.runFunctor destroys f) := by
  have hqueued := EventLoop.queued_nextFunctor hl
  have hmem : f ∈ s.loop.queued := by rw [hqueued]; exact List.mem_cons_self
  have hrest (hne : f ≠ .connectDestroyed) (h' : .connectDestroyed ∈ s.loop.queued) :
      .connectDestroyed ∈ loop.queued := by
    rw [hqueued, List.mem_cons] at h'
    exact h'.resolve_left hne.symm
  cases f with
  | setCloseCallback =>
    have hb := h.toBase.nextFunctor hl nofun (s.batch ++ [.setCloseCallback])
    exact ⟨⟨hb.isOpen, hb.destroyer, hb.removed, hb.registered, hb.held, hb.dtor⟩,
      fun hc hd => (h.removal hc hd).imp_right (hrest nofun)⟩
  | forceCloseInLoop =>
    simp only [runFunctor]
    split_ifs with hopen
    · exact Base.handleClose (h.setDisconnected.nextFunctor hl (fun _ => rfl) _)
    · have hclosed : s.closed = true := by
        by_contra hc
        exact hopen (h.isOpen (by simpa using hc))
      exact ⟨h.toBase.nextFunctor hl (fun _ => hclosed) _,
        fun hc hd => (h.removal hc hd).imp_right (hrest nofun)⟩
  | connectDestroyed =>
    have hclosed : s.closed = true := h.destroyer hmem
    have hb := h.toBase.nextFunctor hl nofun (s.batch ++ [.connectDestroyed])
    simp only [runFunctor, ClientConnection.connectDestroyed]
    split_ifs
    · exact ⟨⟨fun hc => absurd (hclosed.symm.trans hc) nofun, hb.destroyer, fun _ => hclosed, nofun,
        hb.held, hb.dtor⟩, fun _ _ => Or.inl rfl⟩
    · exact ⟨⟨hb.isOpen, hb.destroyer, fun _ => hclosed, hb.registered, hb.held, hb.dtor⟩,
        fun _ _ => Or.inl rfl⟩

/-- The loop takes its queue, or is through with its batch. -/
theorem Core.of_queued (h : Core s) (hqueued : loop.queued = s.loop.queued) (batch : List Functor) :
    Core { s with loop, batch } := by
  refine ⟨⟨h.isOpen, hqueued ▸ h.destroyer, h.removed, h.registered, hqueued ▸ h.held, ?_⟩,
    hqueued ▸ h.removal⟩
  exact h.dtor.mono rfl id (Or.imp_right (Or.imp_right fun hmem => hqueued ▸ hmem))

/-! ### The destructor on another thread -/

theorem Core.execDtor (h : Core s) {pc : Dtor} (hpc : s.dtor = some pc) : Core (s.execDtor pc) := by
  have hd := h.dtor
  simp only [DtorOk, hpc] at hd
  cases pc with
  | setCallback unique =>
    have hq : Core (s.queueInLoop .setCloseCallback) := h.queue nofun
    refine ⟨⟨hq.isOpen, hq.destroyer, hq.removed, hq.registered, hq.held, ?_⟩, hq.removal⟩
    cases unique with
    | true => exact nofun
    | false => exact Or.inr (Or.inl (hd rfl))
  | test unique =>
    refine ⟨⟨h.isOpen, h.destroyer, h.removed, h.registered, h.held, ?_⟩, h.removal⟩
    simp only [ClientConnection.execDtor, DtorOk]
    split_ifs with hopen
    · trivial
    · refine Or.inl ?_
      by_contra hc
      exact hopen (h.isOpen (by simpa using hc))
  | store => exact ⟨⟨fun _ => rfl, h.destroyer, h.removed, h.registered, h.held, trivial⟩, h.removal⟩
  | push =>
    have hq : Core (s.queueInLoop .forceCloseInLoop) := h.queue nofun
    exact ⟨⟨hq.isOpen, hq.destroyer, hq.removed, hq.registered, hq.held,
      Or.inr (Or.inr (mem_queueInLoop.mpr (Or.inr rfl)))⟩, hq.removal⟩
  | leave =>
    refine ⟨⟨h.isOpen, h.destroyer, h.removed, h.registered, fun hc => Or.inr ?_, trivial⟩, h.removal⟩
    exact hd.resolve_left (Bool.eq_false_iff.mp hc)

/-! ### Every step -/

theorem Core.exec (h : Core s) (hs : s.exec act = some s') : Core s' := by
  cases act with
  | share =>
    simp only [ClientConnection.exec] at hs
    split_ifs at hs
    cases hs
    exact ⟨⟨h.isOpen, h.destroyer, h.removed, h.registered, h.held, h.dtor⟩, h.removal⟩
  | drop =>
    obtain ⟨-, hs⟩ := Option.ite_none_right_eq_some.mp hs
    cases hs
    exact ⟨⟨h.isOpen, h.destroyer, h.removed, h.registered, h.held, h.dtor⟩, h.removal⟩
  | shutdown | forceClose =>
    obtain ⟨-, hs⟩ := Option.ite_none_right_eq_some.mp hs
    cases hs
    split_ifs
    · exact ⟨⟨h.isOpen, h.destroyer, h.removed, h.registered, h.held, h.dtor⟩, h.removal⟩
    · exact h
  | storeShutdown | storeForceClose =>
    obtain ⟨-, hs⟩ := Option.ite_none_right_eq_some.mp hs
    cases hs
    exact ⟨⟨fun _ => rfl, h.destroyer, h.removed, h.registered, h.held, h.dtor⟩, h.removal⟩
  | pushForceClose =>
    obtain ⟨-, hs⟩ := Option.ite_none_right_eq_some.mp hs
    cases hs
    have hq : Core (s.queueInLoop .forceCloseInLoop) := h.queue nofun
    exact ⟨⟨hq.isOpen, hq.destroyer, hq.removed, hq.registered, hq.held, hq.dtor⟩, hq.removal⟩
  | loopShutdown =>
    simp only [ClientConnection.exec] at hs
    split_ifs at hs
    cases hs
    unfold ClientConnection.shutdown
    split_ifs
    · exact ⟨⟨fun _ => rfl, h.destroyer, h.removed, h.registered, h.held, h.dtor⟩, h.removal⟩
    · exact h
  | loopForceClose =>
    simp only [ClientConnection.exec] at hs
    split_ifs at hs
    cases hs
    exact h.of_frame h.toBase.forceClose .forceClose
  | close =>
    obtain ⟨-, hs⟩ := Option.ite_none_right_eq_some.mp hs
    cases hs
    exact Base.handleClose h.setDisconnected
  | beginFunctors =>
    obtain ⟨loop, hl, rfl⟩ := Option.map_eq_some_iff.mp hs
    exact h.of_queued (EventLoop.queued_beginFunctors hl) _
  | functor =>
    obtain ⟨⟨f, loop⟩, hl, rfl⟩ := Option.map_eq_some_iff.mp hs
    exact h.functor hl
  | endFunctors =>
    obtain ⟨loop, hl, rfl⟩ := Option.map_eq_some_iff.mp hs
    exact h.of_queued (EventLoop.queued_endFunctors hl) _
  | destroy =>
    obtain ⟨⟨-, hdtor⟩, hs⟩ := Option.ite_none_right_eq_some.mp hs
    cases hs
    exact h.destroyClient hdtor
  | destroyElsewhere guarded =>
    obtain ⟨-, hs⟩ := Option.ite_none_right_eq_some.mp hs
    split_ifs at hs with hconn <;> cases hs
    · refine ⟨⟨h.isOpen, h.destroyer, h.removed, h.registered, fun _ => Or.inl hconn, ?_⟩, h.removal⟩
      intro hunique
      simp [hunique]
    · exact ⟨⟨h.isOpen, h.destroyer, h.removed, h.registered, h.held, h.dtor⟩, h.removal⟩
  | dtor =>
    obtain ⟨pc, hpc, rfl⟩ := Option.map_eq_some_iff.mp hs
    exact h.execDtor hpc

/-- What a step of the loop or of the destructor leaves to the user. -/
structure Aside (s s' : ClientConnection) : Prop where
  destroyed : s'.destroyed = s.destroyed
  users : s'.users = s.users
  inCalls : s'.inCalls = s.inCalls

theorem aside_handleClose : Aside s (s.handleClose destroys) := by
  have hcallback (t : ClientConnection) : Aside t t.closeCallback := by
    unfold ClientConnection.closeCallback
    split_ifs <;> exact ⟨rfl, rfl, rfl⟩
  have hdestroy : Frame s.setDisconnected (s.setDisconnected.destroyClient true) := .destroyClient
  unfold ClientConnection.handleClose
  simp only
  split_ifs
  · have hc := hcallback (s.setDisconnected.destroyClient true)
    exact ⟨hc.destroyed.trans hdestroy.destroyed, hc.users.trans hdestroy.users,
      hc.inCalls.trans hdestroy.inCalls⟩
  · have hc := hcallback s.setDisconnected
    exact ⟨hc.destroyed, hc.users, hc.inCalls⟩

theorem aside_runFunctor : Aside s (s.runFunctor destroys f) := by
  cases f with
  | setCloseCallback => exact ⟨rfl, rfl, rfl⟩
  | forceCloseInLoop =>
    simp only [runFunctor]
    split_ifs
    · exact aside_handleClose
    · exact ⟨rfl, rfl, rfl⟩
  | connectDestroyed =>
    simp only [runFunctor, ClientConnection.connectDestroyed]
    split_ifs <;> exact ⟨rfl, rfl, rfl⟩

/-- A thread in a call has a pointer. -/
theorem sharing_exec (h : s.inCalls ≤ s.users) (hs : s.exec act = some s') :
    s'.inCalls ≤ s'.users ∧ s'.destroyed = s.destroyed := by
  have haside (h' : Aside s s') : s'.inCalls ≤ s'.users ∧ s'.destroyed = s.destroyed :=
    ⟨by rw [h'.inCalls, h'.users]; exact h, h'.destroyed⟩
  cases act with
  | share =>
    simp only [ClientConnection.exec] at hs
    split_ifs at hs
    cases hs
    exact ⟨h.trans (Nat.le_succ _), rfl⟩
  | drop =>
    obtain ⟨hlt, hs⟩ := Option.ite_none_right_eq_some.mp hs
    cases hs
    exact ⟨Nat.le_sub_one_of_lt hlt, rfl⟩
  | shutdown | forceClose =>
    obtain ⟨hlt, hs⟩ := Option.ite_none_right_eq_some.mp hs
    cases hs
    unfold inCalls at hlt h ⊢
    split_ifs
    · refine ⟨?_, rfl⟩
      dsimp only
      omega
    · exact ⟨h, rfl⟩
  | storeShutdown | storeForceClose | pushForceClose =>
    obtain ⟨hpos, hs⟩ := Option.ite_none_right_eq_some.mp hs
    cases hs
    unfold inCalls at h ⊢
    refine ⟨?_, rfl⟩
    dsimp only [queueInLoop]
    omega
  | loopShutdown =>
    simp only [ClientConnection.exec] at hs
    split_ifs at hs
    cases hs
    unfold ClientConnection.shutdown
    split_ifs <;> exact ⟨h, rfl⟩
  | loopForceClose =>
    simp only [ClientConnection.exec] at hs
    split_ifs at hs
    cases hs
    have hframe : Frame s s.forceClose := .forceClose
    exact haside ⟨hframe.destroyed, hframe.users, hframe.inCalls⟩
  | close =>
    obtain ⟨-, hs⟩ := Option.ite_none_right_eq_some.mp hs
    cases hs
    exact haside aside_handleClose
  | beginFunctors | endFunctors =>
    obtain ⟨loop, -, rfl⟩ := Option.map_eq_some_iff.mp hs
    exact ⟨h, rfl⟩
  | functor destroys =>
    obtain ⟨⟨f, loop⟩, -, rfl⟩ := Option.map_eq_some_iff.mp hs
    have hf : Aside { s with loop, batch := s.batch ++ [f] }
        ({ s with loop, batch := s.batch ++ [f] }.runFunctor destroys f) := aside_runFunctor
    exact haside ⟨hf.destroyed, hf.users, hf.inCalls⟩
  | destroy guarded =>
    obtain ⟨-, hs⟩ := Option.ite_none_right_eq_some.mp hs
    cases hs
    have hframe : Frame s (s.destroyClient guarded) := .destroyClient
    exact haside ⟨hframe.destroyed, hframe.users, hframe.inCalls⟩
  | destroyElsewhere =>
    obtain ⟨-, hs⟩ := Option.ite_none_right_eq_some.mp hs
    split_ifs at hs <;> cases hs <;> exact ⟨h, rfl⟩
  | dtor =>
    obtain ⟨pc, -, rfl⟩ := Option.map_eq_some_iff.mp hs
    cases pc <;> exact ⟨h, rfl⟩

/-- Nothing shares a connection that is destroyed, ever again. -/
theorem refs_exec (hzero : s.refs = 0) (hd : s.destroyed = true) (hsharing : s.inCalls ≤ s.users)
    (hs : s.exec act = some s') : s'.refs = 0 := by
  obtain ⟨hconn, hbatch, hqueued, husers, hdtor⟩ := refs_eq_zero.mp hzero
  have hnone : s.shutdowns = 0 ∧ s.forceCloses = 0 ∧ s.pushes = 0 := by
    unfold inCalls at hsharing
    omega
  cases act with
  | share | loopShutdown | loopForceClose =>
    simp only [ClientConnection.exec, hd, if_true] at hs
    cases hs
  | drop | shutdown | forceClose =>
    obtain ⟨hlt, -⟩ := Option.ite_none_right_eq_some.mp hs
    omega
  | storeShutdown | storeForceClose | pushForceClose =>
    obtain ⟨hpos, -⟩ := Option.ite_none_right_eq_some.mp hs
    omega
  | close =>
    obtain ⟨⟨-, halive, -⟩, -⟩ := Option.ite_none_right_eq_some.mp hs
    rw [hd] at halive
    cases halive
  | beginFunctors =>
    obtain ⟨loop, hl, rfl⟩ := Option.map_eq_some_iff.mp hs
    exact refs_eq_zero.mpr
      ⟨hconn, hbatch, (EventLoop.queued_beginFunctors hl).trans hqueued, husers, hdtor⟩
  | functor =>
    obtain ⟨⟨f, loop⟩, hl, -⟩ := Option.map_eq_some_iff.mp hs
    rw [EventLoop.queued_nextFunctor hl] at hqueued
    cases hqueued
  | endFunctors =>
    obtain ⟨loop, hl, rfl⟩ := Option.map_eq_some_iff.mp hs
    exact refs_eq_zero.mpr
      ⟨hconn, rfl, (EventLoop.queued_endFunctors hl).trans hqueued, husers, hdtor⟩
  | destroy =>
    obtain ⟨-, hs⟩ := Option.ite_none_right_eq_some.mp hs
    cases hs
    simp only [ClientConnection.destroyClient, hconn, Bool.false_eq_true, if_false]
    exact refs_eq_zero.mpr ⟨rfl, hbatch, hqueued, husers, hdtor⟩
  | destroyElsewhere =>
    obtain ⟨-, hs⟩ := Option.ite_none_right_eq_some.mp hs
    rw [if_neg (by simp [hconn])] at hs
    cases hs
    exact refs_eq_zero.mpr ⟨hconn, hbatch, hqueued, husers, hdtor⟩
  | dtor =>
    simp only [ClientConnection.exec, hdtor] at hs
    cases hs

theorem Inv.step (h : Inv s) (hs : s.step act = some s') : Inv s' := by
  obtain ⟨m, hm, rfl⟩ := Option.map_eq_some_iff.mp hs
  have hcore := h.toCore.exec hm
  obtain ⟨hsharing, hdestroyed⟩ := sharing_exec h.sharing hm
  refine ⟨⟨⟨hcore.isOpen, hcore.destroyer, hcore.removed, hcore.registered, hcore.held,
    hcore.dtor⟩, hcore.removal⟩, hsharing, ?_⟩
  show (m.destroyed || decide (m.refs = 0)) = true ↔ m.refs = 0
  rw [Bool.or_eq_true, decide_eq_true_eq, hdestroyed]
  exact ⟨fun hor => hor.elim (fun hd => refs_exec (h.dead.mp hd) hd h.sharing hm) id, Or.inr⟩

theorem Inv.new : Inv new where
  isOpen _ := rfl
  destroyer := by simp [ClientConnection.new, EventLoop.queued]
  removed := nofun
  registered _ := rfl
  held _ := Or.inl rfl
  dtor := trivial
  removal := nofun
  sharing := le_rfl
  dead := by simp [ClientConnection.new, refs]

/-! ### The client is destroyed on the loop thread -/

/-- The destructor is not called elsewhere, and no thread opens the connection again when it has been
closed. -/
def InTime (s : ClientConnection) : Act → Prop
  | .destroyElsewhere _ => False
  | .storeShutdown | .storeForceClose => s.closed = false
  | _ => True

instance (s : ClientConnection) (act : Act) : Decidable (InTime s act) := by
  unfold InTime
  split <;> infer_instance

/-- What holds then. -/
structure OnLoop (s : ClientConnection) : Prop where
  dtor : s.dtor = none
  dangling : s.dangling = false
  callback : s.alive = false → s.ownCallback = false ∨ s.closed = true
  state : s.closed = true → s.state = .kDisconnected
  connection : s.alive = true → s.connection = true ∨ s.closed = true

theorem OnLoop.closed_of_isOpen (h : OnLoop s) (hopen : s.isOpen = true) : s.closed = false := by
  by_contra hc
  simp [isOpen, h.state (by simpa using hc)] at hopen

theorem OnLoop.forceClose (h : OnLoop s) : OnLoop s.forceClose := by
  unfold ClientConnection.forceClose
  split_ifs with hopen
  · refine ⟨h.dtor, h.dangling, h.callback, fun hc => ?_, h.connection⟩
    exact absurd (hc.symm.trans (h.closed_of_isOpen hopen)) nofun
  · exact h

theorem ownCallback_forceClose : s.forceClose.ownCallback = s.ownCallback := by
  unfold ClientConnection.forceClose
  split_ifs <;> rfl

theorem OnLoop.destroyClient (h : OnLoop s) : OnLoop (s.destroyClient guarded) := by
  unfold ClientConnection.destroyClient
  split_ifs with hconn
  · simp only
    have hset : OnLoop (s.setCloseCallback (s.unique guarded)) :=
      ⟨h.dtor, h.dangling, fun _ => Or.inl rfl, h.state, h.connection⟩
    split_ifs
    · have hf := hset.forceClose
      exact ⟨hf.dtor, hf.dangling, fun _ => Or.inl ownCallback_forceClose, hf.state, nofun⟩
    · exact ⟨hset.dtor, hset.dangling, fun _ => Or.inl rfl, hset.state, nofun⟩
  · refine ⟨h.dtor, h.dangling, fun _ => ?_, h.state, nofun⟩
    cases halive : s.alive with
    | true => exact Or.inr ((h.connection halive).resolve_left hconn)
    | false => exact h.callback halive

theorem ownCallback_destroyClient (hconn : s.connection = true) :
    (s.destroyClient guarded).ownCallback = false := by
  simp only [ClientConnection.destroyClient, hconn, if_true]
  split_ifs
  · exact ownCallback_forceClose
  · rfl

theorem OnLoop.closeCallback (h : OnLoop s) (hclosed : s.closed = true)
    (hown : s.ownCallback = true → s.alive = true) : OnLoop s.closeCallback := by
  unfold ClientConnection.closeCallback
  split_ifs with howner halive
  · exact ⟨h.dtor, h.dangling, h.callback, h.state, fun _ => Or.inr hclosed⟩
  · exact absurd (hown howner) halive
  · exact ⟨h.dtor, h.dangling, h.callback, h.state, h.connection⟩

theorem OnLoop.handleClose (h : OnLoop s) (hclosed : s.closed = false) :
    OnLoop (s.handleClose destroys) := by
  have hconn (halive : s.alive = true) : s.setDisconnected.connection = true :=
    (h.connection halive).resolve_right (by simp [hclosed])
  have hdisc : OnLoop s.setDisconnected :=
    ⟨h.dtor, h.dangling, fun _ => Or.inr rfl, fun _ => rfl, fun _ => Or.inr rfl⟩
  unfold ClientConnection.handleClose
  simp only
  split_ifs with hdestroys
  · refine hdisc.destroyClient.closeCallback Frame.destroyClient.closed fun hown => ?_
    rw [ownCallback_destroyClient (hconn hdestroys.2.1)] at hown
    cases hown
  · refine hdisc.closeCallback rfl fun hown => ?_
    by_contra halive
    rcases h.callback (Bool.eq_false_iff.mpr halive) with hnone | hnone
    · exact absurd (hnone.symm.trans hown) nofun
    · exact absurd (hclosed.symm.trans hnone) nofun

theorem OnLoop.functor (h : OnLoop s) (loop : EventLoop Functor) (batch : List Functor) :
    OnLoop ({ s with loop, batch }.runFunctor destroys f) := by
  have hnext : OnLoop { s with loop, batch } :=
    ⟨h.dtor, h.dangling, h.callback, h.state, h.connection⟩
  cases f with
  | setCloseCallback => exact ⟨h.dtor, h.dangling, fun _ => Or.inl rfl, h.state, h.connection⟩
  | forceCloseInLoop =>
    simp only [runFunctor]
    split_ifs with hopen
    · exact hnext.handleClose (h.closed_of_isOpen hopen)
    · exact hnext
  | connectDestroyed =>
    simp only [runFunctor, ClientConnection.connectDestroyed]
    split_ifs
    · exact ⟨h.dtor, h.dangling, h.callback, fun _ => rfl, h.connection⟩
    · exact ⟨h.dtor, h.dangling, h.callback, h.state, h.connection⟩

theorem OnLoop.exec (h : OnLoop s) (hbase : Base s) (hact : InTime s act)
    (hs : s.exec act = some s') : OnLoop s' := by
  have hlate {t : ClientConnection} (hc : t.closed = s.closed) (hopen : s.closed = false) :
      t.closed = true → t.state = .kDisconnected :=
    fun hclosed => absurd ((hc.symm.trans hclosed).symm.trans hopen) nofun
  cases act with
  | share =>
    simp only [ClientConnection.exec] at hs
    split_ifs at hs
    cases hs
    exact ⟨h.dtor, h.dangling, h.callback, h.state, h.connection⟩
  | shutdown | forceClose =>
    obtain ⟨-, hs⟩ := Option.ite_none_right_eq_some.mp hs
    cases hs
    split_ifs
    · exact ⟨h.dtor, h.dangling, h.callback, h.state, h.connection⟩
    · exact h
  | storeShutdown | storeForceClose =>
    obtain ⟨-, hs⟩ := Option.ite_none_right_eq_some.mp hs
    cases hs
    exact ⟨h.dtor, h.dangling, h.callback, hlate rfl hact, h.connection⟩
  | pushForceClose =>
    obtain ⟨-, hs⟩ := Option.ite_none_right_eq_some.mp hs
    cases hs
    exact ⟨h.dtor, h.dangling, h.callback, h.state, h.connection⟩
  | loopShutdown =>
    simp only [ClientConnection.exec] at hs
    split_ifs at hs
    cases hs
    unfold ClientConnection.shutdown
    split_ifs with hconn
    · have hopen : s.closed = false := h.closed_of_isOpen (by simp [isOpen, hconn])
      exact ⟨h.dtor, h.dangling, h.callback, hlate rfl hopen, h.connection⟩
    · exact h
  | loopForceClose =>
    simp only [ClientConnection.exec] at hs
    split_ifs at hs
    cases hs
    exact h.forceClose
  | drop =>
    obtain ⟨-, hs⟩ := Option.ite_none_right_eq_some.mp hs
    cases hs
    exact ⟨h.dtor, h.dangling, h.callback, h.state, h.connection⟩
  | close =>
    obtain ⟨⟨hregistered, -⟩, hs⟩ := Option.ite_none_right_eq_some.mp hs
    cases hs
    exact h.handleClose (hbase.registered hregistered)
  | beginFunctors | endFunctors =>
    obtain ⟨loop, -, rfl⟩ := Option.map_eq_some_iff.mp hs
    exact ⟨h.dtor, h.dangling, h.callback, h.state, h.connection⟩
  | functor =>
    obtain ⟨⟨f, loop⟩, -, rfl⟩ := Option.map_eq_some_iff.mp hs
    exact h.functor loop _
  | destroy =>
    obtain ⟨-, hs⟩ := Option.ite_none_right_eq_some.mp hs
    cases hs
    exact h.destroyClient
  | destroyElsewhere => exact hact.elim
  | dtor =>
    simp only [ClientConnection.exec, h.dtor] at hs
    cases hs

theorem OnLoop.new : OnLoop new := ⟨rfl, rfl, nofun, nofun, fun _ => Or.inl rfl⟩

variable {acts : List Act}

theorem OnLoop.step (h : OnLoop s) (hbase : Base s) (hact : InTime s act) (hs : s.step act = some s') :
    OnLoop s' := by
  obtain ⟨m, hm, rfl⟩ := Option.map_eq_some_iff.mp hs
  have hexec := h.exec hbase hact hm
  exact ⟨hexec.dtor, hexec.dangling, hexec.callback, hexec.state, hexec.connection⟩

theorem OnLoop.run (hok : Run.Along ClientConnection.step InTime ClientConnection.new acts)
    (hrun : ClientConnection.run ClientConnection.new acts = some s) : OnLoop s := by
  have hinv := Run.run_inv_along (P := fun s => Inv s ∧ OnLoop s)
    (fun s act s' hact hs h => ⟨h.1.step hs, h.2.step h.1.toBase hact hs⟩) hok hrun ⟨.new, .new⟩
  exact hinv.2

/-- In every run: if `~TcpClient` is called on the loop thread only, and no thread stores `kDisconnecting`
when the connection has been closed, `RemoveConnection` finds its client; and where it does, whoever
destroys the client, a connection that is destroyed has been removed from the poller exactly if it has
been closed, and one that has not been closed was shared when the destructor looked. -/
theorem left_behind (hrun : run new acts = some s) :
    (Run.Along step InTime new acts → s.dangling = false) ∧
      (s.dangling = false → s.destroyed = true →
        (s.removed = true ↔ s.closed = true) ∧ (s.closed = false → s.shared = true)) := by
  have hinv : Inv s := Run.run_inv (P := Inv) (fun _ _ _ hs h => h.step hs) hrun .new
  refine ⟨fun hok => (OnLoop.run hok hrun).dangling, fun hd hdestroyed => ?_⟩
  obtain ⟨hconn, -, hqueued, -⟩ := refs_eq_zero.mp (hinv.dead.mp hdestroyed)
  have hnot (f : Functor) : f ∉ s.loop.queued := by simp [hqueued]
  refine ⟨⟨hinv.removed, fun hc => (hinv.removal hc hd).resolve_right (hnot _)⟩, fun hc => ?_⟩
  rcases hinv.held hc with hheld | hheld | hheld
  · exact absurd (hheld.symm.trans hconn) nofun
  · exact hheld
  · exact absurd hheld (hnot _)

/-- The user shares the connection and is in `Shutdown`, the client is destroyed, and the user lets his
pointer go. -/
def leaked : List Act := [.share, .shutdown, .destroy false, .storeShutdown, .drop]

theorem left_behind_leaked :
    ∃ s, run new leaked = some s ∧ s.dangling = false ∧ s.destroyed = true ∧
      (s.removed = true ↔ s.closed = true) ∧ (s.closed = false → s.shared = true) := by
  have heval : ((run new leaked).map destroyed) = some true := by decide +kernel
  have hok : Run.Along step InTime new leaked := by decide +kernel
  obtain ⟨s, hrun, hdestroyed⟩ := Option.map_eq_some_iff.mp heval
  obtain ⟨honLoop, hremoved⟩ := left_behind hrun
  exact ⟨s, hrun, honLoop hok, hdestroyed, hremoved (honLoop hok) hdestroyed⟩

/-- A thread has tested `state_` in `ForceClose` when the peer closes the connection, and stores it behind
the close: the connection is closed once more, through a client that has been destroyed in between. -/
theorem left_behind_overtaken :
    ∃ s, run new [.share, .forceClose, .close false, .destroy false, .storeForceClose, .pushForceClose,
      .beginFunctors, .functor false, .functor false] = some s ∧ s.dangling = true := by
  have heval : ((run new [.share, .forceClose, .close false, .destroy false, .storeForceClose,
      .pushForceClose, .beginFunctors, .functor false, .functor false]).map dangling) = some true := by
    decide +kernel
  exact Option.map_eq_some_iff.mp heval

/-! ### The user keeps the connection until it has been closed -/

/-- The connection has been closed, or is going to be. -/
def Closing (s : ClientConnection) : Prop := s.closed = true ∨ .forceCloseInLoop ∈ s.loop.queued

/-- The last one to keep the connection from being destroyed open waits for its close. -/
def Careful (s : ClientConnection) : Act → Prop
  | .drop => s.users = 1 → s.connection = true ∨ s.Closing
  | .destroy true => s.users = 0 → s.Closing
  | act => s.InTime act

instance (s : ClientConnection) (act : Act) : Decidable (Careful s act) := by
  unfold Careful Closing
  split <;> infer_instance

theorem Careful.inTime (h : Careful s act) : InTime s act := by
  unfold Careful at h
  split at h
  · trivial
  · trivial
  · exact h

/-- Somebody keeps the connection until it has been closed. -/
structure Kept (s : ClientConnection) : Prop where
  callback : .setCloseCallback ∉ s.batch ++ s.loop.queued
  called : .forceCloseInLoop ∈ s.batch ∨ .connectDestroyed ∈ s.batch → s.closed = true
  users : s.connection = true ∨ 0 < s.users ∨ s.Closing

theorem Kept.of_closed (hcallback : .setCloseCallback ∉ s.batch ++ s.loop.queued)
    (hclosed : s.closed = true) : Kept s :=
  ⟨hcallback, fun _ => hclosed, Or.inr (Or.inr (Or.inl hclosed))⟩

theorem Frame.closing (h : Frame s s') (hc : s.Closing) : s'.Closing :=
  hc.imp (fun hc => h.closed.trans hc) (h.queued _)

theorem Frame.callback (h : Frame s s') (hc : .setCloseCallback ∉ s.batch ++ s.loop.queued) :
    .setCloseCallback ∉ s'.batch ++ s'.loop.queued := by
  rw [List.mem_append, not_or] at hc ⊢
  rw [h.batch]
  exact ⟨hc.1, fun hmem => (h.pushed _ hmem).elim hc.2 nofun⟩

theorem destroyClient_connection (hconn : s.connection = true) :
    (s.destroyClient guarded).connection = false ∧
      (s.destroyClient guarded).shared = !s.unique guarded := by
  have hshared (t : ClientConnection) : t.forceClose.shared = t.shared := by
    unfold ClientConnection.forceClose
    split_ifs <;> rfl
  simp only [ClientConnection.destroyClient, hconn, if_true, true_and]
  split_ifs
  · exact hshared _
  · rfl

/-- The client alone held the connection and closes it, or somebody keeps it. -/
theorem Kept.destroyClient (h : Kept s) (hbase : Base s) (hdtor : s.dtor = none)
    (hok : guarded = true → s.users = 0 → s.Closing) : Kept (s.destroyClient guarded) := by
  have hframe : Frame s (s.destroyClient guarded) := .destroyClient
  refine ⟨hframe.callback h.callback, ?_, ?_⟩
  · rw [hframe.batch, hframe.closed]
    exact h.called
  rw [hframe.users]
  cases hconn : s.connection with
  | false => exact Or.inr ((h.users.resolve_left (by simp [hconn])).imp_right hframe.closing)
  | true =>
    obtain ⟨hgone, hshared⟩ : (s.destroyClient guarded).connection = false ∧
        (s.destroyClient guarded).shared = !s.unique guarded := destroyClient_connection hconn
    rcases Nat.eq_zero_or_pos s.users with husers | hpos
    · refine Or.inr (Or.inr ?_)
      cases hunique : s.unique guarded with
      | true =>
        cases hclosed : s.closed with
        | true => exact Or.inl (hframe.closed.trans hclosed)
        | false =>
          have hbase' : Base (s.destroyClient guarded) := hbase.destroyClient hdtor
          have hheld := hbase'.held (hframe.closed.trans hclosed)
          rw [hgone, hshared, hunique] at hheld
          exact Or.inr (by simpa using hheld)
      | false =>
        refine hframe.closing ?_
        cases hg : guarded with
        | true => exact hok hg husers
        | false =>
          -- a functor shares it
          have hne : s.batch ++ s.loop.queued ≠ [] := by
            intro hnil
            simp [unique, refs, hconn, husers, hdtor, hg, hnil] at hunique
          obtain ⟨f, hf⟩ := List.exists_mem_of_ne_nil _ hne
          cases f with
          | setCloseCallback => exact absurd hf h.callback
          | forceCloseInLoop =>
            rcases List.mem_append.mp hf with hf | hf
            · exact Or.inl (h.called (Or.inl hf))
            · exact Or.inr hf
          | connectDestroyed =>
            rcases List.mem_append.mp hf with hf | hf
            · exact Or.inl (h.called (Or.inr hf))
            · exact Or.inl (hbase.destroyer hf)
    · exact Or.inr (Or.inl hpos)

theorem handleClose_closed : (s.handleClose destroys).closed = true := by
  have hcallback (t : ClientConnection) : t.closeCallback.closed = t.closed := by
    unfold ClientConnection.closeCallback
    split_ifs <;> rfl
  unfold ClientConnection.handleClose
  simp only [hcallback]
  split_ifs
  · exact Frame.destroyClient.closed
  · rfl

theorem callback_handleClose (h : .setCloseCallback ∉ s.batch ++ s.loop.queued) :
    .setCloseCallback ∉ (s.handleClose destroys).batch ++ (s.handleClose destroys).loop.queued := by
  have hcallback (t : ClientConnection) (ht : .setCloseCallback ∉ t.batch ++ t.loop.queued) :
      .setCloseCallback ∉ t.closeCallback.batch ++ t.closeCallback.loop.queued := by
    have hq : .setCloseCallback ∉ t.batch ++ (t.queueInLoop .connectDestroyed).loop.queued := by
      rw [List.mem_append, not_or] at ht ⊢
      exact ⟨ht.1, fun hmem => (mem_queueInLoop.mp hmem).elim ht.2 nofun⟩
    unfold ClientConnection.closeCallback
    split_ifs
    · exact hq
    · exact ht
    · exact hq
  unfold ClientConnection.handleClose
  refine hcallback _ ?_
  split_ifs
  · exact Frame.destroyClient.callback h
  · exact h

theorem Kept.functor (h : Kept s) (hbase : Base s) (hl : s.loop.nextFunctor = some (f, loop)) :
    Kept ({ s with loop, batch := s.batch ++ [f] }.runFunctor destroys f) := by
  have hqueued := EventLoop.queued_nextFunctor hl
  have hmem : f ∈ s.loop.queued := by rw [hqueued]; exact List.mem_cons_self
  have hcallback : .setCloseCallback ∉ (s.batch ++ [f]) ++ loop.queued := by
    rw [List.append_assoc, List.singleton_append, ← hqueued]
    exact h.callback
  cases f with
  | setCloseCallback => exact absurd (List.mem_append_right _ hmem) h.callback
  | forceCloseInLoop =>
    simp only [runFunctor]
    split_ifs with hopen
    · exact .of_closed (callback_handleClose hcallback) handleClose_closed
    · refine .of_closed hcallback ?_
      by_contra hc
      exact hopen (hbase.isOpen (by simpa using hc))
  | connectDestroyed =>
    have hclosed : s.closed = true := hbase.destroyer hmem
    simp only [runFunctor, ClientConnection.connectDestroyed]
    split_ifs
    · exact .of_closed hcallback hclosed
    · exact .of_closed hcallback hclosed

theorem Kept.exec (h : Kept s) (hbase : Base s) (hloop : OnLoop s) (hok : Careful s act)
    (hs : s.exec act = some s') : Kept s' := by
  cases act with
  | share =>
    simp only [ClientConnection.exec] at hs
    split_ifs at hs
    cases hs
    exact ⟨h.callback, h.called, Or.inr (Or.inl (Nat.succ_pos _))⟩
  | drop =>
    obtain ⟨hlt, hs⟩ := Option.ite_none_right_eq_some.mp hs
    cases hs
    have hpos : 0 < s.users := (Nat.zero_le _).trans_lt hlt
    refine ⟨h.callback, h.called, ?_⟩
    rcases eq_or_ne s.users 1 with hone | hne
    · exact (hok hone).imp_right Or.inr
    · exact Or.inr (Or.inl (Nat.sub_pos_of_lt (lt_of_le_of_ne hpos hne.symm)))
  | shutdown | forceClose =>
    obtain ⟨-, hs⟩ := Option.ite_none_right_eq_some.mp hs
    cases hs
    split_ifs
    · exact ⟨h.callback, h.called, h.users⟩
    · exact h
  | storeShutdown | storeForceClose =>
    obtain ⟨-, hs⟩ := Option.ite_none_right_eq_some.mp hs
    cases hs
    exact ⟨h.callback, h.called, h.users⟩
  | pushForceClose =>
    obtain ⟨-, hs⟩ := Option.ite_none_right_eq_some.mp hs
    cases hs
    have hcallback := h.callback
    rw [List.mem_append, not_or] at hcallback
    refine ⟨?_, h.called, h.users.imp_right (Or.imp_right
      fun hc => hc.imp_right fun hmem => mem_queueInLoop.mpr (Or.inl hmem))⟩
    rw [List.mem_append, not_or]
    exact ⟨hcallback.1, fun hmem => (mem_queueInLoop.mp hmem).elim hcallback.2 nofun⟩
  | loopShutdown =>
    simp only [ClientConnection.exec] at hs
    split_ifs at hs
    cases hs
    unfold ClientConnection.shutdown
    split_ifs
    · exact ⟨h.callback, h.called, h.users⟩
    · exact h
  | loopForceClose =>
    simp only [ClientConnection.exec] at hs
    split_ifs at hs
    cases hs
    have hframe : Frame s s.forceClose := .forceClose
    refine ⟨hframe.callback h.callback, ?_, ?_⟩
    · rw [hframe.batch, hframe.closed]
      exact h.called
    · have hconn : s.forceClose.connection = s.connection := by
        unfold ClientConnection.forceClose
        split_ifs <;> rfl
      rw [hconn, hframe.users]
      exact h.users.imp_right (Or.imp_right hframe.closing)
  | close =>
    obtain ⟨-, hs⟩ := Option.ite_none_right_eq_some.mp hs
    cases hs
    exact .of_closed (callback_handleClose h.callback) handleClose_closed
  | beginFunctors =>
    obtain ⟨loop, hl, rfl⟩ := Option.map_eq_some_iff.mp hs
    have hqueued := EventLoop.queued_beginFunctors hl
    exact ⟨hqueued ▸ h.callback, h.called, h.users.imp_right (Or.imp_right
      fun hc => hc.imp_right fun hmem => hqueued ▸ hmem)⟩
  | functor =>
    obtain ⟨⟨f, loop⟩, hl, rfl⟩ := Option.map_eq_some_iff.mp hs
    exact h.functor hbase hl
  | endFunctors =>
    obtain ⟨loop, hl, rfl⟩ := Option.map_eq_some_iff.mp hs
    have hqueued := EventLoop.queued_endFunctors hl
    refine ⟨fun hmem => h.callback (List.mem_append_right _ ?_), nofun, h.users.imp_right
      (Or.imp_right fun hc => hc.imp_right fun hmem => hqueued ▸ hmem)⟩
    rw [← hqueued]
    exact hmem
  | destroy guarded =>
    obtain ⟨⟨-, hdtor⟩, hs⟩ := Option.ite_none_right_eq_some.mp hs
    cases hs
    refine h.destroyClient hbase hdtor fun hg => ?_
    cases hg
    exact hok
  | destroyElsewhere => exact hok.elim
  | dtor =>
    simp only [ClientConnection.exec, hloop.dtor] at hs
    cases hs

/-- If the client is destroyed on the loop thread, no thread stores `kDisconnecting` when the connection has
been closed, and somebody else keeps the connection until then, it is closed and removed from the poller
before it is destroyed, and the assertion of its destructor holds. -/
theorem kept_until_closed (hok : Run.Along step Careful new acts) (hrun : run new acts = some s)
    (hdestroyed : s.destroyed = true) : s.removed = true ∧ s.state = .kDisconnected := by
  have hstep (s s' : ClientConnection) (act : Act) (hok : Careful s act) (hs : s.step act = some s')
      (h : Inv s ∧ OnLoop s ∧ Kept s) : Inv s' ∧ OnLoop s' ∧ Kept s' := by
    obtain ⟨m, hm, rfl⟩ := Option.map_eq_some_iff.mp hs
    have hkept := h.2.2.exec h.1.toBase h.2.1 hok hm
    exact ⟨h.1.step hs, h.2.1.step h.1.toBase hok.inTime hs, hkept.callback, hkept.called, hkept.users⟩
  have hnew : Kept new := ⟨by simp [new, EventLoop.queued], by simp [new], Or.inl rfl⟩
  obtain ⟨hinv, hloop, hkept⟩ :=
    Run.run_inv_along (P := fun s : ClientConnection => Inv s ∧ OnLoop s ∧ Kept s)
      (fun s act s' hok hs h => hstep s s' act hok hs h) hok hrun ⟨.new, .new, hnew⟩
  obtain ⟨hconn, -, hqueued, husers, -⟩ := refs_eq_zero.mp (hinv.dead.mp hdestroyed)
  have hnot (f : Functor) : f ∉ s.loop.queued := by simp [hqueued]
  have hclosed : s.closed = true := by
    rcases hkept.users with hkeeps | hkeeps | hkeeps | hkeeps
    · simp [hconn] at hkeeps
    · omega
    · exact hkeeps
    · exact absurd hkeeps (hnot _)
  exact ⟨(hinv.removal hclosed hloop.dangling).resolve_right (hnot _), hloop.state hclosed⟩

/-- The client alone holds the connection, shuts it down, and is destroyed. -/
def forceClosed : List Act :=
  [.loopShutdown, .destroy false, .beginFunctors, .functor false, .endFunctors, .beginFunctors,
    .functor false, .endFunctors]

theorem kept_until_closed_forceClosed :
    ∃ s, run new forceClosed = some s ∧ s.destroyed = true ∧ s.removed = true ∧
      s.state = .kDisconnected := by
  have heval : ((run new forceClosed).map destroyed) = some true := by decide +kernel
  have hok : Run.Along step Careful new forceClosed := by decide +kernel
  obtain ⟨s, hrun, hdestroyed⟩ := Option.map_eq_some_iff.mp heval
  exact ⟨s, hrun, hdestroyed, kept_until_closed hok hrun hdestroyed⟩

end ClientConnection

end MuduoCpp11.Net
