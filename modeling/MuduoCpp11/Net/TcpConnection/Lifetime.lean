import MuduoCpp11.Lib.Run
import MuduoCpp11.Net.EventLoop
import MuduoCpp11.Net.TcpConnection

/-! # The lifetime of a connection

A connection lives as long as somebody shares it: the map of the server, the functors that carry it
from loop to loop, the user's threads. But `Send` and `Shutdown`, called on another thread, queue a
functor that holds `this` and shares nothing. Between the test of `state_` in `Send` and the functor it
queues, the connection may be closed, removed from the map and its `ConnectDestroyed` called; if the
thread then lets its pointer go, the functor is called on a connection that is gone.

That is the only way it can happen (`destroyed_safely`): a functor that is queued before the loop takes
`ConnectDestroyed` from its queue runs in the same batch at the latest, and the batch shares the
connection to its end. So a thread that keeps its pointer until such a late functor has been called is
safe (`no_dangling`). The connection is destroyed behind `ConnectDestroyed`, and in `kDisconnected` if
no thread was inside of `Shutdown` or `ForceClose`, in front of its store, when the connection was
closed (`destroyed_disconnected`).

The threads of the user are `T`. Functors are destroyed with the vector of their batch. The server lives:
`~TcpServer`, which on its own loop calls `ConnectDestroyed` of a connection directly, is no step here. -/

namespace MuduoCpp11.Net

open MuduoCpp11.Lib

namespace Lifetime

/-- The functors in the loop of the connection. Those of `Send` and `Shutdown` hold `this`, with their
thread; `late` says that the loop had taken `ConnectDestroyed` when they were queued. -/
inductive Functor (T : Type*) where
  | connectDestroyed
  | forceCloseInLoop
  | sendInLoop (t : T) (late : Bool)
  | shutdownInLoop (t : T) (late : Bool)
  deriving DecidableEq

/-- It shares the connection. -/
def Functor.owns {T : Type*} : Functor T → Bool
  | .connectDestroyed | .forceCloseInLoop => true
  | .sendInLoop _ _ | .shutdownInLoop _ _ => false

/-- It holds `this`, for a thread, and is late or not. -/
def Functor.raw {T : Type*} : Functor T → Option (T × Bool)
  | .connectDestroyed | .forceCloseInLoop => none
  | .sendInLoop t late | .shutdownInLoop t late => some (t, late)

/-- Where a thread is inside of a member function: behind its test of `state_`. -/
inductive Pc where
  | sendPush
  | shutdownStore
  | shutdownPush
  | forceCloseStore
  | forceClosePush
  deriving DecidableEq, Repr

end Lifetime

/-- A connection behind `ConnectEstablished`. `entry` is that of the map; `removing` are the functors of
`RemoveConnection` in the loop of the server, `serverBatch` those that have been called and are not yet
destroyed, and `batch` the called functors of the connection's own loop. `registered`: the channel
reports events; `removed`: `ConnectDestroyed` has been called.

`taken`, `closed` and `dangling` are history: the loop has taken `ConnectDestroyed` from its queue, the
connection has been closed, and the calls of functors on a connection that is destroyed. -/
structure Lifetime (T : Type*) where
  sameLoop : Bool
  state : StateE := .kConnected
  registered : Bool := true
  removed : Bool := false
  entry : Bool := true
  removing : ℕ := 0
  serverBatch : ℕ := 0
  loop : EventLoop (Lifetime.Functor T) := {}
  batch : List (Lifetime.Functor T) := []
  users : List T := []
  inside : T → Option Lifetime.Pc := fun _ => none
  destroyed : Bool := false
  taken : Bool := false
  closed : Bool := false
  dangling : List (T × Bool) := []

namespace Lifetime

variable {T : Type*} [DecidableEq T]

def new (sameLoop : Bool) : Lifetime T := { sameLoop }

section
variable (s : Lifetime T)

/-- How many share the connection. -/
def refs : ℕ :=
  s.entry.toNat + s.removing + s.serverBatch + (s.batch ++ s.loop.queued).countP Functor.owns +
    s.users.length

def queueInLoop (f : Functor T) : Lifetime T := { s with loop := s.loop.push f }

/-- What `RemoveConnectionInLoop` does with the connection. -/
def removeConnectionInLoop : Lifetime T := { s with entry := false }.queueInLoop .connectDestroyed

/-- `HandleClose`, and `RemoveConnection` behind it. -/
def handleClose : Lifetime T :=
  let s := { s with state := .kDisconnected, registered := false, closed := true }
  if s.sameLoop then s.removeConnectionInLoop else { s with removing := s.removing + 1 }

def connectDestroyed : Lifetime T :=
  let s := if s.state = .kConnected then { s with state := .kDisconnected, registered := false } else s
  { s with removed := true }

def forceCloseInLoop : Lifetime T :=
  if s.state = .kConnected ∨ s.state = .kDisconnecting then s.handleClose else s

/-- `SendInLoop` and `ShutdownInLoop` are called through `this`. -/
def runFunctor (f : Functor T) : Lifetime T :=
  match f with
  | .connectDestroyed => s.connectDestroyed
  | .forceCloseInLoop => s.forceCloseInLoop
  | .sendInLoop t late | .shutdownInLoop t late =>
    if s.destroyed then { s with dangling := s.dangling ++ [(t, late)] } else s

def setInside (t : T) (pc : Option Pc) : Lifetime T :=
  { s with inside := Function.update s.inside t pc }

/-- The last one to share the connection destroys it. -/
def settle : Lifetime T := { s with destroyed := s.destroyed || s.refs = 0 }

end

/-- `share` and `drop` are what a user's thread does with its pointers, `send`, `shutdown` and
`forceClose` its calls up to the test of `state_`, and `store` and `push` what follows. `loopShutdown`
and `loopForceClose` are calls on the loop thread, and `close` is an event of the channel.
`removeConnectionInLoop` and `endServer` are steps of the server's loop. -/
inductive Act (T : Type*) where
  | share (t : T)
  | drop (t : T)
  | send (t : T)
  | shutdown (t : T)
  | forceClose (t : T)
  | store (t : T)
  | push (t : T)
  | loopShutdown
  | loopForceClose
  | close
  | beginFunctors
  | functor
  | endFunctors
  | removeConnectionInLoop
  | endServer
  deriving DecidableEq

section
variable (s : Lifetime T)

/-- A thread that shares the connection calls a member function; `state_` is as it should. -/
def enter (t : T) (ok : Bool) (pc : Pc) : Option (Lifetime T) :=
  if t ∈ s.users ∧ s.inside t = none then some (if ok then s.setInside t (some pc) else s) else none

def exec : Act T → Option (Lifetime T)
  | .share t => if s.destroyed then none else some { s with users := t :: s.users }
  | .drop t =>
    if t ∈ s.users ∧ s.inside t = none then some { s with users := s.users.erase t } else none
  | .send t => s.enter t (s.state = .kConnected) .sendPush
  | .shutdown t => s.enter t (s.state = .kConnected) .shutdownStore
  | .forceClose t =>
    s.enter t (s.state = .kConnected || s.state = .kDisconnecting) .forceCloseStore
  | .store t =>
    match s.inside t with
    | some .shutdownStore =>
      some ({ s with state := .kDisconnecting }.setInside t (some .shutdownPush))
    | some .forceCloseStore =>
      some ({ s with state := .kDisconnecting }.setInside t (some .forceClosePush))
    | _ => none
  | .push t =>
    match s.inside t with
    | some .sendPush => some ((s.queueInLoop (.sendInLoop t s.taken)).setInside t none)
    | some .shutdownPush => some ((s.queueInLoop (.shutdownInLoop t s.taken)).setInside t none)
    | some .forceClosePush => some ((s.queueInLoop .forceCloseInLoop).setInside t none)
    | _ => none
  | .loopShutdown =>
    if s.destroyed then none
    else some (if s.state = .kConnected then { s with state := .kDisconnecting } else s)
  | .loopForceClose =>
    if s.destroyed then none
    else some (if s.state = .kConnected ∨ s.state = .kDisconnecting then
      { s with state := .kDisconnecting }.queueInLoop .forceCloseInLoop else s)
  | .close =>
    if s.registered ∧ s.loop.callingPendingFunctors = false then some s.handleClose else none
  | .beginFunctors =>
    s.loop.beginFunctors.map fun loop =>
      { s with loop, taken := s.taken || .connectDestroyed ∈ s.loop.pendingFunctors }
  | .functor =>
    s.loop.nextFunctor.map fun r =>
      { s with loop := r.2, batch := s.batch ++ [r.1] }.runFunctor r.1
  | .endFunctors => s.loop.endFunctors.map fun loop => { s with loop, batch := [] }
  | .removeConnectionInLoop =>
    if 0 < s.removing then
      let s := { s with removing := s.removing - 1, serverBatch := s.serverBatch + 1 }
      some s.removeConnectionInLoop
    else none
  | .endServer => some { s with serverBatch := 0 }

def step (act : Act T) : Option (Lifetime T) := (s.exec act).map settle

end

def run : Lifetime T → List (Act T) → Option (Lifetime T) := Run.run step

/-! ### The invariant -/

/-- It holds `this` and was queued in time. -/
def Functor.early (f : Functor T) : Prop := ∃ t, f.raw = some (t, false)

/-- What holds whoever destroys the connection. -/
structure Core (s : Lifetime T) : Prop where
  held : s.taken = false → s.entry = true ∨ 0 < s.removing ∨ .connectDestroyed ∈ s.loop.pendingFunctors
  isOpen : s.closed = false → s.entry = true ∧ s.removing = 0 ∧ s.taken = false ∧
    .connectDestroyed ∉ s.loop.queued
  registered : s.registered = true → s.closed = false
  sharing : ∀ t, s.inside t ≠ none → t ∈ s.users
  destroyer : s.taken = true → .connectDestroyed ∈ s.loop.functors ∨ s.removed = true
  pending : s.taken = true → ∀ f ∈ s.loop.pendingFunctors, ¬ f.early
  batch : s.taken = true → ∀ f ∈ s.loop.functors, f.early →
    .connectDestroyed ∈ s.batch ++ s.loop.functors
  late : ∀ p ∈ s.dangling, p.2 = true

/-- **The invariant.** -/
structure Inv (s : Lifetime T) : Prop extends Core s where
  dead : s.destroyed = true ↔ s.refs = 0

section
variable {s s' : Lifetime T} {act : Act T} {f : Functor T} {t : T}

omit [DecidableEq T] in
theorem refs_eq_zero : s.refs = 0 ↔ s.entry = false ∧ s.removing = 0 ∧ s.serverBatch = 0 ∧
    (∀ f ∈ s.batch ++ s.loop.queued, f.owns = false) ∧ s.users = [] := by
  cases he : s.entry with
  | true => simp [refs, he]
  | false =>
    simp only [refs, he, Nat.add_eq_zero_iff, List.countP_eq_zero, List.length_eq_zero_iff, and_assoc,
      Bool.toNat_false, true_and, Bool.not_eq_true]

omit [DecidableEq T] in
theorem not_early_of_owns (h : f.owns = true) : ¬ f.early := by
  rintro ⟨t, ht⟩
  cases f with
  | connectDestroyed | forceCloseInLoop => cases ht
  | sendInLoop | shutdownInLoop => cases h

/-! ### What the steps do to it -/

omit [DecidableEq T] in
/-- The invariant reads only these. -/
theorem Core.of_eq (h : Core s) (hentry : s'.entry = s.entry) (hremoving : s'.removing = s.removing)
    (htaken : s'.taken = s.taken) (hloop : s'.loop = s.loop) (hbatch : s'.batch = s.batch)
    (hclosed : s'.closed = s.closed) (hregistered : s'.registered = true → s.registered = true)
    (hremoved : s'.removed = s.removed) (hdangling : s'.dangling = s.dangling)
    (hsharing : ∀ t, s'.inside t ≠ none → t ∈ s'.users) : Core s' where
  held := by rw [htaken, hentry, hremoving, hloop]; exact h.held
  isOpen := by rw [hclosed, hentry, hremoving, htaken, hloop]; exact h.isOpen
  registered hr := by rw [hclosed]; exact h.registered (hregistered hr)
  sharing := hsharing
  destroyer := by rw [htaken, hloop, hremoved]; exact h.destroyer
  pending := by rw [htaken, hloop]; exact h.pending
  batch := by rw [htaken, hloop, hbatch]; exact h.batch
  late := by rw [hdangling]; exact h.late

omit [DecidableEq T] in
/-- A functor is queued; `ConnectDestroyed` is behind the close only. -/
theorem Core.queue (h : Core s) (f : Functor T) (hearly : f.early → s.taken = false)
    (hclosed : f = .connectDestroyed → s.closed = true) : Core (s.queueInLoop f) where
  held ht := (h.held ht).imp_right (Or.imp_right (List.mem_append_left [f]))
  isOpen hc := by
    obtain ⟨hentry, hremoving, htaken, hnot⟩ := h.isOpen hc
    refine ⟨hentry, hremoving, htaken, ?_⟩
    show Functor.connectDestroyed ∉ s.loop.functors ++ (s.loop.pendingFunctors ++ [f])
    rw [← List.append_assoc, List.mem_append, not_or]
    refine ⟨hnot, fun hf => ?_⟩
    have hc' : s.closed = false := hc
    rw [hclosed (List.mem_singleton.mp hf).symm] at hc'
    cases hc'
  registered := h.registered
  sharing := h.sharing
  destroyer := h.destroyer
  pending ht g hg := by
    rcases List.mem_append.mp hg with hg | hg
    · exact h.pending ht g hg
    · rw [List.mem_singleton.mp hg]
      intro he
      have ht' : s.taken = true := ht
      rw [hearly he] at ht'
      cases ht'
  batch := h.batch
  late := h.late

omit [DecidableEq T] in
/-- The entry of a connection that has been closed is erased. -/
theorem Core.removeConnectionInLoop (h : Core s) (hclosed : s.closed = true) (n m : ℕ) :
    Core ({ s with removing := n, serverBatch := m }.removeConnectionInLoop) := by
  have hq : Core (s.queueInLoop .connectDestroyed) :=
    h.queue .connectDestroyed (fun he => absurd he (not_early_of_owns rfl)) fun _ => hclosed
  refine ⟨fun _ => Or.inr (Or.inr ?_), fun hc => ?_, hq.registered, hq.sharing, hq.destroyer,
    hq.pending, hq.batch, hq.late⟩
  · exact List.mem_append_right _ (List.mem_singleton_self _)
  · rw [show s.closed = false from hc] at hclosed
    cases hclosed

omit [DecidableEq T] in
theorem Core.handleClose (h : Core s) : Core s.handleClose := by
  have hclosed : Core { s with state := .kDisconnected, registered := false, closed := true } :=
    ⟨h.held, nofun, nofun, h.sharing, h.destroyer, h.pending, h.batch, h.late⟩
  unfold Lifetime.handleClose
  simp only
  split_ifs
  · exact hclosed.removeConnectionInLoop rfl _ _
  · exact ⟨fun _ => Or.inr (Or.inl (Nat.succ_pos _)), nofun, nofun, h.sharing, h.destroyer,
      h.pending, h.batch, h.late⟩

/-- The loop takes its queue. -/
theorem Core.beginFunctors (h : Core s) {loop : EventLoop (Functor T)}
    (hl : s.loop.beginFunctors = some loop) :
    Core { s with loop, taken := s.taken || .connectDestroyed ∈ s.loop.pendingFunctors } := by
  have hqueued := EventLoop.queued_beginFunctors hl
  unfold EventLoop.beginFunctors at hl
  split_ifs at hl with hcalling
  cases hl
  have hnil : s.loop.functors = [] := s.loop.idle (by simpa using hcalling)
  refine ⟨fun ht => ?_, fun hc => ?_, h.registered, h.sharing, fun ht => ?_, fun _ _ hf => ?_,
    fun ht f hf he => ?_, h.late⟩
  · simp only [Bool.or_eq_false_iff, decide_eq_false_iff_not] at ht
    rcases h.held ht.1 with hentry | hremoving | hmem
    · exact Or.inl hentry
    · exact Or.inr (Or.inl hremoving)
    · exact absurd hmem ht.2
  · obtain ⟨hentry, hremoving, htaken, hnot⟩ := h.isOpen hc
    refine ⟨hentry, hremoving, ?_, hqueued ▸ hnot⟩
    have hnot' : Functor.connectDestroyed ∉ s.loop.pendingFunctors := fun hmem =>
      hnot (List.mem_append_right _ hmem)
    simp [htaken, hnot']
  · simp only [Bool.or_eq_true, decide_eq_true_eq] at ht
    rcases ht with ht | ht
    · exact Or.inr ((h.destroyer ht).resolve_left (by simp [hnil]))
    · exact Or.inl ht
  · cases hf
  · simp only [Bool.or_eq_true, decide_eq_true_eq] at ht
    rcases ht with ht | ht
    · exact absurd he (h.pending ht f hf)
    · exact List.mem_append_right _ ht

omit [DecidableEq T] in
/-- The loop goes on to its next functor; `ConnectDestroyed` is noted. -/
theorem Core.nextFunctor (h : Core s) {loop : EventLoop (Functor T)}
    (hl : s.loop.nextFunctor = some (f, loop)) {removed : Bool}
    (hremoved : s.removed = true ∨ f = .connectDestroyed → removed = true) :
    Core { s with loop, batch := s.batch ++ [f], removed } := by
  have hqueued := EventLoop.queued_nextFunctor hl
  obtain ⟨hfunctors, hpending, -, -⟩ := EventLoop.nextFunctor_spec hl
  refine ⟨fun ht => ?_, fun hc => ?_, h.registered, h.sharing, fun ht => ?_, fun ht g hg => ?_,
    fun ht g hg he => ?_, h.late⟩
  · show _ ∨ _ ∨ _ ∈ loop.pendingFunctors
    rw [hpending]
    exact h.held ht
  · obtain ⟨hentry, hremoving, htaken, hnot⟩ := h.isOpen hc
    rw [hqueued] at hnot
    exact ⟨hentry, hremoving, htaken, fun hmem => hnot (List.mem_cons_of_mem _ hmem)⟩
  · rcases h.destroyer ht with hmem | hr
    · rw [hfunctors] at hmem
      rcases List.mem_cons.mp hmem with he | hmem
      · exact Or.inr (hremoved (Or.inr he.symm))
      · exact Or.inl hmem
    · exact Or.inr (hremoved (Or.inl hr))
  · exact h.pending ht g (hpending ▸ hg)
  · have hmem := h.batch ht g (hfunctors ▸ List.mem_cons_of_mem f hg) he
    rw [hfunctors] at hmem
    simpa using hmem

omit [DecidableEq T] in
/-- The batch is destroyed. -/
theorem Core.endFunctors (h : Core s) {loop : EventLoop (Functor T)}
    (hl : s.loop.endFunctors = some loop) : Core { s with loop, batch := [] } := by
  unfold EventLoop.endFunctors at hl
  split_ifs at hl with hend
  cases hl
  refine ⟨h.held, h.isOpen, h.registered, h.sharing, h.destroyer, h.pending, fun _ f hf => ?_, h.late⟩
  rw [show s.loop.functors = [] from hend.2] at hf
  cases hf

/-! ### Who is destroyed -/

omit [DecidableEq T] in
/-- A connection that is destroyed is out of the map, and nothing that shares it is left. -/
theorem Inv.gone (h : Inv s) (hd : s.destroyed = true) : s.entry = false ∧ s.removing = 0 ∧
    s.serverBatch = 0 ∧ (∀ f ∈ s.batch ++ s.loop.queued, f.owns = false) ∧ s.users = [] :=
  refs_eq_zero.mp (h.dead.mp hd)

omit [DecidableEq T] in
/-- The loop has taken its `ConnectDestroyed`, -/
theorem Inv.taken_of_destroyed (h : Inv s) (hd : s.destroyed = true) : s.taken = true := by
  obtain ⟨hentry, hremoving, -, howns, -⟩ := h.gone hd
  by_contra ht
  rcases h.held (by simpa using ht) with he | hr | hmem
  · rw [hentry] at he
    cases he
  · omega
  · have := howns .connectDestroyed (by simp [EventLoop.queued, hmem])
    cases this

omit [DecidableEq T] in
/-- and has no functor any more that was queued in time. -/
theorem Inv.not_early (h : Inv s) (hd : s.destroyed = true) (hf : f ∈ s.loop.functors) :
    ¬ f.early := by
  intro he
  have hmem := h.batch (h.taken_of_destroyed hd) f hf he
  have := (h.gone hd).2.2.2.1 .connectDestroyed (by
    rw [EventLoop.queued, ← List.append_assoc]
    exact List.mem_append_left _ hmem)
  cases this

theorem Core.setInside (h : Core s) {pc : Option Pc} (ht : pc ≠ none → t ∈ s.users) :
    Core (s.setInside t pc) := by
  refine h.of_eq rfl rfl rfl rfl rfl rfl id rfl rfl fun u hu => ?_
  rcases eq_or_ne u t with rfl | hne
  · refine ht fun hnone => hu ?_
    rw [Lifetime.setInside, hnone]
    exact Function.update_self u none s.inside
  · refine h.sharing u fun hnone => hu ?_
    rw [Lifetime.setInside]
    show Function.update s.inside t pc u = none
    rw [Function.update_of_ne hne, hnone]

/-- A thread queues its functor and leaves. -/
theorem Core.push (h : Core s) (hearly : f.early → s.taken = false) (hne : f ≠ .connectDestroyed) :
    Core ((s.queueInLoop f).setInside t none) :=
  (h.queue f hearly fun he => absurd he hne).setInside (absurd rfl)

theorem Core.enter (h : Core s) {ok : Bool} {pc : Pc} (hs : s.enter t ok pc = some s') : Core s' := by
  obtain ⟨⟨ht, -⟩, hs⟩ := Option.ite_none_right_eq_some.mp hs
  cases hs
  split_ifs
  · exact h.setInside fun _ => ht
  · exact h

omit [DecidableEq T] in
/-- A functor is called, on a connection that is there if it was queued in time. -/
theorem Inv.functor (h : Inv s) {loop : EventLoop (Functor T)}
    (hl : s.loop.nextFunctor = some (f, loop)) :
    Core ({ s with loop, batch := s.batch ++ [f] }.runFunctor f) := by
  cases f with
  | connectDestroyed =>
    have hc : Core { s with loop, batch := s.batch ++ [.connectDestroyed], removed := true } :=
      h.nextFunctor hl fun _ => rfl
    simp only [runFunctor, Lifetime.connectDestroyed]
    split_ifs
    · exact hc.of_eq rfl rfl rfl rfl rfl rfl nofun rfl rfl hc.sharing
    · exact hc
  | forceCloseInLoop =>
    have hc : Core { s with loop, batch := s.batch ++ [.forceCloseInLoop] } :=
      h.nextFunctor hl (by simp)
    simp only [runFunctor, Lifetime.forceCloseInLoop]
    split_ifs
    · exact hc.handleClose
    · exact hc
  | sendInLoop t late | shutdownInLoop t late =>
    have hc : Core { s with loop, batch := _ } := h.nextFunctor hl (by simp)
    simp only [runFunctor]
    split_ifs with hd
    · have hmem := (EventLoop.nextFunctor_spec hl).1
      have hlate : late = true := by
        have hnot := h.not_early hd (by rw [hmem]; exact List.mem_cons_self)
        by_contra hearly
        exact hnot ⟨t, by simpa [Functor.raw] using hearly⟩
      refine ⟨hc.held, hc.isOpen, hc.registered, hc.sharing, hc.destroyer, hc.pending, hc.batch, ?_⟩
      intro p hp
      rcases List.mem_append.mp hp with hp | hp
      · exact hc.late p hp
      · rw [List.mem_singleton.mp hp]
        exact hlate
    · exact hc

/-- **Every step keeps the invariant**, but for who is destroyed. -/
theorem Inv.exec (h : Inv s) (hs : s.exec act = some s') : Core s' := by
  cases act with
  | share t =>
    simp only [Lifetime.exec] at hs
    split_ifs at hs
    cases hs
    exact h.of_eq rfl rfl rfl rfl rfl rfl id rfl rfl fun u hu => List.mem_cons_of_mem t (h.sharing u hu)
  | drop t =>
    obtain ⟨⟨-, hout⟩, hs⟩ := Option.ite_none_right_eq_some.mp hs
    cases hs
    refine h.of_eq rfl rfl rfl rfl rfl rfl id rfl rfl fun u hu => ?_
    have hne : u ≠ t := by
      rintro rfl
      exact hu hout
    exact (List.mem_erase_of_ne hne).mpr (h.sharing u hu)
  | send t | shutdown t | forceClose t => exact h.toCore.enter hs
  | store t =>
    simp only [Lifetime.exec] at hs
    have hin (hpc : s.inside t ≠ none) (pc : Pc) :
        Core ({ s with state := .kDisconnecting }.setInside t (some pc)) := by
      have hc : Core { s with state := .kDisconnecting } :=
        h.of_eq rfl rfl rfl rfl rfl rfl id rfl rfl h.sharing
      exact hc.setInside fun _ => h.sharing t hpc
    split at hs
    · rename_i hpc
      cases hs
      exact hin (by simp [hpc]) _
    · rename_i hpc
      cases hs
      exact hin (by simp [hpc]) _
    · cases hs
  | push t =>
    simp only [Lifetime.exec] at hs
    split at hs
    · cases hs
      refine h.toCore.push (f := .sendInLoop t s.taken) ?_ nofun
      rintro ⟨u, hu⟩
      simpa [Functor.raw] using congrArg (Option.map Prod.snd) hu
    · cases hs
      refine h.toCore.push (f := .shutdownInLoop t s.taken) ?_ nofun
      rintro ⟨u, hu⟩
      simpa [Functor.raw] using congrArg (Option.map Prod.snd) hu
    · cases hs
      exact h.toCore.push (f := .forceCloseInLoop)
        (fun he => absurd he (not_early_of_owns rfl)) nofun
    · cases hs
  | loopShutdown =>
    simp only [Lifetime.exec] at hs
    split_ifs at hs <;> cases hs
    · exact h.of_eq rfl rfl rfl rfl rfl rfl id rfl rfl h.sharing
    · exact h.toCore
  | loopForceClose =>
    simp only [Lifetime.exec] at hs
    split_ifs at hs <;> cases hs
    · have hc : Core { s with state := .kDisconnecting } :=
        h.of_eq rfl rfl rfl rfl rfl rfl id rfl rfl h.sharing
      exact hc.queue .forceCloseInLoop (fun he => absurd he (not_early_of_owns rfl)) nofun
    · exact h.toCore
  | close =>
    obtain ⟨-, hs⟩ := Option.ite_none_right_eq_some.mp hs
    cases hs
    exact h.handleClose
  | beginFunctors =>
    obtain ⟨loop, hl, rfl⟩ := Option.map_eq_some_iff.mp hs
    exact h.toCore.beginFunctors hl
  | functor =>
    obtain ⟨⟨f, loop⟩, hl, rfl⟩ := Option.map_eq_some_iff.mp hs
    exact h.functor hl
  | endFunctors =>
    obtain ⟨loop, hl, rfl⟩ := Option.map_eq_some_iff.mp hs
    exact h.toCore.endFunctors hl
  | removeConnectionInLoop =>
    obtain ⟨hpos, hs⟩ := Option.ite_none_right_eq_some.mp hs
    cases hs
    refine h.toCore.removeConnectionInLoop ?_ _ _
    by_contra hc
    have hzero := (h.isOpen (by simpa using hc)).2.1
    omega
  | endServer =>
    cases hs
    exact h.of_eq rfl rfl rfl rfl rfl rfl id rfl rfl h.sharing

omit [DecidableEq T] in
theorem destroyed_runFunctor : (s.runFunctor f).destroyed = s.destroyed := by
  cases f with
  | connectDestroyed =>
    simp only [runFunctor, Lifetime.connectDestroyed]
    split_ifs <;> rfl
  | forceCloseInLoop =>
    simp only [runFunctor, Lifetime.forceCloseInLoop, Lifetime.handleClose]
    split_ifs <;> rfl
  | sendInLoop | shutdownInLoop =>
    simp only [runFunctor]
    split_ifs <;> rfl

theorem destroyed_exec (hs : s.exec act = some s') : s'.destroyed = s.destroyed := by
  cases act with
  | share | loopShutdown | loopForceClose =>
    simp only [Lifetime.exec] at hs
    split_ifs at hs <;> cases hs <;> rfl
  | drop | removeConnectionInLoop =>
    obtain ⟨-, hs⟩ := Option.ite_none_right_eq_some.mp hs
    cases hs
    rfl
  | send | shutdown | forceClose =>
    obtain ⟨-, hs⟩ := Option.ite_none_right_eq_some.mp hs
    cases hs
    split_ifs <;> rfl
  | store | push =>
    simp only [Lifetime.exec] at hs
    split at hs <;> cases hs <;> rfl
  | close =>
    obtain ⟨-, hs⟩ := Option.ite_none_right_eq_some.mp hs
    cases hs
    unfold Lifetime.handleClose
    simp only
    split_ifs <;> rfl
  | beginFunctors | endFunctors =>
    obtain ⟨loop, -, rfl⟩ := Option.map_eq_some_iff.mp hs
    rfl
  | functor =>
    obtain ⟨⟨f, loop⟩, -, rfl⟩ := Option.map_eq_some_iff.mp hs
    exact destroyed_runFunctor
  | endServer =>
    cases hs
    rfl

/-- Nothing shares a connection that is destroyed, ever again. -/
theorem Inv.refs_exec (h : Inv s) (hd : s.destroyed = true) (hs : s.exec act = some s') :
    s'.refs = 0 := by
  obtain ⟨hentry, hremoving, hserver, howns, husers⟩ := h.gone hd
  have hout (t : T) : s.inside t = none := by
    by_contra ht
    have hmem := h.sharing t ht
    rw [husers] at hmem
    cases hmem
  cases act with
  | share | loopShutdown | loopForceClose =>
    simp only [Lifetime.exec, hd, if_true] at hs
    cases hs
  | drop | send | shutdown | forceClose =>
    obtain ⟨⟨hmem, -⟩, -⟩ := Option.ite_none_right_eq_some.mp hs
    rw [husers] at hmem
    cases hmem
  | store t | push t =>
    simp only [Lifetime.exec, hout t] at hs
    cases hs
  | close =>
    obtain ⟨⟨hr, -⟩, -⟩ := Option.ite_none_right_eq_some.mp hs
    rw [(h.isOpen (h.registered hr)).1] at hentry
    cases hentry
  | beginFunctors =>
    obtain ⟨loop, hl, rfl⟩ := Option.map_eq_some_iff.mp hs
    refine refs_eq_zero.mpr ⟨hentry, hremoving, hserver, ?_, husers⟩
    rw [EventLoop.queued_beginFunctors hl]
    exact howns
  | functor =>
    obtain ⟨⟨f, loop⟩, hl, rfl⟩ := Option.map_eq_some_iff.mp hs
    rw [EventLoop.queued_nextFunctor hl] at howns
    have hf : f.owns = false := howns f (by simp)
    have hzero : refs { s with loop, batch := s.batch ++ [f] } = 0 :=
      refs_eq_zero.mpr ⟨hentry, hremoving, hserver, by simpa using howns, husers⟩
    cases f with
    | connectDestroyed | forceCloseInLoop => cases hf
    | sendInLoop | shutdownInLoop =>
      simp only [runFunctor, hd, if_true]
      exact hzero
  | endFunctors =>
    obtain ⟨loop, hl, rfl⟩ := Option.map_eq_some_iff.mp hs
    refine refs_eq_zero.mpr ⟨hentry, hremoving, hserver, ?_, husers⟩
    rw [EventLoop.queued_endFunctors hl]
    exact fun f hf => howns f (List.mem_append_right _ hf)
  | removeConnectionInLoop =>
    obtain ⟨hpos, -⟩ := Option.ite_none_right_eq_some.mp hs
    omega
  | endServer =>
    cases hs
    exact refs_eq_zero.mpr ⟨hentry, hremoving, rfl, howns, husers⟩

omit [DecidableEq T] in
theorem Core.settle (h : Core s) : Core s.settle :=
  h.of_eq rfl rfl rfl rfl rfl rfl id rfl rfl h.sharing

theorem Inv.step (h : Inv s) (hs : s.step act = some s') : Inv s' := by
  obtain ⟨m, hm, rfl⟩ := Option.map_eq_some_iff.mp hs
  refine ⟨(h.exec hm).settle, ?_⟩
  show (m.destroyed || decide (m.refs = 0)) = true ↔ m.refs = 0
  rw [Bool.or_eq_true, decide_eq_true_eq, destroyed_exec hm]
  exact ⟨fun hor => hor.elim (fun hd => h.refs_exec hd hm) id, Or.inr⟩

omit [DecidableEq T] in
theorem Inv.new (sameLoop : Bool) : Inv (new sameLoop : Lifetime T) where
  held _ := Or.inl rfl
  isOpen _ := ⟨rfl, rfl, rfl, by simp [Lifetime.new, EventLoop.queued]⟩
  registered _ := rfl
  sharing t ht := absurd rfl ht
  destroyer := nofun
  pending := nofun
  batch := nofun
  late := nofun
  dead := by simp [Lifetime.new, refs]

variable {acts : List (Act T)} {sameLoop : Bool}

theorem Inv.run (hrun : run (Lifetime.new sameLoop) acts = some s) : Inv s :=
  Run.run_inv (P := Inv) (fun _ _ _ hs h => h.step hs) hrun (.new sameLoop)

/-- A thread that lets its last pointer go has no late functor in the queue. -/
def Careful (s : Lifetime T) : Act T → Prop
  | .drop t => t ∉ s.users.erase t →
      .sendInLoop t true ∉ s.loop.queued ∧ .shutdownInLoop t true ∉ s.loop.queued
  | _ => True

instance (s : Lifetime T) (act : Act T) : Decidable (Careful s act) := by
  unfold Careful
  split <;> infer_instance

/-- The threads of the late functors still share the connection. -/
def Kept (s : Lifetime T) : Prop := ∀ f ∈ s.loop.queued, ∀ t, f.raw = some (t, true) → t ∈ s.users

omit [DecidableEq T] in
theorem Kept.of_subset (h : Kept s)
    (hqueued : ∀ f ∈ s'.loop.queued, f ∈ s.loop.queued ∨ f.raw = none) (husers : s'.users = s.users) :
    Kept s' := by
  intro f hf t ht
  rw [husers]
  rcases hqueued f hf with hf | hf
  · exact h f hf t ht
  · rw [hf] at ht
    cases ht

omit [DecidableEq T] in
theorem mem_queueInLoop {g : Functor T} (hg : g ∈ (s.queueInLoop f).loop.queued) :
    g ∈ s.loop.queued ∨ g = f := by
  simp only [queueInLoop, EventLoop.queued, EventLoop.push, ← List.append_assoc] at hg
  rcases List.mem_append.mp hg with hg | hg
  · exact Or.inl hg
  · exact Or.inr (List.mem_singleton.mp hg)

omit [DecidableEq T] in
theorem Kept.handleClose (h : Kept s) : Kept s.handleClose ∧ s.handleClose.dangling = s.dangling := by
  unfold Lifetime.handleClose
  simp only
  split_ifs
  · refine ⟨h.of_subset (fun f hf => (mem_queueInLoop hf).imp_right ?_) rfl, rfl⟩
    rintro rfl
    rfl
  · exact ⟨h, rfl⟩

omit [DecidableEq T] in
/-- A functor finds the connection, whoever queued it. -/
theorem Kept.functor (h : Kept s) (hinv : Inv s) {loop : EventLoop (Functor T)}
    (hl : s.loop.nextFunctor = some (f, loop)) :
    Kept ({ s with loop, batch := s.batch ++ [f] }.runFunctor f) ∧
      ({ s with loop, batch := s.batch ++ [f] }.runFunctor f).dangling = s.dangling := by
  have hqueued := EventLoop.queued_nextFunctor hl
  have hnext : Kept { s with loop, batch := s.batch ++ [f] } :=
    h.of_subset (fun g hg => Or.inl (by rw [hqueued]; exact List.mem_cons_of_mem _ hg)) rfl
  have halive (t : T) (late : Bool) (hraw : f.raw = some (t, late)) : s.destroyed = false := by
    by_contra hd
    have hd' : s.destroyed = true := by simpa using hd
    cases late with
    | true =>
      have hmem := h f (by rw [hqueued]; exact List.mem_cons_self) t hraw
      rw [(hinv.gone hd').2.2.2.2] at hmem
      cases hmem
    | false =>
      refine hinv.not_early hd' ?_ ⟨t, hraw⟩
      rw [(EventLoop.nextFunctor_spec hl).1]
      exact List.mem_cons_self
  cases f with
  | connectDestroyed =>
    simp only [runFunctor, Lifetime.connectDestroyed]
    split_ifs
    · exact ⟨hnext, rfl⟩
    · exact ⟨hnext, rfl⟩
  | forceCloseInLoop =>
    simp only [runFunctor, Lifetime.forceCloseInLoop]
    split_ifs
    · exact hnext.handleClose
    · exact ⟨hnext, rfl⟩
  | sendInLoop t late | shutdownInLoop t late =>
    simp only [runFunctor, halive t late rfl, Bool.false_eq_true, if_false]
    exact ⟨hnext, trivial⟩

theorem Kept.enter (h : Kept s) {ok : Bool} {pc : Pc} (hs : s.enter t ok pc = some s') :
    Kept s' ∧ s'.dangling = s.dangling := by
  obtain ⟨-, hs⟩ := Option.ite_none_right_eq_some.mp hs
  cases hs
  split_ifs
  · exact ⟨h, rfl⟩
  · exact ⟨h, rfl⟩

omit [DecidableEq T] in
theorem Kept.queue (h : Kept s) (hf : ∀ t late, f.raw = some (t, late) → t ∈ s.users) :
    Kept (s.queueInLoop f) := by
  intro g hg u hu
  rcases mem_queueInLoop hg with hg | rfl
  · exact h g hg u hu
  · exact hf u true hu

theorem Kept.exec (h : Kept s) (hinv : Inv s) (hok : Careful s act) (hs : s.exec act = some s') :
    Kept s' ∧ s'.dangling = s.dangling := by
  cases act with
  | share t =>
    simp only [Lifetime.exec] at hs
    split_ifs at hs
    cases hs
    exact ⟨fun f hf u hu => List.mem_cons_of_mem t (h f hf u hu), rfl⟩
  | drop t =>
    obtain ⟨-, hs⟩ := Option.ite_none_right_eq_some.mp hs
    cases hs
    refine ⟨fun f hf u hu => ?_, rfl⟩
    rcases eq_or_ne u t with rfl | hne
    · by_contra hgone
      obtain ⟨hsend, hshutdown⟩ := hok hgone
      cases f with
      | connectDestroyed | forceCloseInLoop => cases hu
      | sendInLoop =>
        cases hu
        exact hsend hf
      | shutdownInLoop =>
        cases hu
        exact hshutdown hf
    · exact (List.mem_erase_of_ne hne).mpr (h f hf u hu)
  | send t | shutdown t | forceClose t => exact h.enter hs
  | store t =>
    simp only [Lifetime.exec] at hs
    split at hs <;> cases hs
    · exact ⟨h, rfl⟩
    · exact ⟨h, rfl⟩
  | push t =>
    have hmem (hin : s.inside t ≠ none) (f : Functor T)
        (hraw : ∀ u late, f.raw = some (u, late) → u = t) : Kept (s.queueInLoop f) :=
      h.queue fun u late hu => hraw u late hu ▸ hinv.sharing t hin
    simp only [Lifetime.exec] at hs
    split at hs
    · rename_i hpc
      cases hs
      refine ⟨hmem (by simp [hpc]) (.sendInLoop t s.taken) fun u late hu => ?_, rfl⟩
      cases hu
      rfl
    · rename_i hpc
      cases hs
      refine ⟨hmem (by simp [hpc]) (.shutdownInLoop t s.taken) fun u late hu => ?_, rfl⟩
      cases hu
      rfl
    · rename_i hpc
      cases hs
      exact ⟨hmem (by simp [hpc]) .forceCloseInLoop nofun, rfl⟩
    · cases hs
  | loopShutdown =>
    simp only [Lifetime.exec] at hs
    split_ifs at hs <;> cases hs
    · exact ⟨h, rfl⟩
    · exact ⟨h, rfl⟩
  | loopForceClose =>
    simp only [Lifetime.exec] at hs
    split_ifs at hs <;> cases hs
    · exact ⟨Kept.queue (s := { s with state := .kDisconnecting }) h nofun, rfl⟩
    · exact ⟨h, rfl⟩
  | close =>
    obtain ⟨-, hs⟩ := Option.ite_none_right_eq_some.mp hs
    cases hs
    exact h.handleClose
  | beginFunctors =>
    obtain ⟨loop, hl, rfl⟩ := Option.map_eq_some_iff.mp hs
    exact ⟨h.of_subset (fun f hf => Or.inl (EventLoop.queued_beginFunctors hl ▸ hf)) rfl, rfl⟩
  | functor =>
    obtain ⟨⟨f, loop⟩, hl, rfl⟩ := Option.map_eq_some_iff.mp hs
    exact h.functor hinv hl
  | endFunctors =>
    obtain ⟨loop, hl, rfl⟩ := Option.map_eq_some_iff.mp hs
    exact ⟨h.of_subset (fun f hf => Or.inl (EventLoop.queued_endFunctors hl ▸ hf)) rfl, rfl⟩
  | removeConnectionInLoop =>
    obtain ⟨-, hs⟩ := Option.ite_none_right_eq_some.mp hs
    cases hs
    refine ⟨h.of_subset (fun f hf => (mem_queueInLoop hf).imp_right ?_) rfl, rfl⟩
    rintro rfl
    rfl
  | endServer =>
    cases hs
    exact ⟨h, rfl⟩

/-- If every thread keeps a pointer until its late functors have been called, no functor is called on a
connection that is gone. -/
theorem no_dangling (hcareful : Run.Along step Careful (new sameLoop) acts)
    (hrun : run (new sameLoop) acts = some s) : s.dangling = [] := by
  have hstep (s s' : Lifetime T) (act : Act T) (hok : Careful s act) (hs : s.step act = some s')
      (h : Inv s ∧ Kept s ∧ s.dangling = []) : Inv s' ∧ Kept s' ∧ s'.dangling = [] := by
    obtain ⟨m, hm, rfl⟩ := Option.map_eq_some_iff.mp hs
    obtain ⟨hkept, hdangling⟩ := h.2.1.exec h.1 hok hm
    exact ⟨h.1.step hs, hkept, hdangling.trans h.2.2⟩
  have hinv := Run.run_inv_along (P := fun s : Lifetime T => Inv s ∧ Kept s ∧ s.dangling = [])
    (fun s act s' hok hs h => hstep s s' act hok hs h) hcareful hrun
    ⟨.new sameLoop, fun f hf => by simp [Lifetime.new, EventLoop.queued] at hf, rfl⟩
  exact hinv.2.2

/-- The same thread keeps its pointer until its functor has been called. -/
def overtakenKept : List (Act ℕ) :=
  [.share 1, .send 1, .close, .removeConnectionInLoop, .endServer, .beginFunctors, .functor,
    .endFunctors, .push 1, .beginFunctors, .functor, .endFunctors, .drop 1]

theorem no_dangling_kept :
    ∃ s : Lifetime ℕ, run (new false) overtakenKept = some s ∧ s.destroyed = true ∧
      s.dangling = [] := by
  have heval : ((run (new false) overtakenKept).map Lifetime.destroyed) = some true := by
    decide +kernel
  have hcareful : Run.Along step Careful (new false) overtakenKept := by decide +kernel
  obtain ⟨s, hrun, hdestroyed⟩ := Option.map_eq_some_iff.mp heval
  exact ⟨s, hrun, hdestroyed, no_dangling hcareful hrun⟩

/-! ### The assertion of the destructor -/

/-- A store of `Shutdown` or `ForceClose` on another thread falls in front of the close. -/
def InTime (s : Lifetime T) : Act T → Prop
  | .store _ => s.closed = false
  | _ => True

instance (s : Lifetime T) (act : Act T) : Decidable (InTime s act) := by
  unfold InTime
  split <;> infer_instance

/-- A connection that has been closed is in `kDisconnected`. -/
def Settled (s : Lifetime T) : Prop := s.closed = true → s.state = .kDisconnected

omit [DecidableEq T] in
theorem settled_handleClose : Settled s.handleClose := by
  unfold Lifetime.handleClose
  simp only
  split_ifs
  · exact fun _ => rfl
  · exact fun _ => rfl

omit [DecidableEq T] in
theorem Settled.runFunctor (h : Settled s) : Settled (s.runFunctor f) := by
  cases f with
  | connectDestroyed =>
    simp only [Lifetime.runFunctor, Lifetime.connectDestroyed]
    split_ifs
    · exact fun _ => rfl
    · exact h
  | forceCloseInLoop =>
    simp only [Lifetime.runFunctor, Lifetime.forceCloseInLoop]
    split_ifs
    · exact settled_handleClose
    · exact h
  | sendInLoop | shutdownInLoop =>
    simp only [Lifetime.runFunctor]
    split_ifs
    · exact h
    · exact h

theorem Settled.exec (h : Settled s) (hok : InTime s act) (hs : s.exec act = some s') :
    Settled s' := by
  -- the loop thread tests `state_` and stores in one step
  have hloop (hstate : s.state = .kConnected ∨ s.state = .kDisconnecting) : s.closed = false := by
    by_contra hc
    have hdisc := h (by simpa using hc)
    rw [hdisc] at hstate
    rcases hstate with hstate | hstate <;> cases hstate
  cases act with
  | share =>
    simp only [Lifetime.exec] at hs
    split_ifs at hs
    cases hs
    exact h
  | drop =>
    obtain ⟨-, hs⟩ := Option.ite_none_right_eq_some.mp hs
    cases hs
    exact h
  | send | shutdown | forceClose =>
    obtain ⟨-, hs⟩ := Option.ite_none_right_eq_some.mp hs
    cases hs
    split_ifs
    · exact h
    · exact h
  | store t =>
    have hclosed : s.closed = false := hok
    simp only [Lifetime.exec] at hs
    split at hs <;> cases hs
    · exact fun hc => absurd (hclosed.symm.trans hc) Bool.false_ne_true
    · exact fun hc => absurd (hclosed.symm.trans hc) Bool.false_ne_true
  | push t =>
    simp only [Lifetime.exec] at hs
    split at hs <;> cases hs
    · exact h
    · exact h
    · exact h
  | loopShutdown =>
    simp only [Lifetime.exec] at hs
    split_ifs at hs with hd hstate <;> cases hs
    · exact fun hc => absurd ((hloop (Or.inl hstate)).symm.trans hc) Bool.false_ne_true
    · exact h
  | loopForceClose =>
    simp only [Lifetime.exec] at hs
    split_ifs at hs with hd hstate <;> cases hs
    · exact fun hc => absurd ((hloop hstate).symm.trans hc) Bool.false_ne_true
    · exact h
  | close =>
    obtain ⟨-, hs⟩ := Option.ite_none_right_eq_some.mp hs
    cases hs
    exact settled_handleClose
  | beginFunctors | endFunctors =>
    obtain ⟨loop, -, rfl⟩ := Option.map_eq_some_iff.mp hs
    exact h
  | functor =>
    obtain ⟨⟨f, loop⟩, -, rfl⟩ := Option.map_eq_some_iff.mp hs
    exact Settled.runFunctor h
  | removeConnectionInLoop =>
    obtain ⟨-, hs⟩ := Option.ite_none_right_eq_some.mp hs
    cases hs
    exact h
  | endServer =>
    cases hs
    exact h

/-- The assertion of the destructor holds if no thread is overtaken by the close inside of `Shutdown` or
`ForceClose`, between its test of `state_` and its store. -/
theorem destroyed_disconnected (hok : Run.Along step InTime (new sameLoop) acts)
    (hrun : run (new sameLoop) acts = some s) (hd : s.destroyed = true) :
    s.state = .kDisconnected := by
  obtain ⟨hinv, hsettled⟩ := Run.run_inv_along (P := fun s : Lifetime T => Inv s ∧ Settled s)
    (fun s act s' hok hs h => by
      obtain ⟨m, hm, rfl⟩ := Option.map_eq_some_iff.mp hs
      have hm' : Settled m := h.2.exec hok hm
      exact ⟨h.1.step hs, hm'⟩) hok hrun ⟨.new sameLoop, nofun⟩
  refine hsettled ?_
  by_contra hc
  have hentry := (hinv.isOpen (by simpa using hc)).1
  rw [(hinv.gone hd).1] at hentry
  cases hentry

/-- `Shutdown` on another thread, and the close behind its store. -/
def shutDown : List (Act ℕ) :=
  [.share 1, .shutdown 1, .store 1, .close, .push 1, .drop 1, .beginFunctors, .functor, .functor,
    .endFunctors]

theorem destroyed_disconnected_shutdown :
    ∃ s : Lifetime ℕ, run (new true) shutDown = some s ∧ s.destroyed = true ∧
      s.state = .kDisconnected := by
  have heval : ((run (new true) shutDown).map Lifetime.destroyed) = some true := by decide +kernel
  have hok : Run.Along step InTime (new true) shutDown := by decide +kernel
  obtain ⟨s, hrun, hdestroyed⟩ := Option.map_eq_some_iff.mp heval
  exact ⟨s, hrun, hdestroyed, destroyed_disconnected hok hrun hdestroyed⟩

end

end Lifetime

end MuduoCpp11.Net
