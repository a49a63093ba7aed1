import MuduoCpp11.Lib.Run
import MuduoCpp11.Net.TcpConnection.Output
import MuduoCpp11.Net.TcpConnection.SendBuffer

/-! # A graceful shutdown from another thread

One user thread sends messages and then calls `Shutdown`, while the loop thread handles write events
and runs batches of functors; their steps interleave. `Send` and `Shutdown` test `state_` and hand the
work over to the loop, so a message travels from the user thread through the functor queue and the
output buffer to the wire: the four parts together are what was to be sent (`everything`).

`Shutdown` stores `kDisconnecting` before the loop has run the sends that were queued. If a write
event then empties the output buffer, `HandleWrite` shuts the write side down, and what is still
queued is lost. And the functor of a `Send` calls `SendInLoop` through a `StringPiece`, whose length is
an `int`: of a message of `2 ^ 31` bytes or more it sends a prefix, or its reads are undefined. There
is no other way to lose anything (`shutdown_loses_nothing_iff`). -/

namespace MuduoCpp11.Net.TcpConnection

/-- `loop_->QueueInLoop` on another thread. -/
def queueFromThread (c : TcpConnection) (cb : Functor) : TcpConnection :=
  { c with loop := c.loop.queueInLoop false cb }

@[simp] theorem queued_queueFromThread (c : TcpConnection) (cb : Functor) :
    (c.queueFromThread cb).loop.queued = c.loop.queued ++ [cb] :=
  EventLoop.queued_queueInLoop ..

namespace Shutdown

open MuduoCpp11.Lib.Run

/-- Where the user thread is. -/
inductive UserPc where
  /-- Between two calls. -/
  | idle
  /-- `Send` has found `kConnected` and has not queued the message yet. -/
  | sending (message : List UInt8)
  /-- `Shutdown` has found `kConnected`. -/
  | stopping
  /-- `Shutdown` has stored `kDisconnecting` and has not queued `ShutdownInLoop` yet. -/
  | stopped
  | finished
  deriving DecidableEq, Repr

/-- The connection, and the user thread with the messages it has not sent yet. `undefined` is set when
a functor has read behind the end of its string; the run ends there. -/
structure Sys where
  conn : TcpConnection
  todo : List (List UInt8)
  pc : UserPc := .idle
  undefined : Bool := false

inductive Act where
  | user
  | handleWrite (w : WriteResult)
  | beginFunctors
  | functor (w : WriteResult)
  | endFunctors
  deriving DecidableEq, Repr

/-- The next step of the user thread. -/
def userStep (s : Sys) : Option Sys :=
  match s.pc with
  | .idle =>
    match s.todo with
    | message :: todo =>
      if s.conn.state = .kConnected then some { s with todo, pc := .sending message }
      else some { s with todo }
    | [] => some { s with pc := if s.conn.state = .kConnected then .stopping else .finished }
  | .sending message =>
    some { s with conn := s.conn.queueFromThread (.sendInLoop message), pc := .idle }
  | .stopping => some { s with conn := s.conn.setState .kDisconnecting, pc := .stopped }
  | .stopped => some { s with conn := s.conn.queueFromThread .shutdownInLoop, pc := .finished }
  | .finished => none

/-- No write fails with `EPIPE` or `ECONNRESET` before the write side has been shut down. -/
def mayReturn (s : Sys) (w : WriteResult) : Bool := w.isFault → shutdowns [] s.conn.log ≠ []

/-- The call of a functor. -/
def callFunctor (c : TcpConnection) (f : Functor) (w : WriteResult) : Option TcpConnection :=
  match f with
  | .sendInLoop str => c.sendInLoopPiece (.ofString str) w
  | f => some (c.runFunctor f w [])

/-- A step, as long as all is defined. Write events come between the batches of functors. -/
def definedStep (s : Sys) : Act → Option Sys
  | .user => userStep s
  | .handleWrite w =>
    if s.conn.loop.callingPendingFunctors = false ∧ mayReturn s w then
      some { s with conn := s.conn.handleWrite w }
    else none
  | .beginFunctors => s.conn.loop.beginFunctors.map fun loop => { s with conn := { s.conn with loop } }
  | .functor w =>
    if mayReturn s w then
      s.conn.loop.nextFunctor.map fun (f, loop) =>
        match callFunctor { s.conn with loop } f w with
        | some conn => { s with conn }
        | none => { s with conn := { s.conn with loop }, undefined := true }
    else none
  | .endFunctors => s.conn.loop.endFunctors.map fun loop => { s with conn := { s.conn with loop } }

def step (s : Sys) (a : Act) : Option Sys := if s.undefined then none else definedStep s a

/-- The messages among the functors. -/
def sends (q : List Functor) : List (List UInt8) :=
  q.filterMap fun
    | .sendInLoop message => some message
    | _ => none

/-- The bytes of the messages among the functors. -/
def messages (q : List Functor) : List UInt8 := (sends q).flatten

/-- The message the user thread has in hand. -/
def UserPc.message : UserPc → List UInt8
  | .sending message => message
  | _ => []

/-- The messages that `SendInLoop` has not been given yet. -/
def waiting (s : Sys) : List (List UInt8) := sends s.conn.loop.queued ++ s.pc.message :: s.todo

/-- What is to be on the wire in the end: what is there, buffered and queued, and the messages the
user thread has still to send. -/
def everything (s : Sys) : List UInt8 :=
  wire s.conn.log ++ s.conn.outputBuffer.peek ++ (waiting s).flatten

/-- A connected connection, with any output on its way, before the first call of the user thread. No
string is longer than `max_size()`. -/
structure Start (s : Sys) : Prop where
  state : s.conn.state = .kConnected
  synced : s.conn.Synced
  shutdown : shutdowns [] s.conn.log = []
  pc : s.pc = .idle
  functors : ∀ f ∈ s.conn.loop.queued, f.isCallback = true ∨ ∃ m, f = .sendInLoop m
  sizes : ∀ m ∈ waiting s, m.length < 2 ^ 63
  undefined : s.undefined = false

/-- The step shuts the write side down. -/
def ShutsDown (s : Sys) : Act → Prop
  | .handleWrite w => s.conn.state = .kDisconnecting ∧ s.conn.drains w = true
  | .functor _ =>
    s.conn.loop.functors.head? = some .shutdownInLoop ∧ s.conn.channel.isWriting = false
  | _ => False

/-- The step loses something, with `ms` the messages to be sent: the write side is shut down although
one of them is longer than an `int`; or by `HandleWrite`, while a message is still queued; or a functor
takes a length that is negative as an `int`. -/
def Loses (ms : List (List UInt8)) (s : Sys) (a : Act) : Prop :=
  ShutsDown s a ∧ (∃ m ∈ ms, 2 ^ 31 ≤ m.length) ∨
    (∃ w, a = .handleWrite w) ∧ ShutsDown s a ∧
      (∃ m ≠ [], .sendInLoop m ∈ s.conn.loop.pendingFunctors) ∨
    (∃ w, a = .functor w) ∧ ∃ m, s.conn.loop.functors.head? = some (.sendInLoop m) ∧
      2 ^ 31 ≤ m.length % 2 ^ 32

/-! ### The queue -/

/-- No message is queued behind a `ShutdownInLoop`. -/
def ShutdownLast : List Functor → Prop
  | [] => True
  | .shutdownInLoop :: q => messages q = [] ∧ ShutdownLast q
  | _ :: q => ShutdownLast q

@[simp] theorem sends_append (q q' : List Functor) : sends (q ++ q') = sends q ++ sends q' := by
  simp [sends]

@[simp] theorem sends_sendInLoop (m : List UInt8) : sends [.sendInLoop m] = [m] := rfl

@[simp] theorem messages_append (q q' : List Functor) :
    messages (q ++ q') = messages q ++ messages q' := by simp [messages]

@[simp] theorem messages_sendInLoop (m : List UInt8) : messages [.sendInLoop m] = m := by
  simp [messages]

theorem length_everything (s : Sys) : (everything s).length =
    (wire s.conn.log).length + s.conn.outputBuffer.peek.length +
      (messages s.conn.loop.queued).length + s.pc.message.length + s.todo.flatten.length := by
  simp only [everything, waiting, messages, List.length_append, List.flatten_append,
    List.flatten_cons]
  omega

theorem sends_callbacks {q : List Functor} (h : ∀ f ∈ q, f.isCallback = true) : sends q = [] := by
  simp only [sends, List.filterMap_eq_nil_iff]
  intro f hf
  have := h f hf
  cases f <;> simp_all [Functor.isCallback]

theorem messages_callbacks {q : List Functor} (h : ∀ f ∈ q, f.isCallback = true) :
    messages q = [] := by rw [messages, sends_callbacks h, List.flatten_nil]

theorem mem_sends {q : List Functor} {m : List UInt8} : m ∈ sends q ↔ .sendInLoop m ∈ q := by
  simp only [sends, List.mem_filterMap]
  constructor
  · rintro ⟨f, hf, hm⟩
    cases f <;> simp_all
  · exact fun h => ⟨_, h, rfl⟩

theorem messages_eq_nil {q : List Functor} :
    messages q = [] ↔ ∀ m, .sendInLoop m ∈ q → m = [] := by
  simp only [messages, List.flatten_eq_nil_iff, mem_sends]

theorem ShutdownLast.append : ∀ {q q' : List Functor}, ShutdownLast q → messages q' = [] →
    ShutdownLast q' → ShutdownLast (q ++ q')
  | [], q', _, _, h' => h'
  | f :: q, q', h, hm, h' => by
    cases f with
    | shutdownInLoop => exact ⟨by simp [h.1, hm], ShutdownLast.append h.2 hm h'⟩
    | _ => exact ShutdownLast.append (q := q) h hm h'

theorem shutdownLast_of_notMem : ∀ {q : List Functor}, .shutdownInLoop ∉ q → ShutdownLast q
  | [], _ => trivial
  | f :: q, h => by
    simp only [List.mem_cons, not_or] at h
    cases f with
    | shutdownInLoop => simp at h
    | _ => exact shutdownLast_of_notMem (q := q) h.2

theorem ShutdownLast.tail {f : Functor} {q : List Functor} (h : ShutdownLast (f :: q)) :
    ShutdownLast q := by
  cases f <;> first | exact h | exact h.2

theorem ShutdownLast.of_append : ∀ {q q' : List Functor}, ShutdownLast (q ++ q') → ShutdownLast q'
  | [], _, h => h
  | _ :: q, _, h => ShutdownLast.of_append (q := q) h.tail

/-- Taking functors from the front and queueing callbacks behind. -/
theorem ShutdownLast.turn {pre rest cbs : List Functor} (h : ShutdownLast (pre ++ rest))
    (hcb : ∀ f ∈ cbs, f.isCallback = true) : ShutdownLast (rest ++ cbs) := by
  refine h.of_append.append (messages_callbacks hcb) (shutdownLast_of_notMem fun hmem => ?_)
  simpa [Functor.isCallback] using hcb _ hmem

/-! ### Steps -/

/-- The user thread has not stored `kDisconnecting`. -/
def UserPc.beforeStore : UserPc → Bool
  | .idle | .sending _ | .stopping => true
  | .stopped | .finished => false

/-- What holds in every state: `state_` and the queue follow the user thread. -/
structure Follows (s : Sys) : Prop where
  synced : s.conn.Synced
  state : s.conn.state = if s.pc.beforeStore then .kConnected else .kDisconnecting
  todo : s.pc = .stopping ∨ s.pc.beforeStore = false → s.todo = []
  functors : ∀ f ∈ s.conn.loop.queued, f.isCallback = true ∨ (∃ m, f = .sendInLoop m) ∨
    (f = .shutdownInLoop ∧ s.pc = .finished)
  last : ShutdownLast s.conn.loop.queued
  sizes : ∀ m ∈ waiting s, m.length < 2 ^ 63

/-- A step of the loop thread takes the functors `pre` out of the queue and sends their messages, loses
them behind a shutdown, or cuts one off that is longer than an `int`; it shuts the write side down in
the moments `l`. -/
structure LoopStep (s s' : Sys) (a : Act) (pre : List Functor) (l : List (List UInt8 × List UInt8)) :
    Prop where
  todo : s'.todo = s.todo
  pc : s'.pc = s.pc
  state : s'.conn.state = s.conn.state
  synced : s'.conn.Synced
  queue : ∃ rest cbs, s.conn.loop.queued = pre ++ rest ∧ s'.conn.loop.queued = rest ++ cbs ∧
    ∀ f ∈ cbs, f.isCallback = true
  stream : (∀ m ∈ sends pre, m.length < 2 ^ 31) ∧ wire s'.conn.log ++ s'.conn.outputBuffer.peek =
      wire s.conn.log ++ s.conn.outputBuffer.peek ++ messages pre ∨
    wire s'.conn.log ++ s'.conn.outputBuffer.peek = wire s.conn.log ++ s.conn.outputBuffer.peek ∧
      shutdowns [] s.conn.log ≠ [] ∨
    ∃ m k, pre = [.sendInLoop m] ∧ 2 ^ 31 ≤ m.length ∧ k < m.length ∧
      wire s'.conn.log ++ s'.conn.outputBuffer.peek =
        wire s.conn.log ++ s.conn.outputBuffer.peek ++ m.take k
  shutdowns : shutdowns [] s'.conn.log = shutdowns [] s.conn.log ++ l
  shuts : l ≠ [] ↔ ShutsDown s a
  moment : ∀ p ∈ l, p.1 = wire s.conn.log ++ s.conn.outputBuffer.peek ∧
    (pre = [.shutdownInLoop] ∨ ∃ w, a = .handleWrite w)
  undefined : s'.undefined = true ↔
    (∃ w, a = .functor w) ∧ ∃ m, s.conn.loop.functors.head? = some (.sendInLoop m) ∧
      2 ^ 31 ≤ m.length % 2 ^ 32

theorem Follows.ne_disconnected {s : Sys} (h : Follows s) : s.conn.state ≠ .kDisconnected := by
  rw [h.state]; split_ifs <;> simp

theorem step_eq {s : Sys} (hd : s.undefined = false) (a : Act) : step s a = definedStep s a := by
  rw [step, hd]
  rfl

theorem undefined_of_step {s s' : Sys} {a : Act} (hs : step s a = some s') : s.undefined = false := by
  by_contra hd
  rw [step, if_pos (by simpa using hd)] at hs
  cases hs

theorem step_handleWrite {s s' : Sys} {w : WriteResult} (h : Follows s) (hd : s.undefined = false)
    (hstep : definedStep s (.handleWrite w) = some s') :
    ∃ l, LoopStep s s' (.handleWrite w) [] l := by
  simp only [definedStep] at hstep
  split_ifs at hstep
  cases hstep
  have hm := handleWrite_moves h.synced w
  obtain ⟨cbs, hq, hcb⟩ := hm.queue
  refine ⟨_, rfl, rfl, hm.state, hm.synced, ⟨_, cbs, rfl, hq, hcb⟩, Or.inl ⟨by simp [sends], ?_⟩,
    hm.shutdowns, ?_, ?_, by simp [hd]⟩
  · simpa [messages, sends] using hm.stream
  · simp [ShutsDown, and_comm]
  · intro p hp
    split_ifs at hp with hdrain
    · rw [List.mem_singleton.mp hp]
      exact ⟨rfl, Or.inr ⟨w, rfl⟩⟩
    · simp at hp

/-- Only the queue is rearranged. -/
theorem loopStep_of_queued_eq {s : Sys} {loop : EventLoop Functor} (h : Follows s)
    (hd : s.undefined = false) (hq : loop.queued = s.conn.loop.queued) {a : Act}
    (ha : ¬ ShutsDown s a) (hf : ∀ w, a ≠ .functor w) :
    LoopStep s { s with conn := { s.conn with loop } } a [] [] :=
  ⟨rfl, rfl, rfl, h.synced, ⟨s.conn.loop.queued, [], rfl, by rw [hq, List.append_nil], by simp⟩,
    Or.inl (by simp [messages, sends]), by simp, by simp [ha], by simp, by simp [hd, hf]⟩

/-- A callback of the user's neither sends nor shuts anything down. -/
theorem runFunctor_callback {c : TcpConnection} {f : Functor} (hf : f.isCallback = true)
    (w : WriteResult) : ∃ c', c.runFunctor f w [] = c' ∧ c'.state = c.state ∧
      c'.channel = c.channel ∧ c'.outputBuffer = c.outputBuffer ∧ c'.loop = c.loop ∧
      wire c'.log = wire c.log ∧ shutdowns [] c'.log = shutdowns [] c.log := by
  cases f with
  | writeCompleteCallback =>
    exact ⟨_, rfl, rfl, rfl, rfl, rfl, by simp [runFunctor, calls, emit, wire, Effect.written],
      by simp [runFunctor, calls, emit, shutdowns_append, Net.shutdowns]⟩
  | highWatermarkCallback len =>
    exact ⟨_, rfl, rfl, rfl, rfl, rfl, by simp [runFunctor, calls, emit, wire, Effect.written],
      by simp [runFunctor, calls, emit, shutdowns_append, Net.shutdowns]⟩
  | _ => simp [Functor.isCallback] at hf

/-- The functor of a `Send`, whose string may be longer than an `int`. -/
theorem loopStep_sendInLoop {s : Sys} {loop : EventLoop Functor} {m : List UInt8} {w : WriteResult}
    (h : Follows s) (hd : s.undefined = false) (hmay : mayReturn s w)
    (hfront : s.conn.loop.functors.head? = some (.sendInLoop m))
    (hq : s.conn.loop.queued = .sendInLoop m :: loop.queued) :
    LoopStep s (match callFunctor { s.conn with loop } (.sendInLoop m) w with
      | some conn => { s with conn }
      | none => { s with conn := { s.conn with loop }, undefined := true })
      (.functor w) [.sendInLoop m] [] := by
  have hsize : m.length < 2 ^ 63 :=
    h.sizes m (by simp [waiting, hq, sends])
  have hcall : callFunctor { s.conn with loop } (.sendInLoop m) w = _ :=
    sendInLoopPiece_ofString (c := { s.conn with loop }) h.ne_disconnected hsize w
  have hshuts : ([] : List (List UInt8 × List UInt8)) ≠ [] ↔ ShutsDown s (.functor w) := by
    simp [ShutsDown, hfront]
  rw [hcall]
  by_cases hlt : m.length % 2 ^ 32 < 2 ^ 31
  · simp only [if_pos hlt]
    have ha := sendInLoop_appends (c := { s.conn with loop }) h.synced h.ne_disconnected
      (m.take (m.length % 2 ^ 32)) w
    obtain ⟨cbs, hcbs, hcb⟩ := ha.queue
    refine ⟨rfl, rfl, ha.state, ha.synced, ⟨loop.queued, cbs, hq, hcbs, hcb⟩, ?_,
      by rw [List.append_nil]; exact ha.shutdowns, hshuts, by simp, ?_⟩
    · have hstream := ha.stream
      by_cases hfail : directWriteFails { s.conn with loop } w
      · rw [if_pos hfail, List.append_nil] at hstream
        have hfault : w.isFault = true := by
          simp only [directWriteFails, Bool.and_eq_true] at hfail
          exact hfail.2
        exact Or.inr (Or.inl ⟨hstream, by simpa [mayReturn, hfault] using hmay⟩)
      · rw [if_neg hfail] at hstream
        by_cases hfit : m.length < 2 ^ 31
        · have hall : m.take (m.length % 2 ^ 32) = m := List.take_of_length_le (by omega)
          refine Or.inl ⟨by simpa using hfit, ?_⟩
          rw [messages_sendInLoop]
          exact hstream.trans (congrArg (_ ++ ·) hall)
        · exact Or.inr (Or.inr ⟨m, m.length % 2 ^ 32, rfl, by omega, by omega, hstream⟩)
    · constructor
      · exact fun hundef => absurd (hd.symm.trans hundef) (by simp)
      · rintro ⟨-, m', hm', hneg⟩
        rw [hfront] at hm'
        cases hm'
        exact absurd hlt (not_lt.mpr hneg)
  · simp only [if_neg hlt]
    refine ⟨rfl, rfl, rfl, h.synced, ⟨loop.queued, [], hq, by simp, by simp⟩,
      Or.inr (Or.inr ⟨m, 0, rfl, ?_, ?_, by simp⟩), by simp, hshuts, by simp, ?_⟩
    · exact (not_lt.mp hlt).trans (Nat.mod_le ..)
    · have := (not_lt.mp hlt).trans (Nat.mod_le m.length (2 ^ 32))
      omega
    · simp only [Act.functor.injEq, exists_eq', true_and, hfront, Option.some.injEq, true_iff]
      exact ⟨m, rfl, not_lt.mp hlt⟩

theorem step_functor {s s' : Sys} {w : WriteResult} (h : Follows s) (hd : s.undefined = false)
    (hstep : definedStep s (.functor w) = some s') : ∃ pre l, LoopStep s s' (.functor w) pre l := by
  simp only [definedStep] at hstep
  split_ifs at hstep with hmay
  obtain ⟨⟨f, loop⟩, hnext, rfl⟩ := Option.map_eq_some_iff.mp hstep
  have hq := EventLoop.queued_nextFunctor hnext
  have hfront : s.conn.loop.functors.head? = some f := by
    rw [(EventLoop.nextFunctor_spec hnext).1, List.head?_cons]
  rcases h.functors f (by simp [hq]) with hcb | ⟨m, rfl⟩ | ⟨rfl, -⟩
  · obtain ⟨c', hc', hstate, hchannel, hout, hloop, hwire, hshut⟩ :=
      runFunctor_callback (c := { s.conn with loop }) hcb w
    have hcall : callFunctor { s.conn with loop } f w = some c' := by
      cases f <;> first | exact congrArg some hc' | simp [Functor.isCallback] at hcb
    have hsync : c'.Synced := by
      have := h.synced
      rw [Synced] at this ⊢
      rwa [hchannel, hout]
    have hnot : f ≠ .shutdownInLoop ∧ ∀ m, f ≠ .sendInLoop m := by
      constructor
      · rintro rfl
        simp [Functor.isCallback] at hcb
      · rintro m rfl
        simp [Functor.isCallback] at hcb
    have hnone : ∀ g ∈ [f], g.isCallback = true := by simpa using hcb
    simp only [hcall]
    refine ⟨[f], [], rfl, rfl, hstate, hsync, ⟨loop.queued, [], hq, by rw [hloop, List.append_nil],
      by simp⟩, Or.inl ⟨by simp [sends_callbacks hnone], ?_⟩, by rw [hshut, List.append_nil],
      by simp [ShutsDown, hfront, hnot.1], by simp, by simp [hd, hfront, hnot.2]⟩
    rw [messages_callbacks hnone, List.append_nil, hwire, hout]
  · exact ⟨_, _, loopStep_sendInLoop h hd hmay hfront hq⟩
  · have hm := shutdownInLoop_moves (c := { s.conn with loop }) h.synced
    obtain ⟨cbs, hcbs, hcb⟩ := hm.queue
    have hempty : s.conn.outputBuffer.peek = [] ↔ s.conn.channel.isWriting = false := by
      have hsync := h.synced
      rw [Synced, Nat.pos_iff_ne_zero, ne_eq, Buffer.readableBytes_eq_zero] at hsync
      rw [← not_iff_not, ← hsync, Bool.not_eq_false]
    refine ⟨[.shutdownInLoop], _, rfl, rfl, hm.state, hm.synced, ⟨loop.queued, cbs, hq, hcbs, hcb⟩,
      Or.inl ⟨by simp [sends], ?_⟩, hm.shutdowns, ?_, ?_,
      by simp [hd, hfront, callFunctor]⟩
    · rw [show messages [.shutdownInLoop] = [] from rfl, List.append_nil]
      exact hm.stream
    · simp [ShutsDown, hfront, hempty]
    · intro p hp
      split_ifs at hp with he
      · rw [List.mem_singleton.mp hp]
        exact ⟨by rw [show s.conn.outputBuffer.peek = [] from he, List.append_nil], Or.inl rfl⟩
      · simp at hp

/-- **Every step of the loop thread** is such a step. -/
theorem step_loop {s s' : Sys} {a : Act} (h : Follows s) (ha : a ≠ .user)
    (hstep : step s a = some s') : ∃ pre l, LoopStep s s' a pre l := by
  have hd := undefined_of_step hstep
  rw [step_eq hd] at hstep
  cases a with
  | user => exact absurd rfl ha
  | handleWrite w => exact ⟨[], step_handleWrite h hd hstep⟩
  | beginFunctors =>
    obtain ⟨loop, hloop, rfl⟩ := Option.map_eq_some_iff.mp hstep
    exact ⟨[], [], loopStep_of_queued_eq h hd (EventLoop.queued_beginFunctors hloop)
      (by simp [ShutsDown]) (by simp)⟩
  | functor w => exact step_functor h hd hstep
  | endFunctors =>
    obtain ⟨loop, hloop, rfl⟩ := Option.map_eq_some_iff.mp hstep
    exact ⟨[], [], loopStep_of_queued_eq h hd (EventLoop.queued_endFunctors hloop)
      (by simp [ShutsDown]) (by simp)⟩

/-! ### What every step keeps -/

/-- What still waits has waited before. -/
theorem LoopStep.waiting_eq {s s' : Sys} {a : Act} {pre : List Functor}
    {l : List (List UInt8 × List UInt8)} (hl : LoopStep s s' a pre l) :
    waiting s = sends pre ++ waiting s' := by
  obtain ⟨rest, cbs, hq, hq', hcb⟩ := hl.queue
  rw [waiting, waiting, hq, hq', hl.pc, hl.todo, sends_append, sends_append, sends_callbacks hcb,
    List.append_nil, List.append_assoc]

theorem LoopStep.follows {s s' : Sys} {a : Act} {pre : List Functor}
    {l : List (List UInt8 × List UInt8)} (h : Follows s) (hl : LoopStep s s' a pre l) :
    Follows s' := by
  obtain ⟨rest, cbs, hq, hq', hcb⟩ := hl.queue
  refine ⟨hl.synced, by rw [hl.state, hl.pc, h.state], by rw [hl.pc, hl.todo]; exact h.todo, ?_, ?_,
    fun m hm => h.sizes m (by rw [hl.waiting_eq]; exact List.mem_append_right _ hm)⟩
  · intro f hf
    rw [hq'] at hf
    rw [hl.pc]
    rcases List.mem_append.mp hf with hf | hf
    · exact h.functors f (by rw [hq]; exact List.mem_append_right _ hf)
    · exact Or.inl (hcb f hf)
  · rw [hq']
    exact (hq ▸ h.last).turn hcb

/-- What the user thread's step does: nothing is lost, and nothing is new. -/
structure UserStep (s s' : Sys) : Prop where
  follows : Follows s'
  stream : everything s' = everything s
  shutdowns : shutdowns [] s'.conn.log = shutdowns [] s.conn.log
  waiting : ∀ m ≠ [], m ∈ waiting s' ↔ m ∈ waiting s
  undefined : s'.undefined = s.undefined

/-- The next step of the user thread, where it is. -/
theorem userStep_follows {s s' : Sys} (h : Follows s) (hstep : userStep s = some s') :
    UserStep s s' := by
  obtain ⟨c, todo, pc, undef⟩ := s
  obtain ⟨hsync, hstate, htodo, hfun, hlast, hsizes⟩ := h
  cases pc with
  | idle =>
    have hconn : c.state = .kConnected := hstate
    cases todo with
    | cons m todo =>
      simp only [userStep, hconn, if_true, Option.some.injEq] at hstep
      subst hstep
      refine ⟨⟨hsync, hstate, by simp [UserPc.beforeStore], by simpa using hfun, hlast, ?_⟩,
        by simp [everything, waiting, UserPc.message], rfl, ?_, rfl⟩
      · intro m' hm'
        refine hsizes m' ?_
        simp only [waiting, UserPc.message, List.mem_append, List.mem_cons] at hm' ⊢
        tauto
      · intro m' hne
        simp [waiting, UserPc.message, hne]
    | nil =>
      simp only [userStep, hconn, if_true, Option.some.injEq] at hstep
      subst hstep
      exact ⟨⟨hsync, hstate, by simp, by simpa using hfun, hlast, hsizes⟩,
        by simp [everything, waiting, UserPc.message], rfl, by simp [waiting, UserPc.message], rfl⟩
  | sending m =>
    simp only [userStep, Option.some.injEq] at hstep
    subst hstep
    refine ⟨⟨hsync, hstate, by simp [UserPc.beforeStore], ?_, ?_, ?_⟩, ?_, rfl, ?_, rfl⟩
    · intro f hf
      simp only [queued_queueFromThread, List.mem_append, List.mem_singleton] at hf
      rcases hf with hf | rfl
      · simpa using hfun f hf
      · exact Or.inr (Or.inl ⟨m, rfl⟩)
    · refine shutdownLast_of_notMem fun hmem => ?_
      simp only [queued_queueFromThread, List.mem_append, List.mem_singleton, reduceCtorEq,
        or_false] at hmem
      simpa [Functor.isCallback] using hfun _ hmem
    · intro m' hm'
      simp only [waiting, UserPc.message, queued_queueFromThread, sends_append, sends_sendInLoop,
        List.mem_append, List.mem_cons, List.not_mem_nil, or_false] at hm' hsizes
      rcases hm' with (hm' | hm') | rfl | hm'
      · exact hsizes m' (Or.inl hm')
      · exact hsizes m' (Or.inr (Or.inl hm'))
      · simp
      · exact hsizes m' (Or.inr (Or.inr hm'))
    · simp [everything, waiting, queueFromThread, UserPc.message]
    · intro m' hne
      simp only [waiting, UserPc.message, queued_queueFromThread, sends_append, sends_sendInLoop,
        List.mem_append, List.mem_cons, List.not_mem_nil, or_false, hne, false_or]
      tauto
  | stopping =>
    simp only [userStep, Option.some.injEq] at hstep
    subst hstep
    exact ⟨⟨hsync, rfl, fun _ => htodo (Or.inl rfl), by simpa [setState, emit] using hfun, hlast,
        hsizes⟩,
      by simp [everything, waiting, setState, emit, wire, Effect.written, UserPc.message],
      by simp [setState, emit, shutdowns_append, Net.shutdowns], fun _ _ => Iff.rfl, rfl⟩
  | stopped =>
    simp only [userStep, Option.some.injEq] at hstep
    subst hstep
    have hwaiting : sends (c.queueFromThread .shutdownInLoop).loop.queued = sends c.loop.queued := by
      simp [sends]
    refine ⟨⟨hsync, hstate, fun _ => htodo (Or.inr rfl), ?_, ?_, ?_⟩, ?_, rfl, ?_, rfl⟩
    · intro f hf
      simp only [queued_queueFromThread, List.mem_append, List.mem_singleton] at hf
      rcases hf with hf | rfl
      · simpa using (hfun f hf).imp_right fun h => Or.inl (by simpa using h)
      · exact Or.inr (Or.inr ⟨rfl, rfl⟩)
    · rw [queued_queueFromThread]
      exact hlast.append rfl ⟨rfl, trivial⟩
    · intro m' hm'
      refine hsizes m' ?_
      simpa only [waiting, hwaiting, UserPc.message] using hm'
    · simp only [everything, waiting, hwaiting]
      rfl
    · intro m' _
      simp only [waiting, hwaiting]
      rfl
  | finished => simp [userStep] at hstep

theorem step_user {s s' : Sys} (h : Follows s) (hstep : step s .user = some s') : UserStep s s' :=
  userStep_follows h (by rwa [step_eq (undefined_of_step hstep)] at hstep)

/-- Every step leaves the earlier shutdowns in the log. -/
theorem step_follows {s s' : Sys} {a : Act} (h : Follows s) (hstep : step s a = some s') :
    Follows s' ∧ shutdowns [] s.conn.log <+: shutdowns [] s'.conn.log := by
  by_cases ha : a = .user
  · subst ha
    have hu := step_user h hstep
    exact ⟨hu.follows, by rw [hu.shutdowns]⟩
  · obtain ⟨pre, l, hl⟩ := step_loop h ha hstep
    exact ⟨hl.follows h, by rw [hl.shutdowns]; exact List.prefix_append _ _⟩

theorem prefix_wire_of_mem_shutdowns {p : List UInt8 × List UInt8} : ∀ {l : List Effect}
    {sent : List UInt8}, p ∈ shutdowns sent l → p.1 <+: sent ++ wire l
  | [], sent, h => by simp [shutdowns] at h
  | e :: l, sent, h => by
    have ih : ∀ sent, p ∈ shutdowns sent l → p.1 <+: sent ++ wire l :=
      fun _ => prefix_wire_of_mem_shutdowns
    cases e with
    | shutdownWrite u =>
      simp only [shutdowns, List.mem_cons] at h
      rcases h with rfl | h
      · exact List.prefix_append _ _
      · simpa [wire, Effect.written] using ih sent h
    | _ =>
      have := ih _ (by simpa only [shutdowns] using h)
      simpa [wire, List.append_assoc] using this

/-! ### Messages within an `int` -/

/-- **Nothing is lost so far**: the stream is complete, and whenever the write side was shut down, all
of it was on the wire. -/
structure Complete (all : List UInt8) (s : Sys) : Prop where
  follows : Follows s
  fits : ∀ m ∈ waiting s, m.length < 2 ^ 31
  defined : s.undefined = false
  stream : everything s = all
  sent : ∀ p ∈ shutdowns [] s.conn.log, p.1 = all

/-- Behind a shutdown nothing is left to send. -/
theorem Complete.nothing_left {all : List UInt8} {s : Sys} (h : Complete all s)
    (hs : shutdowns [] s.conn.log ≠ []) : messages s.conn.loop.queued = [] := by
  obtain ⟨p, hp⟩ := List.exists_mem_of_ne_nil _ hs
  have hpre := (prefix_wire_of_mem_shutdowns hp).length_le
  have hlen := length_everything s
  rw [h.stream] at hlen
  rw [h.sent p hp, List.nil_append] at hpre
  exact List.length_eq_zero_iff.mp (by omega)

theorem LoopStep.everything_eq {all : List UInt8} {s s' : Sys} {a : Act} {pre : List Functor}
    {l : List (List UInt8 × List UInt8)} (h : Complete all s) (hl : LoopStep s s' a pre l) :
    everything s' = all := by
  have hstream : wire s'.conn.log ++ s'.conn.outputBuffer.peek =
      wire s.conn.log ++ s.conn.outputBuffer.peek ++ messages pre := by
    rcases hl.stream with ⟨-, hk⟩ | ⟨hk, hshut⟩ | ⟨m, k, rfl, hlong, -⟩
    · exact hk
    · obtain ⟨rest, cbs, hq, -⟩ := hl.queue
      have hnone := h.nothing_left hshut
      rw [hq, messages_append, List.append_eq_nil_iff] at hnone
      rw [hk, hnone.1, List.append_nil]
    · have hfit := h.fits m (by simp [hl.waiting_eq])
      omega
  rw [← h.stream, everything, everything, hl.waiting_eq, hstream, List.flatten_append, messages]
  simp

/-- The moment of a shutdown, unless it loses a message. -/
theorem LoopStep.sent_eq {all : List UInt8} {ms : List (List UInt8)} {s s' : Sys} {a : Act}
    {pre : List Functor} {l : List (List UInt8 × List UInt8)} (h : Complete all s)
    (hl : LoopStep s s' a pre l)
    (hidle : ∀ w, a = .handleWrite w → s.conn.loop.callingPendingFunctors = false)
    (hno : ¬ Loses ms s a) : ∀ p ∈ l, p.1 = all := by
  intro p hp
  have hshuts : ShutsDown s a := hl.shuts.mp (List.ne_nil_of_mem hp)
  obtain ⟨hp1, hor⟩ := hl.moment p hp
  obtain ⟨hpc, hmsg⟩ : s.pc.beforeStore = false ∧ messages s.conn.loop.queued = [] := by
    rcases hor with rfl | ⟨w, rfl⟩
    · obtain ⟨rest, cbs, hq, -⟩ := hl.queue
      have hfin := h.follows.functors .shutdownInLoop (by simp [hq])
      have hlast := h.follows.last
      rw [hq] at hlast
      refine ⟨?_, ?_⟩
      · have : s.pc = .finished := by simpa [Functor.isCallback] using hfin
        rw [this]; rfl
      · have hrest : messages rest = [] := hlast.1
        rw [hq, messages_append, hrest]
        rfl
    · refine ⟨?_, ?_⟩
      · have := h.follows.state
        rw [hshuts.1] at this
        by_contra hb
        rw [Bool.not_eq_false] at hb
        simp [hb] at this
      · rw [EventLoop.queued, s.conn.loop.idle (hidle w rfl), List.nil_append, messages_eq_nil]
        intro m hm
        by_contra hne
        exact hno (Or.inr (Or.inl ⟨⟨w, rfl⟩, hshuts, m, hne, hm⟩))
  have htodo := h.follows.todo (Or.inr hpc)
  have hpcm : s.pc.message = [] := by
    cases hs : s.pc <;> simp_all [UserPc.beforeStore, UserPc.message]
  rw [hp1, ← h.stream, everything, waiting, htodo, hpcm, List.flatten_append]
  rw [messages] at hmsg
  simp [hmsg]

/-- A write event comes between the batches of functors. -/
theorem idle_of_handleWrite {s s' : Sys} {a : Act} (hstep : step s a = some s') (w : WriteResult)
    (ha : a = .handleWrite w) : s.conn.loop.callingPendingFunctors = false := by
  subst ha
  rw [step_eq (undefined_of_step hstep)] at hstep
  simp only [definedStep] at hstep
  split_ifs at hstep with hg
  exact hg.1

theorem step_complete {all : List UInt8} {ms : List (List UInt8)} {s s' : Sys} {a : Act}
    (h : Complete all s) (hstep : step s a = some s') (hno : ¬ Loses ms s a) : Complete all s' := by
  by_cases ha : a = .user
  · subst ha
    have hu := step_user h.follows hstep
    refine ⟨hu.follows, fun m hm => ?_, hu.undefined.trans h.defined, hu.stream.trans h.stream,
      by rw [hu.shutdowns]; exact h.sent⟩
    by_cases hne : m = []
    · simp [hne]
    · exact h.fits m ((hu.waiting m hne).mp hm)
  · obtain ⟨pre, l, hl⟩ := step_loop h.follows ha hstep
    refine ⟨hl.follows h.follows, fun m hm => h.fits m ?_, ?_, hl.everything_eq h, ?_⟩
    · rw [hl.waiting_eq]
      exact List.mem_append_right _ hm
    · rw [← Bool.not_eq_true, hl.undefined]
      exact fun hundef => hno (Or.inr (Or.inr hundef))
    · rw [hl.shutdowns]
      intro p hp
      rcases List.mem_append.mp hp with hp | hp
      · exact h.sent p hp
      · exact hl.sent_eq h (idle_of_handleWrite hstep) hno p hp

/-- Something has been lost: a functor has read behind its string, or the write side was shut down too
early. -/
structure Lost (all : List UInt8) (s : Sys) : Prop where
  follows : Follows s
  lost : s.undefined = true ∨ ∃ p ∈ shutdowns [] s.conn.log, p.1 ≠ all

/-- With messages within an `int`, only a shutdown that overtakes one comes too early. -/
theorem step_overtakes {all : List UInt8} {ms : List (List UInt8)} {s s' : Sys} {a : Act}
    (h : Complete all s) (hms : ∀ m ∈ ms, m.length < 2 ^ 31) (hstep : step s a = some s')
    (hloses : Loses ms s a) : Lost all s' := by
  refine ⟨(step_follows h.follows hstep).1, ?_⟩
  rcases hloses with ⟨-, m, hm, hlong⟩ | ⟨⟨w, rfl⟩, hshuts, m, hne, hm⟩ | ⟨⟨w, rfl⟩, m, hm, hlong⟩
  · have := hms m hm
    omega
  · obtain ⟨pre, l, hl⟩ := step_loop h.follows (by simp) hstep
    obtain ⟨p, hp⟩ := List.exists_mem_of_ne_nil _ (hl.shuts.mpr hshuts)
    have hmsg : messages s.conn.loop.queued ≠ [] := by
      rw [ne_eq, messages_eq_nil]
      exact fun hall => hne (hall m (List.mem_append_right _ hm))
    have hpos := List.length_pos_of_ne_nil hmsg
    have hlen := length_everything s
    rw [h.stream] at hlen
    refine Or.inr ⟨p, by rw [hl.shutdowns]; exact List.mem_append_right _ hp, fun heq => ?_⟩
    have hp1 := congrArg List.length ((hl.moment p hp).1.symm.trans heq)
    rw [List.length_append] at hp1
    omega
  · have hmem : .sendInLoop m ∈ s.conn.loop.queued :=
      List.mem_append_left _ (List.mem_of_mem_head? hm)
    have hfit := h.fits m (List.mem_append_left _ (mem_sends.mpr hmem))
    have hle := hlong.trans (Nat.mod_le ..)
    omega

/-! ### A message that is too long -/

/-- With a message longer than an `int`, what is sent is too short: the message still waits, or part of
it is missing. The write side has not been shut down. -/
structure Short (all : List UInt8) (s : Sys) : Prop where
  follows : Follows s
  defined : s.undefined = false
  le : (everything s).length ≤ all.length
  short : (∃ m ∈ waiting s, 2 ^ 31 ≤ m.length) ∨ (everything s).length < all.length
  open_ : shutdowns [] s.conn.log = []

/-- What is missing never comes back. -/
theorem LoopStep.length_le {s s' : Sys} {a : Act} {pre : List Functor}
    {l : List (List UInt8 × List UInt8)} (hl : LoopStep s s' a pre l) :
    (everything s').length ≤ (everything s).length ∧ ((∃ m ∈ sends pre, 2 ^ 31 ≤ m.length) →
      (everything s').length < (everything s).length) := by
  have hlen (x : Sys) : (everything x).length =
      (wire x.conn.log ++ x.conn.outputBuffer.peek).length + (waiting x).flatten.length := by
    rw [everything, List.length_append]
  have hwaiting : (waiting s).flatten.length = (sends pre).flatten.length +
      (waiting s').flatten.length := by
    rw [hl.waiting_eq, List.flatten_append, List.length_append]
  rw [hlen, hlen, hwaiting]
  rcases hl.stream with ⟨hfit, hk⟩ | ⟨hk, -⟩ | ⟨m, k, rfl, hlong, hlt, hk⟩
  · have hmore : (wire s'.conn.log ++ s'.conn.outputBuffer.peek).length =
        (wire s.conn.log ++ s.conn.outputBuffer.peek).length + (messages pre).length := by
      rw [hk, List.length_append]
    rw [messages] at hmore
    refine ⟨by omega, ?_⟩
    rintro ⟨m, hm, hlong⟩
    have := hfit m hm
    omega
  · rw [hk]
    refine ⟨by omega, ?_⟩
    rintro ⟨m, hm, hlong⟩
    have := (List.sublist_flatten_of_mem hm).length_le
    omega
  · have hone : (sends [.sendInLoop m]).flatten.length = m.length := by simp
    have hmore : (wire s'.conn.log ++ s'.conn.outputBuffer.peek).length =
        (wire s.conn.log ++ s.conn.outputBuffer.peek).length + k := by
      rw [hk, List.length_append, List.length_take_of_le hlt.le]
    exact ⟨by omega, fun _ => by omega⟩

/-- **The write side is not shut down behind all of the bytes.** -/
theorem Short.step {all : List UInt8} {ms : List (List UInt8)} {s s' : Sys} {a : Act}
    (h : Short all s) (hms : ∃ m ∈ ms, 2 ^ 31 ≤ m.length) (hstep : step s a = some s') :
    (¬ Loses ms s a → Short all s') ∧ (Loses ms s a → Lost all s') := by
  by_cases ha : a = .user
  · subst ha
    have hu := step_user h.follows hstep
    refine ⟨fun _ => ⟨hu.follows, hu.undefined.trans h.defined, by rw [hu.stream]; exact h.le, ?_,
      hu.shutdowns.trans h.open_⟩, fun hl => ?_⟩
    · rw [hu.stream]
      refine h.short.imp_left ?_
      rintro ⟨m, hm, hlong⟩
      exact ⟨m, (hu.waiting m (by rintro rfl; simp at hlong)).mpr hm, hlong⟩
    · simp [Loses, ShutsDown] at hl
  · obtain ⟨pre, l, hl⟩ := step_loop h.follows ha hstep
    obtain ⟨hle, hlt⟩ := hl.length_le
    have hfollows := hl.follows h.follows
    constructor
    · intro hno
      refine ⟨hfollows, ?_, hle.trans h.le, ?_, ?_⟩
      · rw [← Bool.not_eq_true, hl.undefined]
        exact fun hundef => hno (Or.inr (Or.inr hundef))
      · rcases h.short with ⟨m, hm, hlong⟩ | hshort
        · rw [hl.waiting_eq, List.mem_append] at hm
          rcases hm with hm | hm
          · exact Or.inr ((hlt ⟨m, hm, hlong⟩).trans_le h.le)
          · exact Or.inl ⟨m, hm, hlong⟩
        · exact Or.inr (hle.trans_lt hshort)
      · have hnil : l = [] := by
          by_contra hne
          exact hno (Or.inl ⟨hl.shuts.mp hne, hms⟩)
        rw [hl.shutdowns, h.open_, hnil, List.append_nil]
    · intro hloses
      refine ⟨hfollows, ?_⟩
      by_cases hundef : s'.undefined = true
      · exact Or.inl hundef
      · have hshuts : ShutsDown s a := by
          rcases hloses with hw | hw | hw
          · exact hw.1
          · exact hw.2.1
          · exact absurd (hl.undefined.mpr hw) hundef
        obtain ⟨p, hp⟩ := List.exists_mem_of_ne_nil _ (hl.shuts.mpr hshuts)
        refine Or.inr ⟨p, by rw [hl.shutdowns]; exact List.mem_append_right _ hp, fun heq => ?_⟩
        have hp1 := congrArg List.length ((hl.moment p hp).1.symm.trans heq)
        have hlen : (everything s).length =
            (wire s.conn.log ++ s.conn.outputBuffer.peek).length + (waiting s).flatten.length := by
          rw [everything, List.length_append]
        have hbound := h.le
        rcases h.short with ⟨m, hm, hlong⟩ | hshort
        · have := (List.sublist_flatten_of_mem hm).length_le
          omega
        · omega

/-! ### Runs -/

theorem Start.follows {s : Sys} (h : Start s) : Follows s := by
  have hnot : .shutdownInLoop ∉ s.conn.loop.queued := fun hmem => by
    simpa [Functor.isCallback] using h.functors _ hmem
  refine ⟨h.synced, ?_, ?_, fun f hf => ?_, shutdownLast_of_notMem hnot, h.sizes⟩
  · rw [h.state, h.pc]; rfl
  · simp [h.pc, UserPc.beforeStore]
  · exact (h.functors f hf).imp_right Or.inl

/-- No step of the run loses anything. -/
def NeverLoses (s₀ : Sys) (acts : List Act) : Prop :=
  ∀ pre a post s, acts = pre ++ a :: post → run step s₀ pre = some s → ¬ Loses (waiting s₀) s a

theorem neverLoses_concat {s₀ s : Sys} {acts : List Act} {a : Act} (h : run step s₀ acts = some s) :
    NeverLoses s₀ (acts ++ [a]) ↔ NeverLoses s₀ acts ∧ ¬ Loses (waiting s₀) s a := by
  constructor
  · intro hno
    refine ⟨fun pre b post s' he hpre => hno pre b (post ++ [a]) s' (by simp [he]) hpre, ?_⟩
    exact hno acts a [] s rfl h
  · rintro ⟨hno, ha⟩ pre b post s' he hpre
    rcases split_concat he with ⟨rfl, rfl, -⟩ | ⟨mid, -, rfl⟩
    · rw [h, Option.some.injEq] at hpre
      exact hpre ▸ ha
    · exact hno pre b mid s' rfl hpre

theorem Lost.step {all : List UInt8} {s s' : Sys} {a : Act} (h : Lost all s)
    (hstep : step s a = some s') : Lost all s' := by
  obtain ⟨hf, hpre⟩ := step_follows h.follows hstep
  refine ⟨hf, Or.inr ?_⟩
  rcases h.lost with hundef | ⟨p, hp, hne⟩
  · exact absurd (undefined_of_step hstep) (by simp [hundef])
  · exact ⟨p, hpre.subset hp, hne⟩

/-- What holds as long as no step loses anything, and fails for good where one does. -/
theorem run_neverLoses {Good : Sys → Prop} {all : List UInt8} {s₀ : Sys} (h₀ : Good s₀)
    (hstep : ∀ s a s', Good s → step s a = some s' →
      (¬ Loses (waiting s₀) s a → Good s') ∧ (Loses (waiting s₀) s a → Lost all s'))
    {acts : List Act} {s : Sys} (h : run step s₀ acts = some s) :
    (NeverLoses s₀ acts → Good s) ∧ (¬ NeverLoses s₀ acts → Lost all s) := by
  refine (run_inv_history (P := fun acts s => run step s₀ acts = some s ∧
    (NeverLoses s₀ acts → Good s) ∧ (¬ NeverLoses s₀ acts → Lost all s)) ?_ ?_ h).2
  · exact ⟨rfl, fun _ => h₀, fun hno => absurd (fun _ _ _ _ he => by simp at he) hno⟩
  · rintro acts m a s' hs ⟨hrun, hgood, hlost⟩
    rw [neverLoses_concat hrun]
    refine ⟨run_concat.mpr ⟨m, hrun, hs⟩, fun ⟨hno, ha⟩ => (hstep m a s' (hgood hno) hs).1 ha,
      fun hloses => ?_⟩
    by_cases hno : NeverLoses s₀ acts
    · exact (hstep m a s' (hgood hno) hs).2 (by_contra fun ha => hloses ⟨hno, ha⟩)
    · exact (hlost hno).step hs

/-- **When a graceful shutdown loses nothing.** In every interleaving of the user thread with the
loop thread: all that the functors do is defined, and whenever the write side is shut down every byte
of every message is on the wire, if and only if no step loses anything. -/
theorem shutdown_loses_nothing_iff {s₀ s : Sys} {acts : List Act} (h₀ : Start s₀)
    (h : run step s₀ acts = some s) :
    (s.undefined = false ∧ ∀ p ∈ shutdowns [] s.conn.log, p.1 = everything s₀) ↔
      NeverLoses s₀ acts := by
  have hlost : Lost (everything s₀) s →
      ¬ (s.undefined = false ∧ ∀ p ∈ shutdowns [] s.conn.log, p.1 = everything s₀) := by
    rintro ⟨-, hundef | ⟨p, hp, hne⟩⟩ ⟨hdef, hall⟩
    · exact absurd (hdef.symm.trans hundef) (by simp)
    · exact hne (hall p hp)
  by_cases hfit : ∀ m ∈ waiting s₀, m.length < 2 ^ 31
  · have hcomplete : Complete (everything s₀) s₀ :=
      ⟨h₀.follows, hfit, h₀.undefined, rfl, by simp [h₀.shutdown]⟩
    obtain ⟨hgood, hbad⟩ := run_neverLoses hcomplete
      (fun s a s' hc hs => ⟨step_complete hc hs, step_overtakes hc hfit hs⟩) h
    exact ⟨fun hall => by_contra fun hno => hlost (hbad hno) hall,
      fun hno => ⟨(hgood hno).defined, (hgood hno).sent⟩⟩
  · push Not at hfit
    have hshort : Short (everything s₀) s₀ :=
      ⟨h₀.follows, h₀.undefined, le_rfl, Or.inl hfit, h₀.shutdown⟩
    obtain ⟨hgood, hbad⟩ := run_neverLoses hshort (fun s a s' hc hs => hc.step hfit hs) h
    exact ⟨fun hall => by_contra fun hno => hlost (hbad hno) hall,
      fun hno => ⟨(hgood hno).defined, by simp [(hgood hno).open_]⟩⟩

/-- Every connection behind `ConnectEstablished` is such a start. -/
theorem start_established (fd : ℤ) (highWatermark : ℕ) (writeComplete highWater sameLoop : Bool)
    {todo : List (List UInt8)} (hsizes : ∀ m ∈ todo, m.length < 2 ^ 63) :
    Start { conn := established fd highWatermark writeComplete highWater sameLoop, todo } where
  state := rfl
  synced := (outputInv_established fd highWatermark writeComplete highWater sameLoop).synced
  shutdown := by
    simp [established, new, connectEstablished, calls, update, emit, setState, assert, Net.shutdowns]
  pc := rfl
  functors f hf := absurd (show f ∈ [] from hf) (by simp)
  sizes m hm := by
    rcases List.mem_append.mp hm with hm | hm
    · exact absurd (show m ∈ [] from hm) (by simp)
    · rcases List.mem_cons.mp hm with rfl | hm
      · simp [UserPc.message]
      · exact hsizes m hm
  undefined := rfl

/-- Two messages, the first written in part, and both run before the write event. -/
theorem shutdown_loses_nothing_iff_two : ∃ s,
    run step { conn := established 5 64 false false true, todo := [[1, 2], [3]] }
      [.user, .user, .beginFunctors, .functor (.room 1), .endFunctors, .user, .user, .user, .user,
        .user, .beginFunctors, .functor (.room 0), .functor (.room 0), .endFunctors,
        .handleWrite (.room 9)] = some s ∧
    shutdowns [] s.conn.log = [([1, 2, 3], [])] ∧
    NeverLoses { conn := established 5 64 false false true, todo := [[1, 2], [3]] }
      [.user, .user, .beginFunctors, .functor (.room 1), .endFunctors, .user, .user, .user, .user,
        .user, .beginFunctors, .functor (.room 0), .functor (.room 0), .endFunctors,
        .handleWrite (.room 9)] := by
  have hrun : (run step { conn := established 5 64 false false true, todo := [[1, 2], [3]] }
      [.user, .user, .beginFunctors, .functor (.room 1), .endFunctors, .user, .user, .user, .user,
        .user, .beginFunctors, .functor (.room 0), .functor (.room 0), .endFunctors,
        .handleWrite (.room 9)]).map (fun s => (s.undefined, shutdowns [] s.conn.log)) =
      some (false, [([1, 2, 3], [])]) := by decide +kernel
  obtain ⟨s, hs, hshut⟩ := Option.map_eq_some_iff.mp hrun
  rw [Prod.mk.injEq] at hshut
  refine ⟨s, hs, hshut.2, (shutdown_loses_nothing_iff
    (start_established 5 64 false false true (by decide)) hs).mp ⟨hshut.1, ?_⟩⟩
  rw [hshut.2]
  decide

/-- The same messages, with the write event before the second one runs: it is overtaken. -/
theorem shutdown_overtakes :
    ¬ ∀ s, run step { conn := established 5 64 false false true, todo := [[1, 2], [3]] }
        [.user, .user, .beginFunctors, .functor (.room 1), .endFunctors, .user, .user, .user, .user,
          .user, .handleWrite (.room 9)] = some s →
      ∀ p ∈ shutdowns [] s.conn.log, p.1 = [1, 2, 3] := by
  intro hall
  have hrun : (run step { conn := established 5 64 false false true, todo := [[1, 2], [3]] }
      [.user, .user, .beginFunctors, .functor (.room 1), .endFunctors, .user, .user, .user, .user,
        .user, .handleWrite (.room 9)]).map (fun s => shutdowns [] s.conn.log) =
      some [([1, 2], [])] := by decide +kernel
  obtain ⟨s, hs, hshut⟩ := Option.map_eq_some_iff.mp hrun
  exact absurd (hall s hs _ (hshut ▸ List.mem_singleton_self _)) (by decide)

end Shutdown

end MuduoCpp11.Net.TcpConnection
