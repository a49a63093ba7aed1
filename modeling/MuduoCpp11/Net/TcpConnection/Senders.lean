import MuduoCpp11.Lib.History
import MuduoCpp11.Net.TcpConnection.Served
import MuduoCpp11.Net.TcpConnection.Shutdown

/-! # Many threads send

Any number of threads call `Send` on one connection, while the loop thread sends, handles write events,
runs functors, and may shut the connection down or close it. `Send` on another thread tests `state_` and
then queues the message, in two steps; on the loop thread it writes at once, and so overtakes what is
queued. `Shutdown` and `ForceClose` also test `state_` and store to it later: the store may come at any
time, even behind the close.

Whatever the interleaving, every message is in one piece, none is sent twice, and those of one thread
are sent in the order of its calls; none is lost unless a direct write fails or the connection is closed
(`senders_in_order`). -/

namespace MuduoCpp11.Net

open MuduoCpp11.Lib MuduoCpp11.Lib.History

def Functor.message : Functor → Option (List UInt8)
  | .sendInLoop message => some message
  | _ => none

/-- The messages in a queue. -/
def messagesOf (q : List Functor) : List (List UInt8) := q.filterMap Functor.message

namespace TcpConnection

/-! ### The stream, in any state -/

/-- From `c` to `c'`, the bytes `d` are appended to the stream, and no message is queued. -/
structure Streams (c c' : TcpConnection) (d : List UInt8) : Prop where
  stream : wire c'.log ++ c'.outputBuffer.peek = wire c.log ++ c.outputBuffer.peek ++ d
  queue : messagesOf c'.loop.queued = messagesOf c.loop.queued

variable {c c' : TcpConnection} {d : List UInt8}

theorem messagesOf_callbacks {q : List Functor} (h : ∀ f ∈ q, f.isCallback = true) :
    messagesOf q = [] := by
  simp only [messagesOf, List.filterMap_eq_nil_iff]
  intro f hf
  have := h f hf
  cases f <;> simp_all [Functor.isCallback, Functor.message]

theorem QueuesCallbacks.messagesOf (h : QueuesCallbacks c c') :
    Net.messagesOf c'.loop.queued = Net.messagesOf c.loop.queued := by
  obtain ⟨cbs, hq, hcb⟩ := h
  have hnone : Net.messagesOf cbs = [] := messagesOf_callbacks hcb
  rw [hq, Net.messagesOf, List.filterMap_append]
  exact (congrArg _ hnone).trans (List.append_nil _)

theorem Streams.refl (c : TcpConnection) : Streams c c [] := ⟨by simp, rfl⟩

theorem KeepsStream.streams (h : KeepsStream c c') : Streams c c' [] := by
  obtain ⟨fs, hq, hfs⟩ := h.queue
  refine ⟨by rw [h.stream, List.append_nil], ?_⟩
  have hnone : Net.messagesOf fs = [] := by
    simp only [Net.messagesOf, List.filterMap_eq_nil_iff]
    intro f hf
    rw [hfs f hf]
    rfl
  rw [hq, Net.messagesOf, List.filterMap_append]
  exact (congrArg _ hnone).trans (List.append_nil _)

/-- A connection that writes directly has nothing to write. -/
theorem synced_of_writesDirectly (h : c.writesDirectly = true) : c.Synced := by
  simp only [writesDirectly, Bool.and_eq_true, Bool.not_eq_true', decide_eq_true_eq] at h
  simp [Synced, h.1, h.2]

theorem sendInLoop_streams (hst : c.state ≠ .kDisconnected) (data : List UInt8) (w : WriteResult) :
    Streams c (c.sendInLoop data w) (if c.directWriteFails w then [] else data) := by
  by_cases hd : c.writesDirectly = true
  · have ha := sendInLoop_appends (synced_of_writesDirectly hd) hst data w
    exact ⟨ha.stream, ha.queue.messagesOf⟩
  · have hfail : c.directWriteFails w = false := by simp [directWriteFails, hd]
    unfold sendInLoop
    simp only [if_neg hst, hd, hfail, Bool.false_eq_true, if_false]
    by_cases hdata : data = []
    · simpa [hdata] using Streams.refl c
    · have hb := bufferRemaining_appends (c := c) hdata
      have hpos := List.length_pos_of_ne_nil hdata
      simpa [hpos] using Streams.mk hb.stream hb.queue.messagesOf

theorem shutdownInLoop_streams (c : TcpConnection) : Streams c c.shutdownInLoop [] := by
  unfold shutdownInLoop
  split_ifs
  · exact ⟨by simp [emit, wire, Effect.written], rfl⟩
  · exact .refl c

theorem handleWrite_streams (c : TcpConnection) (w : WriteResult) :
    Streams c (c.handleWrite w) [] := by
  by_cases hw : c.channel.isWriting = true
  · by_cases hpos : 0 < c.outputBuffer.readableBytes
    · have hm := handleWrite_moves (c := c) (by simp [Synced, hw, hpos]) w
      exact ⟨by rw [hm.stream, List.append_nil], hm.queue.messagesOf⟩
    · cases w with
      | room n =>
        rw [handleWrite_room hw, if_neg (by omega)]
        exact ⟨by simp [emit, wire, Effect.written], rfl⟩
      | error e =>
        simp only [handleWrite, hw, if_true]
        exact .refl c
  · simp only [handleWrite, hw]
    exact .refl c

theorem connectDestroyed_streams (c : TcpConnection) : Streams c (c.connectDestroyed []) [] := by
  have hclose := (keepsStream_setState c .kDisconnected).trans
    (keepsStream_update _ Channel.disableAll)
  have hdown := hclose.trans (keepsStream_emit _ (e := .connectionCallback .kDisconnected) rfl)
  unfold connectDestroyed
  dsimp only
  split_ifs
  · exact (hdown.trans (keepsStream_removeChannel _)).streams
  · exact (keepsStream_removeChannel c).streams

/-- A functor appends its message; in `kDisconnected`, and where the direct write fails, it does not. -/
theorem runFunctor_streams (c : TcpConnection) (f : Functor) (w : WriteResult) :
    Streams c (c.runFunctor f w []) (match f with
      | .sendInLoop message =>
        if c.state = .kDisconnected ∨ c.directWriteFails w = true then [] else message
      | _ => []) := by
  cases f with
  | sendInLoop message =>
    by_cases hst : c.state = .kDisconnected
    · simp only [runFunctor, sendInLoop, hst, true_or, if_true]
      exact .refl c
    · simp only [runFunctor, hst, false_or]
      exact sendInLoop_streams hst message w
  | shutdownInLoop => exact shutdownInLoop_streams c
  | forceCloseInLoop =>
    simp only [runFunctor, forceCloseInLoop]
    split_ifs
    · exact (keepsStream_handleClose c).streams
    · exact .refl c
  | connectDestroyed => exact connectDestroyed_streams c
  | writeCompleteCallback => exact (keepsStream_emit c (e := .writeCompleteCallback) rfl).streams
  | highWatermarkCallback len =>
    exact (keepsStream_emit c (e := .highWatermarkCallback len) rfl).streams

/-! ### The system -/

namespace Senders

/-- `hand` is the message for which `Send` has found `kConnected` and which is not queued yet. `queued`
and `calls` are histories: the threads of the messages in the queue, and the messages given to
`SendInLoop`, where `none` is the loop thread; `closed` says that `kDisconnected` has been stored. -/
structure Sys (T : Type*) where
  conn : TcpConnection
  hand : T → Option (List UInt8) := fun _ => none
  queued : List (T × List UInt8) := []
  calls : List (Option T × List UInt8) := []
  closed : Bool := false

/-- A `Send` that finds another state than `kConnected` does nothing, and is no step. `store` is the
store of `Shutdown` or `ForceClose`, and `queueInLoop` what they queue. -/
inductive Act (T : Type*) where
  | call (t : T) (message : List UInt8)
  | queue (t : T)
  | send (message : List UInt8) (w : WriteResult)
  | store
  | queueInLoop (isInLoopThread : Bool) (force : Bool)
  | handleWrite (w : WriteResult)
  | handleClose
  | removeConnection
  | beginFunctors
  | functor (w : WriteResult)
  | endFunctors

variable {T : Type*}

/-- A step of the loop thread that ends with the connection `conn`. -/
def Sys.setConn (s : Sys T) (conn : TcpConnection) : Sys T :=
  { s with conn, closed := s.closed || conn.state = .kDisconnected }

/-- The next functor; a message goes to `SendInLoop`. -/
def runFunctor (s : Sys T) (f : Functor) (w : WriteResult) : Sys T :=
  let s' := s.setConn (s.conn.runFunctor f w [])
  match f, s.queued with
  | .sendInLoop message, (t, _) :: queued =>
    { s' with queued, calls := s.calls ++ [(some t, message)] }
  | _, _ => s'

def step [DecidableEq T] (s : Sys T) : Act T → Option (Sys T)
  | .call t message =>
    if s.hand t = none ∧ s.conn.state = .kConnected then
      some { s with hand := Function.update s.hand t (some message) }
    else none
  | .queue t =>
    (s.hand t).map fun message =>
      { s with
        conn := s.conn.queueFromThread (.sendInLoop message)
        hand := Function.update s.hand t none
        queued := s.queued ++ [(t, message)] }
  | .send message w =>
    if s.conn.state = .kConnected then
      some { s.setConn (s.conn.send message w) with calls := s.calls ++ [(none, message)] }
    else none
  | .store => some { s with conn := s.conn.setState .kDisconnecting }
  | .queueInLoop isInLoopThread force =>
    let f := if force then .forceCloseInLoop else .shutdownInLoop
    some { s with conn := { s.conn with loop := s.conn.loop.queueInLoop isInLoopThread f } }
  | .handleWrite w =>
    if s.conn.loop.callingPendingFunctors = false then some (s.setConn (s.conn.handleWrite w))
    else none
  | .handleClose =>
    if s.conn.loop.callingPendingFunctors = false then some (s.setConn (s.conn.handleClose []))
    else none
  | .removeConnection =>
    if s.conn.owner.removePending then some (s.setConn s.conn.removeConnectionInLoop) else none
  | .beginFunctors => s.conn.loop.beginFunctors.map fun loop => { s with conn := { s.conn with loop } }
  | .functor w => s.conn.loop.nextFunctor.map fun (f, loop) =>
      runFunctor { s with conn := { s.conn with loop } } f w
  | .endFunctors => s.conn.loop.endFunctors.map fun loop => { s with conn := { s.conn with loop } }

/-- The messages for which a `Send` of the thread finds `kConnected`; `none` is the loop thread. -/
def Act.sends [DecidableEq T] (t : Option T) : Act T → List (List UInt8)
  | .call u message => if some u = t then [message] else []
  | .send message _ => if none = t then [message] else []
  | _ => []

/-- No direct write fails with `EPIPE` or `ECONNRESET`. -/
def Act.calm : Act T → Bool
  | .send _ w | .functor w => !w.isFault
  | _ => true

variable [DecidableEq T]

/-- The messages of one thread for which `Send` is under way. -/
def pending (s : Sys T) : Option T → List (List UInt8)
  | none => []
  | some t => ofThread t s.queued ++ (s.hand t).toList

/-- **The invariant** behind the actions `acts`: the stream is the messages `kept` out of those given to
`SendInLoop`, and these, with the messages under way, are what each thread has sent. -/
structure Inv (acts : List (Act T)) (s : Sys T) (kept : List (Option T × List UInt8)) : Prop where
  stream : wire s.conn.log ++ s.conn.outputBuffer.peek = (kept.map Prod.snd).flatten
  sub : kept.Sublist s.calls
  all : acts.all Act.calm = true → s.closed = false → kept = s.calls
  isOpen : s.closed = false → s.conn.state ≠ .kDisconnected
  queue : messagesOf s.conn.loop.queued = s.queued.map Prod.snd
  order : ∀ t, ofThread t s.calls ++ pending s t = acts.flatMap (Act.sends t)

variable {acts : List (Act T)} {a : Act T} {s s' : Sys T} {kept : List (Option T × List UInt8)}

omit [DecidableEq T] in
theorem isOpen_setConn {conn : TcpConnection} (h : (s.setConn conn).closed = false) :
    s.closed = false ∧ conn.state ≠ .kDisconnected := by
  simpa [Sys.setConn] using h

/-- A step that appends no message. -/
theorem Inv.quiet (h : Inv acts s kept) {conn : TcpConnection} (hc : Streams s.conn conn [])
    (ha : ∀ t, a.sends t = []) : Inv (acts ++ [a]) (s.setConn conn) kept where
  stream := by
    have hs := hc.stream
    rw [List.append_nil, h.stream] at hs
    exact hs
  sub := h.sub
  all hall hclosed := by
    simp only [List.all_append, Bool.and_eq_true] at hall
    exact h.all hall.1 (isOpen_setConn hclosed).1
  isOpen hclosed := (isOpen_setConn hclosed).2
  queue := hc.queue.trans h.queue
  order t := by
    rw [List.flatMap_append, List.flatMap_singleton, ha, List.append_nil]
    exact h.order t

/-- The queue of the loop is rearranged, or gets a functor that is no message. -/
theorem Inv.loop (h : Inv acts s kept) {loop : EventLoop Functor}
    (hq : messagesOf loop.queued = messagesOf s.conn.loop.queued) (ha : ∀ t, a.sends t = []) :
    Inv (acts ++ [a]) { s with conn := { s.conn with loop } } kept where
  stream := h.stream
  sub := h.sub
  all hall := by
    simp only [List.all_append, Bool.and_eq_true] at hall
    exact h.all hall.1
  isOpen := h.isOpen
  queue := hq.trans h.queue
  order t := by
    rw [List.flatMap_append, List.flatMap_singleton, ha, List.append_nil]
    exact h.order t

/-- `Send` has found `kConnected`, and takes the message. -/
theorem Inv.call (h : Inv acts s kept) {t : T} {message : List UInt8} (ht : s.hand t = none) :
    Inv (acts ++ [.call t message]) { s with hand := Function.update s.hand t (some message) }
      kept where
  stream := h.stream
  sub := h.sub
  all hall := by
    simp only [List.all_append, Bool.and_eq_true] at hall
    exact h.all hall.1
  isOpen := h.isOpen
  queue := h.queue
  order u := by
    rw [List.flatMap_append, List.flatMap_singleton, ← h.order u, List.append_assoc]
    cases u with
    | none => simp [pending, Act.sends]
    | some u =>
      by_cases hu : t = u
      · subst hu
        simp [pending, Act.sends, ht]
      · simp [pending, Act.sends, hu, Function.update_of_ne (Ne.symm hu)]

/-- The message goes to the queue. -/
theorem Inv.push (h : Inv acts s kept) {t : T} {message : List UInt8}
    (ht : s.hand t = some message) :
    Inv (acts ++ [.queue t]) { s with
      conn := s.conn.queueFromThread (.sendInLoop message)
      hand := Function.update s.hand t none
      queued := s.queued ++ [(t, message)] } kept where
  stream := h.stream
  sub := h.sub
  all hall := by
    simp only [List.all_append, Bool.and_eq_true] at hall
    exact h.all hall.1
  isOpen := h.isOpen
  queue := by
    have hq := h.queue
    simp only [messagesOf] at hq ⊢
    simp [hq, Functor.message]
  order u := by
    rw [List.flatMap_append, List.flatMap_singleton, ← h.order u]
    cases u with
    | none => simp [pending, Act.sends]
    | some u =>
      by_cases hu : t = u
      · subst hu
        simp [pending, Act.sends, ht]
      · simp [pending, Act.sends, hu, Function.update_of_ne (Ne.symm hu)]

/-- A message `p` is given to `SendInLoop`, which appends it unless `lost`. -/
theorem Inv.sendInLoop (h : Inv acts s kept) {p : Option T × List UInt8} {conn : TcpConnection}
    {queued : List (T × List UInt8)} {lost : Prop} [Decidable lost]
    (hs : wire conn.log ++ conn.outputBuffer.peek =
      wire s.conn.log ++ s.conn.outputBuffer.peek ++ if lost then [] else p.2)
    (hlost : a.calm = true → s.closed = false → ¬ lost)
    (hq : messagesOf conn.loop.queued = queued.map Prod.snd)
    (ho : ∀ t, ofThread t (s.calls ++ [p]) ++
        pending ({ s with queued } : Sys T) t = (acts ++ [a]).flatMap (Act.sends t)) :
    ∃ kept', Inv (acts ++ [a]) { s.setConn conn with queued, calls := s.calls ++ [p] } kept' := by
  refine ⟨kept ++ if lost then [] else [p], ?_, ?_, ?_, ?_, hq, ho⟩
  · rw [h.stream] at hs
    show wire conn.log ++ conn.outputBuffer.peek = _
    rw [hs]
    split_ifs <;> simp
  · refine h.sub.append ?_
    split_ifs <;> simp
  · intro hall hclosed
    simp only [List.all_append, List.all_cons, List.all_nil, Bool.and_true, Bool.and_eq_true] at hall
    have hopen := (isOpen_setConn hclosed).1
    rw [if_neg (hlost hall.2 hopen), h.all hall.1 hopen]
  · exact fun hclosed => (isOpen_setConn hclosed).2

/-- The next functor, which is a message exactly if it is the first of the messages queued. -/
theorem Inv.functor (h : Inv acts s kept) {f : Functor} {loop : EventLoop Functor}
    (hnext : s.conn.loop.nextFunctor = some (f, loop)) (w : WriteResult) :
    ∃ kept', Inv (acts ++ [.functor w])
      (runFunctor { s with conn := { s.conn with loop } } f w) kept' := by
  have hqueued := EventLoop.queued_nextFunctor hnext
  have hc := runFunctor_streams { s.conn with loop } f w
  have hqueue := h.queue
  rw [hqueued] at hqueue
  have hquiet : f.message = none → Streams s.conn ({ s.conn with loop }.runFunctor f w []) [] →
      Inv (acts ++ [.functor w])
        (s.setConn ({ s.conn with loop }.runFunctor f w [])) kept := fun _ hc => h.quiet hc fun _ => rfl
  cases f with
  | sendInLoop message =>
    obtain ⟨⟨t, m⟩, rest, hrest, hm, hmessages⟩ : ∃ (p : T × List UInt8) (rest : List (T × List UInt8)),
        s.queued = p :: rest ∧ p.2 = message ∧ messagesOf loop.queued = rest.map Prod.snd := by
      cases hsq : s.queued with
      | nil => simp [hsq, messagesOf, Functor.message] at hqueue
      | cons p rest =>
        simp [hsq, messagesOf, Functor.message] at hqueue
        exact ⟨p, rest, rfl, hqueue.1.symm, hqueue.2⟩
    subst hm
    have hrun : runFunctor { s with conn := { s.conn with loop } } (.sendInLoop m) w =
        { s.setConn ({ s.conn with loop }.runFunctor (.sendInLoop m) w []) with
          queued := rest, calls := s.calls ++ [(some t, m)] } := by
      simp only [runFunctor, hrest]
      rfl
    rw [hrun]
    refine h.sendInLoop hc.stream ?_ (hc.queue.trans hmessages) fun u => ?_
    · intro hcalm hclosed hlost
      rcases hlost with hlost | hlost
      · exact h.isOpen hclosed hlost
      · simp only [directWriteFails, Bool.and_eq_true] at hlost
        simp [Act.calm, hlost.2] at hcalm
    · have hu := h.order u
      rw [List.flatMap_append, List.flatMap_singleton, ← hu]
      cases u with
      | none => simp [pending, Act.sends]
      | some u =>
        simp only [pending, hrest, ofThread_cons, ofThread_concat, Act.sends, Option.some.injEq,
          List.append_nil, List.append_assoc]
  | shutdownInLoop => exact ⟨kept, hquiet rfl ⟨hc.stream, hc.queue.trans (by rw [hqueued]; rfl)⟩⟩
  | forceCloseInLoop => exact ⟨kept, hquiet rfl ⟨hc.stream, hc.queue.trans (by rw [hqueued]; rfl)⟩⟩
  | connectDestroyed => exact ⟨kept, hquiet rfl ⟨hc.stream, hc.queue.trans (by rw [hqueued]; rfl)⟩⟩
  | writeCompleteCallback =>
    exact ⟨kept, hquiet rfl ⟨hc.stream, hc.queue.trans (by rw [hqueued]; rfl)⟩⟩
  | highWatermarkCallback len =>
    exact ⟨kept, hquiet rfl ⟨hc.stream, hc.queue.trans (by rw [hqueued]; rfl)⟩⟩

/-- **A step keeps the invariant.** -/
theorem step_inv (h : Inv acts s kept) (hs : step s a = some s') :
    ∃ kept', Inv (acts ++ [a]) s' kept' := by
  cases a with
  | call t message =>
    simp only [step] at hs
    split_ifs at hs with hg
    cases hs
    exact ⟨kept, h.call hg.1⟩
  | queue t =>
    obtain ⟨message, hm, rfl⟩ := Option.map_eq_some_iff.mp hs
    exact ⟨kept, h.push hm⟩
  | send message w =>
    simp only [step] at hs
    split_ifs at hs with hst
    cases hs
    have hlive : s.conn.state ≠ .kDisconnected := by simp [hst]
    have hc := sendInLoop_streams hlive message w
    rw [TcpConnection.send, if_pos hst]
    have hstream : wire (s.conn.sendInLoop message w).log ++
        (s.conn.sendInLoop message w).outputBuffer.peek =
        wire s.conn.log ++ s.conn.outputBuffer.peek ++
          if s.conn.directWriteFails w = true then [] else message := hc.stream
    refine h.sendInLoop hstream ?_ (hc.queue.trans h.queue) fun u => ?_
    · intro hcalm _ hlost
      simp only [directWriteFails, Bool.and_eq_true] at hlost
      simp [Act.calm, hlost.2] at hcalm
    · have hu := h.order u
      rw [List.flatMap_append, List.flatMap_singleton, ← hu]
      cases u with
      | none => simp [pending, Act.sends]
      | some u => simp [pending, Act.sends, Sys.setConn]
  | store =>
    cases hs
    have hc := (keepsStream_setState s.conn .kDisconnecting).streams
    have hconn := h.quiet (a := .store) hc fun _ => rfl
    have hclosed : (s.setConn (s.conn.setState .kDisconnecting)).closed = s.closed := by
      simp [Sys.setConn, setState, emit]
    exact ⟨kept, hconn.stream, hconn.sub, fun hall hopen => hconn.all hall (hclosed.trans hopen),
      fun _ hdis => by simp [setState, emit] at hdis, hconn.queue, hconn.order⟩
  | queueInLoop isInLoopThread force =>
    cases hs
    refine ⟨kept, h.loop ?_ fun _ => rfl⟩
    rw [EventLoop.queued_queueInLoop, messagesOf, List.filterMap_append]
    cases force <;> simp [Functor.message, messagesOf]
  | handleWrite w =>
    simp only [step] at hs
    split_ifs at hs
    cases hs
    exact ⟨kept, h.quiet (handleWrite_streams _ w) fun _ => rfl⟩
  | handleClose =>
    simp only [step] at hs
    split_ifs at hs
    cases hs
    exact ⟨kept, h.quiet (keepsStream_handleClose _).streams fun _ => rfl⟩
  | removeConnection =>
    simp only [step] at hs
    split_ifs at hs
    cases hs
    exact ⟨kept, h.quiet (keepsStream_removeConnectionInLoop _).streams fun _ => rfl⟩
  | beginFunctors =>
    obtain ⟨loop, hloop, rfl⟩ := Option.map_eq_some_iff.mp hs
    exact ⟨kept, h.loop (by rw [EventLoop.queued_beginFunctors hloop]) fun _ => rfl⟩
  | functor w =>
    obtain ⟨⟨f, loop⟩, hnext, rfl⟩ := Option.map_eq_some_iff.mp hs
    exact h.functor hnext w
  | endFunctors =>
    obtain ⟨loop, hloop, rfl⟩ := Option.map_eq_some_iff.mp hs
    exact ⟨kept, h.loop (by rw [EventLoop.queued_endFunctors hloop]) fun _ => rfl⟩

/-- A connection behind `ConnectEstablished`, before any `Send`. -/
def start (fd : ℤ) (highWatermark : ℕ) (writeComplete highWater sameLoop : Bool) : Sys T where
  conn := established fd highWatermark writeComplete highWater sameLoop

def run : Sys T → List (Act T) → Option (Sys T) := Run.run step

/-- **Messages of many threads.** In every interleaving of any number of threads that send with the
steps of the loop thread, the stream (the wire, followed by the output buffer) is a list `kept` of whole
messages out of those given to `SendInLoop`, in the order in which they were given to it. What a thread
has sent is, in the order of its calls, what of it has been given to `SendInLoop`, what is queued, and
the message it has in hand. And as long as no direct write fails with `EPIPE` or `ECONNRESET` and the
connection is not closed, `kept` is all that was given to `SendInLoop`. -/
theorem senders_in_order {fd : ℤ} {highWatermark : ℕ} {writeComplete highWater sameLoop : Bool}
    (h : run (start fd highWatermark writeComplete highWater sameLoop) acts = some s) :
    ∃ kept, wire s.conn.log ++ s.conn.outputBuffer.peek = (kept.map Prod.snd).flatten ∧
      kept.Sublist s.calls ∧
      (acts.all Act.calm = true → s.closed = false → kept = s.calls) ∧
      messagesOf s.conn.loop.queued = s.queued.map Prod.snd ∧
      (∀ t, ofThread (some t) s.calls ++ (ofThread t s.queued ++ (s.hand t).toList) =
        acts.flatMap (Act.sends (some t))) ∧
      ofThread none s.calls = acts.flatMap (Act.sends none) := by
  have hinit : ∃ kept,
      Inv [] (start fd highWatermark writeComplete highWater sameLoop : Sys T) kept := by
    have hout := outputInv_established fd highWatermark writeComplete highWater sameLoop
    refine ⟨[], hout.stream, .slnil, fun _ _ => rfl, fun _ => nofun, rfl, fun t => ?_⟩
    cases t <;> rfl
  obtain ⟨kept, hinv⟩ := Run.run_inv_history (P := fun acts s => ∃ kept, Inv acts s kept) hinit
    (fun _ _ _ _ hs ⟨_, h⟩ => step_inv h hs) h
  refine ⟨kept, hinv.stream, hinv.sub, hinv.all, hinv.queue, fun t => hinv.order (some t), ?_⟩
  have hloop := hinv.order none
  rwa [pending, List.append_nil] at hloop

/-- Two threads and the loop thread; the loop thread overtakes a message that is queued. -/
theorem senders_in_order_of_two : ∃ s : Sys (Fin 2),
    run (start 5 64 false false true)
      [.call 0 [1], .call 1 [2], .queue 1, .queue 0, .send [3] (.room 0), .call 1 [4], .beginFunctors,
        .functor (.room 0), .queue 1, .functor (.room 0), .endFunctors, .handleWrite (.room 2)] =
      some s ∧
    wire s.conn.log ++ s.conn.outputBuffer.peek = [3, 2, 1] ∧
    ofThread (some 1) s.calls ++ (ofThread 1 s.queued ++ (s.hand 1).toList) = [[2], [4]] := by
  have hsome : (run (start 5 64 false false true)
      [.call (0 : Fin 2) [1], .call 1 [2], .queue 1, .queue 0, .send [3] (.room 0), .call 1 [4],
        .beginFunctors, .functor (.room 0), .queue 1, .functor (.room 0), .endFunctors,
        .handleWrite (.room 2)]).map (fun s => (s.calls, s.closed)) =
      some ([(none, [3]), (some 1, [2]), (some 0, [1])], false) := by decide +kernel
  obtain ⟨s, hs, hv⟩ := Option.map_eq_some_iff.mp hsome
  simp only [Prod.mk.injEq] at hv
  obtain ⟨kept, hstream, -, hall, -, horder, -⟩ := senders_in_order hs
  have hkept := (hall (by decide) hv.2).trans hv.1
  subst hkept
  exact ⟨s, hs, hstream, horder 1⟩

end Senders

end TcpConnection

end MuduoCpp11.Net
