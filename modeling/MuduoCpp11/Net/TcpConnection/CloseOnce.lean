import MuduoCpp11.Net.TcpConnection.LifeCycle

/-! # One dispatch, one close

`HandleEventWithGuard` calls the callbacks of the channel from one snapshot of `revents`: the close
callback for a hang-up without input, then the read callback for input, urgent data or the end of the
peer's output. Both can come to `HandleClose`, the read callback when the stream is at its end, and
the second time its assertion fails. `closes_once_iff` says for which events this happens; what the
user's callbacks do in between makes no difference. -/

namespace MuduoCpp11.Net.TcpConnection

variable {c : TcpConnection}

/-- How often `HandleClose` has told the owner, and how often its assertion has failed. -/
def closings (c : TcpConnection) : ℕ × ℕ :=
  (c.log.count .closeCallback, c.log.count (.assertFailed .handleClose))

/-- The other effects. -/
theorem closings_emit {e : Effect} (hclose : e ≠ .closeCallback)
    (hassert : e ≠ .assertFailed .handleClose) : (c.emit e).closings = c.closings := by
  simp [closings, emit, hclose, hassert]

theorem closings_setState (s : StateE) : (c.setState s).closings = c.closings :=
  closings_emit (c := { c with state := s }) (by simp) (by simp)

theorem closings_update (f : Channel → Channel) : (c.update f).closings = c.closings :=
  closings_emit (c := { c with channel := f c.channel }) (by simp) (by simp)

theorem closings_queueInLoop (cb : Functor) : (c.queueInLoop cb).closings = c.closings := rfl

/-! ### The user's calls and the write callback -/

theorem closings_shutdownInLoop : c.shutdownInLoop.closings = c.closings := by
  unfold shutdownInLoop
  split_ifs
  · exact closings_emit (by simp) (by simp)
  · rfl

theorem closings_writeDirectly (data : List UInt8) (w : WriteResult) :
    (c.writeDirectly data w).1.closings = c.closings := by
  cases w with
  | room n =>
    simp only [writeDirectly]
    split_ifs
    · exact closings_emit (by simp) (by simp)
    · exact closings_emit (by simp) (by simp)
  | error e => rfl

theorem closings_bufferRemaining (remaining : List UInt8) :
    (c.bufferRemaining remaining).closings = c.closings := by
  unfold bufferRemaining
  dsimp only
  split_ifs
  · exact closings_update _
  · rfl
  · exact closings_update _
  · rfl

theorem closings_sendInLoop (data : List UInt8) (w : WriteResult) :
    (c.sendInLoop data w).closings = c.closings := by
  unfold sendInLoop
  split_ifs
  · rfl
  · dsimp only
    split_ifs
    · rw [closings_bufferRemaining, closings_writeDirectly]
    · exact closings_writeDirectly data w
  · dsimp only
    split_ifs
    · exact closings_bufferRemaining _
    · rfl

theorem closings_call (u : UserCall) : (c.call u).closings = c.closings := by
  cases u with
  | send message w =>
    simp only [call, send]
    split_ifs
    · exact closings_sendInLoop message w
    · rfl
  | shutdown =>
    simp only [call, shutdown]
    split_ifs
    · rw [closings_shutdownInLoop, closings_setState]
    · rfl
  | forceClose =>
    simp only [call, forceClose]
    split_ifs
    · rw [closings_queueInLoop, closings_setState]
    · rfl
  | forceCloseWithDelay =>
    simp only [call, forceCloseWithDelay]
    split_ifs
    · exact closings_setState _
    · rfl
  | retrieve len => rfl

theorem closings_calls : ∀ (script : List UserCall) {c : TcpConnection},
    (c.calls script).closings = c.closings
  | [], c => rfl
  | u :: script, c => by
    show ((c.call u).calls script).closings = _
    rw [closings_calls script, closings_call]

theorem closings_drained : c.drained.closings = c.closings := by
  unfold drained
  dsimp only
  split_ifs
  · rw [closings_shutdownInLoop, closings_queueInLoop, closings_update]
  · rw [closings_queueInLoop, closings_update]
  · rw [closings_shutdownInLoop, closings_update]
  · exact closings_update _

theorem closings_handleWrite (w : WriteResult) : (c.handleWrite w).closings = c.closings := by
  unfold handleWrite
  split_ifs
  · cases w with
    | room n =>
      have hwrite : (c.emit (.write (c.outputBuffer.peek.take
          (min n c.outputBuffer.readableBytes)))).closings = c.closings :=
        closings_emit (by simp) (by simp)
      dsimp only
      split_ifs
      · rw [closings_drained]
        exact hwrite
      · exact hwrite
      · exact hwrite
    | error e => rfl
  · rfl

/-! ### Closing -/

/-- Behind `kDisconnected` the user's calls leave the state as it is. -/
theorem state_calls_disconnected : ∀ (script : List UserCall) {c : TcpConnection},
    c.state = .kDisconnected → (c.calls script).state = .kDisconnected
  | [], c, h => h
  | u :: script, c, h => by
    refine state_calls_disconnected script ?_
    rcases LifeCycle.call_of_disconnected h u with hb | ⟨b, hb⟩
    · rw [hb]
      exact h
    · rw [hb]
      exact h

theorem closings_closeCallback : c.closeCallback.closings = (c.closings.1 + 1, c.closings.2) := by
  have hemit : (c.emit .closeCallback).closings = (c.closings.1 + 1, c.closings.2) := by
    simp [closings, emit]
  unfold closeCallback removeConnectionInLoop assert
  dsimp only
  split_ifs
  · exact hemit
  · rw [← hemit]
    exact closings_emit (c := c.emit .closeCallback) (e := .assertFailed .removeConnectionInLoop)
      (by simp) (by simp)
  · exact hemit

theorem state_closeCallback : c.closeCallback.state = c.state := by
  unfold closeCallback removeConnectionInLoop assert
  dsimp only
  split_ifs <;> rfl

/-- **`HandleClose`** tells the owner once more; its assertion fails unless the connection is open. -/
theorem closings_handleClose (script : List UserCall) : (c.handleClose script).closings =
    (c.closings.1 + 1,
      c.closings.2 + if c.state = .kConnected ∨ c.state = .kDisconnecting then 0 else 1) := by
  have hassert : (c.assert .handleClose (c.state = .kConnected ∨ c.state = .kDisconnecting)).closings =
      (c.closings.1,
        c.closings.2 + if c.state = .kConnected ∨ c.state = .kDisconnecting then 0 else 1) := by
    unfold assert
    by_cases h : c.state = .kConnected ∨ c.state = .kDisconnecting
    · simp [h]
    · simp [h, closings, emit]
  unfold handleClose
  dsimp only
  rw [closings_closeCallback, closings_calls, closings_emit (by simp) (by simp), closings_update,
    closings_setState, hassert]

theorem state_handleClose (script : List UserCall) : (c.handleClose script).state = .kDisconnected := by
  unfold handleClose
  dsimp only
  rw [state_closeCallback]
  exact state_calls_disconnected script rfl

/-- `readv` is offered some room, so it delivers nothing only at the end of the stream. -/
theorem take_readvOffered_eq_nil {b : Buffer} {data : List UInt8} :
    data.take b.readvOffered = [] ↔ data = [] := by
  have hpos : 0 < b.readvOffered := by
    unfold Buffer.readvOffered
    split_ifs <;> omega
  rw [List.take_eq_nil_iff]
  exact or_iff_right hpos.ne'

/-- `HandleRead` closes at the end of the stream. -/
theorem closings_handleRead (r : ReadResult) (script : List UserCall) :
    (c.handleRead r script).closings =
      if r = .bytes [] then
        (c.closings.1 + 1,
          c.closings.2 + if c.state = .kConnected ∨ c.state = .kDisconnecting then 0 else 1)
      else c.closings := by
  cases r with
  | bytes data =>
    obtain ⟨b, hb⟩ : ∃ b, c.inputBuffer.readFd (.bytes data) =
        (b, .bytes (data.take c.inputBuffer.readvOffered)) := by
      unfold Buffer.readFd
      dsimp only
      split_ifs <;> exact ⟨_, rfl⟩
    unfold handleRead
    rw [hb]
    dsimp only
    have hpos : (data.take c.inputBuffer.readvOffered).length > 0 ↔ ¬ data = [] := by
      rw [gt_iff_lt, List.length_pos_iff, ne_eq, take_readvOffered_eq_nil]
    by_cases hdata : data = []
    · rw [if_neg (fun h => hpos.mp h hdata), if_pos (congrArg _ hdata)]
      exact closings_handleClose script
    · rw [if_pos (hpos.mpr hdata), if_neg (by simpa using hdata), closings_calls]
      exact closings_emit (by simp) (by simp)
  | error e => rfl

/-! ### The dispatch -/

/-- The close callback is called. -/
def Event.hangsUp (ev : Event) : Prop :=
  hasEvent ev.revents POLLHUP = true ∧ hasEvent ev.revents POLLIN = false

/-- The read callback is called and finds the end of the stream. -/
def Event.readsEnd (ev : Event) : Prop :=
  hasEvent ev.revents (POLLIN ||| POLLPRI ||| POLLRDHUP) = true ∧ ev.read = .bytes []

instance (ev : Event) : Decidable ev.hangsUp := inferInstanceAs (Decidable (_ ∧ _))

instance (ev : Event) : Decidable ev.readsEnd := inferInstanceAs (Decidable (_ ∧ _))

/-- The two calls of `HandleClose` in a dispatch. -/
theorem closings_handleEventWithGuard (hopen : c.state = .kConnected ∨ c.state = .kDisconnecting)
    (ev : Event) : (c.handleEventWithGuard ev).closings =
      (c.closings.1 + (if ev.hangsUp then 1 else 0) + (if ev.readsEnd then 1 else 0),
        c.closings.2 + if ev.hangsUp ∧ ev.readsEnd then 1 else 0) := by
  -- the read callback sees the state that the close callback leaves
  have hread : ∀ c₁ : TcpConnection,
      (if hasEvent ev.revents (POLLIN ||| POLLPRI ||| POLLRDHUP) then
        c₁.handleRead ev.read ev.onRead else c₁).closings =
      (c₁.closings.1 + (if ev.readsEnd then 1 else 0),
        c₁.closings.2 + if ev.readsEnd ∧ ¬ (c₁.state = .kConnected ∨ c₁.state = .kDisconnecting)
          then 1 else 0) := by
    intro c₁
    unfold Event.readsEnd
    by_cases hr : hasEvent ev.revents (POLLIN ||| POLLPRI ||| POLLRDHUP) = true
    · rw [if_pos hr, closings_handleRead]
      by_cases hend : ev.read = .bytes []
      · by_cases hst : c₁.state = .kConnected ∨ c₁.state = .kDisconnecting
        · simp [hr, hend, hst]
        · simp [hr, hend, hst]
      · simp [hend]
    · simp [hr]
  have hwrite : ∀ c₂ : TcpConnection, (if hasEvent ev.revents POLLOUT then
      c₂.handleWrite ev.write else c₂).closings = c₂.closings := by
    intro c₂
    split_ifs
    · exact closings_handleWrite ev.write
    · rfl
  have hfinal : ∀ c₂ : TcpConnection,
      ({ c₂ with channel := { c₂.channel with eventHandling := false } } : TcpConnection).closings =
        c₂.closings := fun _ => rfl
  unfold handleEventWithGuard
  dsimp only
  rw [hfinal, hwrite, hread]
  by_cases hup : ev.hangsUp
  · have hcond : hasEvent ev.revents POLLHUP = true ∧ (!hasEvent ev.revents POLLIN) = true :=
      ⟨hup.1, by rw [hup.2]; rfl⟩
    simp only [if_pos hcond, closings_handleClose, state_handleClose, if_pos hopen, if_pos hup]
    simp [hup, closings]
  · have hcond : ¬ (hasEvent ev.revents POLLHUP = true ∧ (!hasEvent ev.revents POLLIN) = true) :=
      fun h => hup ⟨h.1, by simpa using h.2⟩
    simp only [if_neg hcond, if_neg hup]
    simp [hup, hopen, closings]

/-- **One dispatch closes at most once.** For every connection that is open, with any buffers and any
interest, and for every event, whatever the calls of the kernel return and the user's callbacks do: one
dispatch tells the owner at most once and the assertion of `HandleClose` holds, if and only if the
event is not a hang-up without input, together with urgent data or the end of the peer's output, whose
read finds the end of the stream. -/
theorem closes_once_iff (hopen : c.state = .kConnected ∨ c.state = .kDisconnecting) (ev : Event) :
    ((c.handleEventWithGuard ev).log.count .closeCallback ≤ c.log.count .closeCallback + 1 ∧
        (c.handleEventWithGuard ev).log.count (.assertFailed .handleClose) =
          c.log.count (.assertFailed .handleClose)) ↔
      ¬ ((hasEvent ev.revents POLLHUP = true ∧ hasEvent ev.revents POLLIN = false) ∧
        (hasEvent ev.revents POLLPRI = true ∨ hasEvent ev.revents POLLRDHUP = true) ∧
        ev.read = .bytes []) := by
  have hclosings := closings_handleEventWithGuard hopen ev
  have hclose : (c.handleEventWithGuard ev).log.count .closeCallback = c.log.count .closeCallback +
      (if ev.hangsUp then 1 else 0) + (if ev.readsEnd then 1 else 0) :=
    congrArg Prod.fst hclosings
  have hassert : (c.handleEventWithGuard ev).log.count (.assertFailed .handleClose) =
      c.log.count (.assertFailed .handleClose) + if ev.hangsUp ∧ ev.readsEnd then 1 else 0 :=
    congrArg Prod.snd hclosings
  have htwice : (ev.hangsUp ∧ ev.readsEnd) ↔
      (hasEvent ev.revents POLLHUP = true ∧ hasEvent ev.revents POLLIN = false) ∧
        (hasEvent ev.revents POLLPRI = true ∨ hasEvent ev.revents POLLRDHUP = true) ∧
        ev.read = .bytes [] := by
    unfold Event.hangsUp Event.readsEnd
    rw [LifeCycle.hasEvent_or, LifeCycle.hasEvent_or]
    refine and_congr_right fun hup => ?_
    rw [hup.2, Bool.false_or, Bool.or_eq_true]
  rw [← htwice, hclose, hassert]
  by_cases hup : ev.hangsUp
  · by_cases hend : ev.readsEnd
    · simp [hup, hend]
    · simp [hup, hend]
  · by_cases hend : ev.readsEnd
    · simp [hup, hend]
    · simp [hup, hend]

/-- A hang-up with input whose read finds the end of the stream, on a connection that is up. -/
theorem closes_once_of_hup_in : ∃ c : TcpConnection, c.state = .kConnected ∧
    (c.handleEventWithGuard ⟨POLLHUP ||| POLLIN, .bytes [], .room 0, [], [.forceClose]⟩).log.count
      .closeCallback ≤ c.log.count .closeCallback + 1 := by
  refine ⟨(TcpConnection.new 7 100 true true true).connectEstablished [], rfl, ?_⟩
  exact ((closes_once_iff (Or.inl rfl)
    ⟨POLLHUP ||| POLLIN, .bytes [], .room 0, [], [.forceClose]⟩).mpr (by decide)).1

/-- A hang-up together with urgent data, and a read that finds the end of the stream: `HandleClose` runs
twice, the second time on a connection that is down. -/
theorem closes_twice : ∃ c : TcpConnection, c.state = .kConnected ∧
    c.log.count .closeCallback = 0 ∧ c.log.count (.assertFailed .handleClose) = 0 ∧
    (c.handleEventWithGuard ⟨POLLHUP ||| POLLPRI, .bytes [], .room 0, [], []⟩).log.count
      .closeCallback = 2 ∧
    (c.handleEventWithGuard ⟨POLLHUP ||| POLLPRI, .bytes [], .room 0, [], []⟩).log.count
      (.assertFailed .handleClose) = 1 :=
  ⟨(TcpConnection.new 7 100 true true true).connectEstablished [], rfl, by decide, by decide,
    by decide +kernel, by decide +kernel⟩

end MuduoCpp11.Net.TcpConnection
