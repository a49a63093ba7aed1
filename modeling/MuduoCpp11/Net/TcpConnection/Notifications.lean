import MuduoCpp11.Net.TcpConnection.Output

/-! # The notifications of the output

`SendInLoop` and `HandleWrite` queue the write complete callback and the high water mark callback from
their local counters. Seen from the buffer, both are edges: a step queues the first exactly when it
makes a successful write that leaves nothing unsent, and the second exactly when it takes the length of
the output buffer from below the mark to the mark or above (`Notifies`, `apply_notifies`). So between
two notifications of the high water mark the length has been below it. -/

namespace MuduoCpp11.Net.TcpConnection

variable {c c₁ c' : TcpConnection}

/-- The bytes an operation brings. -/
def OutputOp.message : OutputOp → List UInt8
  | .sendInLoop message _ => message
  | _ => []

/-- From `c` to `c'`, with the bytes `message` to be sent: the effects `l`, the functors `cbs`, and when
a notification is among these. -/
structure Notifies (c c' : TcpConnection) (message : List UInt8) (l : List Effect)
    (cbs : List Functor) : Prop where
  log : c'.log = c.log ++ l
  queued : c'.loop.queued = c.loop.queued ++ cbs
  once : cbs.length ≤ 1
  complete : .writeCompleteCallback ∈ cbs ↔ ∃ d, .write d ∈ l ∧ c'.outputBuffer.peek = [] ∧
    d = c.outputBuffer.peek ++ message
  highWater : ∀ len, .highWatermarkCallback len ∈ cbs ↔
    c.outputBuffer.readableBytes < c.highWatermark ∧
      c.highWatermark ≤ c'.outputBuffer.readableBytes ∧ len = c'.outputBuffer.readableBytes

/-- Where the buffer does not grow, the mark is not passed. -/
theorem not_highWater {cbs : List Functor}
    (hle : c'.outputBuffer.readableBytes ≤ c.outputBuffer.readableBytes)
    (hcbs : ∀ len, .highWatermarkCallback len ∉ cbs) (len : ℕ) :
    .highWatermarkCallback len ∈ cbs ↔ c.outputBuffer.readableBytes < c.highWatermark ∧
      c.highWatermark ≤ c'.outputBuffer.readableBytes ∧ len = c'.outputBuffer.readableBytes := by
  refine iff_of_false (hcbs len) ?_
  rintro ⟨hlt, hge, -⟩
  omega

/-- A step that writes nothing, queues nothing and leaves the output buffer alone. -/
theorem notifies_quiet {message : List UInt8} {l : List Effect} (hlog : c'.log = c.log ++ l)
    (hl : ∀ d, .write d ∉ l) (hloop : c'.loop = c.loop) (hbuf : c'.outputBuffer = c.outputBuffer) :
    Notifies c c' message l [] where
  log := hlog
  queued := by rw [hloop, List.append_nil]
  once := Nat.zero_le _
  complete := by simp [hl]
  highWater := not_highWater (by rw [hbuf]) (by simp)

/-- What putting bytes into the buffer does, with the high water mark callback set. -/
theorem bufferRemaining_spec (hcallback : c.hasHighWatermarkCallback = true) (remaining : List UInt8) :
    (c.bufferRemaining remaining).outputBuffer = c.outputBuffer.append remaining ∧
      (∃ l, (c.bufferRemaining remaining).log = c.log ++ l ∧ ∀ d, .write d ∉ l) ∧
      (c.bufferRemaining remaining).loop.queued = c.loop.queued ++
        if c.outputBuffer.readableBytes + remaining.length ≥ c.highWatermark ∧
            c.outputBuffer.readableBytes < c.highWatermark then
          [.highWatermarkCallback (c.outputBuffer.readableBytes + remaining.length)] else [] := by
  obtain ⟨c₁, hc₁, hbuf, hlog, hqueued⟩ : ∃ c₁ : TcpConnection, c.bufferRemaining remaining =
        (if !c₁.channel.isWriting then c₁.update Channel.enableWriting else c₁) ∧
      c₁.outputBuffer = c.outputBuffer.append remaining ∧ c₁.log = c.log ∧
      c₁.loop.queued = c.loop.queued ++
        if c.outputBuffer.readableBytes + remaining.length ≥ c.highWatermark ∧
            c.outputBuffer.readableBytes < c.highWatermark then
          [.highWatermarkCallback (c.outputBuffer.readableBytes + remaining.length)] else [] := by
    refine ⟨_, rfl, ?_⟩
    simp only [hcallback, and_true]
    split_ifs
    · exact ⟨rfl, rfl, EventLoop.queued_queueInLoop _ _ _⟩
    · exact ⟨rfl, rfl, (List.append_nil _).symm⟩
  by_cases hw : (!c₁.channel.isWriting) = true
  · rw [hc₁, if_pos hw]
    exact ⟨hbuf, ⟨[.updateChannel _], by rw [← hlog]; rfl, by simp⟩, hqueued⟩
  · rw [hc₁, if_neg hw]
    exact ⟨hbuf, ⟨[], by rw [hlog, List.append_nil], by simp⟩, hqueued⟩

/-- The remaining bytes go to the buffer, behind a write that has not taken all of them. -/
theorem notifies_bufferRemaining (message : List UInt8) {remaining : List UInt8} {l : List Effect}
    (hr : remaining ≠ []) (hlog : c₁.log = c.log ++ l) (hloop : c₁.loop = c.loop)
    (hbuf : c₁.outputBuffer = c.outputBuffer) (hmark : c₁.highWatermark = c.highWatermark)
    (hcallback : c₁.hasHighWatermarkCallback = true) :
    ∃ l' cbs, Notifies c (c₁.bufferRemaining remaining) message l' cbs := by
  obtain ⟨hbuf', ⟨l₁, hlog', -⟩, hqueued⟩ := bufferRemaining_spec hcallback remaining
  rw [hbuf] at hbuf' hqueued
  rw [hlog, List.append_assoc] at hlog'
  rw [hloop, hmark] at hqueued
  have hlen : (c₁.bufferRemaining remaining).outputBuffer.readableBytes =
      c.outputBuffer.readableBytes + remaining.length := by
    rw [hbuf', Buffer.readableBytes_append]
  refine ⟨l ++ l₁, _, hlog', hqueued, ?_, ?_, fun len => ?_⟩
  · split_ifs <;> simp
  · have hne : (c₁.bufferRemaining remaining).outputBuffer.peek ≠ [] := by
      rw [hbuf', Buffer.peek_append]
      simp [hr]
    split_ifs <;> simp [hne]
  · rw [hlen]
    split_ifs with h
    · simp [h.1, h.2]
    · simp only [List.not_mem_nil, false_iff]
      omega

/-- **`SendInLoop`** notifies at the edges. -/
theorem sendInLoop_notifies (hs : c.Synced) (hcomplete : c.hasWriteCompleteCallback = true)
    (hhigh : c.hasHighWatermarkCallback = true) (data : List UInt8) (w : WriteResult) :
    ∃ l cbs, Notifies c (c.sendInLoop data w) data l cbs := by
  have hquiet : ∃ l cbs, Notifies c c data l cbs :=
    ⟨[], [], notifies_quiet (List.append_nil _).symm (by simp) rfl rfl⟩
  have hbuffer : data ≠ [] → ∃ l cbs, Notifies c (c.bufferRemaining data) data l cbs := fun hdata =>
    notifies_bufferRemaining data hdata (List.append_nil _).symm rfl rfl rfl hhigh
  unfold sendInLoop
  by_cases hst : c.state = .kDisconnected
  · rw [if_pos hst]
    exact hquiet
  · rw [if_neg hst]
    by_cases hd : c.writesDirectly = true
    · have hempty : c.outputBuffer.peek = [] := (writesDirectly_iff hs).mp hd
      simp only [if_pos hd]
      cases w with
      | room n =>
        simp only [writeDirectly, emit, hcomplete, and_true]
        by_cases hall : min n data.length = data.length
        · rw [if_pos hall, hall, List.take_length, List.drop_length, if_neg (by simp)]
          refine ⟨[.write data], [.writeCompleteCallback], rfl, ?_, le_rfl, ?_,
            not_highWater le_rfl (by simp)⟩
          · exact EventLoop.queued_queueInLoop _ _ _
          · simp [queueInLoop, hempty]
        · rw [if_neg hall]
          have hlt : min n data.length < data.length := by omega
          have hrest : data.drop (min n data.length) ≠ [] := by
            rw [ne_eq, List.drop_eq_nil_iff]
            omega
          have hpos : (data.drop (min n data.length)).length > 0 := List.length_pos_of_ne_nil hrest
          rw [if_pos ⟨rfl, hpos⟩]
          exact notifies_bufferRemaining data hrest rfl rfl rfl rfl hhigh
      | error e =>
        simp only [writeDirectly, List.drop_zero]
        split_ifs with h
        · exact hbuffer (List.ne_nil_of_length_pos h.2)
        · exact hquiet
    · simp only [if_neg hd, List.drop_zero]
      split_ifs with h
      · exact hbuffer (List.ne_nil_of_length_pos h.2)
      · exact hquiet

/-- What `HandleWrite` does behind a write that empties the buffer, with the write complete callback
set. -/
theorem drained_spec (hcomplete : c.hasWriteCompleteCallback = true) :
    c.drained.outputBuffer = c.outputBuffer ∧
      (∃ l, c.drained.log = c.log ++ l ∧ ∀ d, .write d ∉ l) ∧
      c.drained.loop.queued = c.loop.queued ++ [.writeCompleteCallback] := by
  have hcallback : (c.update Channel.disableWriting).hasWriteCompleteCallback = true := hcomplete
  unfold drained
  dsimp only
  rw [if_pos hcallback]
  have hqueued : ((c.update Channel.disableWriting).queueInLoop .writeCompleteCallback).loop.queued =
      c.loop.queued ++ [.writeCompleteCallback] := EventLoop.queued_queueInLoop _ _ _
  unfold shutdownInLoop
  split_ifs
  · refine ⟨rfl, ⟨[.updateChannel c.channel.disableWriting.events, .shutdownWrite c.outputBuffer.peek],
      ?_, by simp⟩, hqueued⟩
    simp [emit, queueInLoop, update]
  · exact ⟨rfl, ⟨[.updateChannel _], rfl, by simp⟩, hqueued⟩
  · exact ⟨rfl, ⟨[.updateChannel _], rfl, by simp⟩, hqueued⟩

/-- **`HandleWrite`** notifies when it has emptied the buffer. -/
theorem handleWrite_notifies (hs : c.Synced) (hcomplete : c.hasWriteCompleteCallback = true)
    (w : WriteResult) : ∃ l cbs, Notifies c (c.handleWrite w) [] l cbs := by
  have hquiet : ∃ l cbs, Notifies c c [] l cbs :=
    ⟨[], [], notifies_quiet (List.append_nil _).symm (by simp) rfl rfl⟩
  by_cases hw : c.channel.isWriting = true
  · have hpos := hs.mp hw
    cases w with
    | error e =>
      unfold handleWrite
      rw [if_pos hw]
      exact hquiet
    | room n =>
      rw [handleWrite_room hw]
      have hlen := c.readableBytes_wrote (min n c.outputBuffer.readableBytes)
      by_cases hn : 0 < min n c.outputBuffer.readableBytes
      · rw [if_pos hn]
        by_cases hzero :
            (c.wrote (min n c.outputBuffer.readableBytes)).outputBuffer.readableBytes = 0
        · rw [if_pos hzero]
          have hall : c.outputBuffer.peek.take (min n c.outputBuffer.readableBytes) =
              c.outputBuffer.peek := by
            refine List.take_of_length_le ?_
            rw [Buffer.length_peek]
            omega
          obtain ⟨hbuf', ⟨l, hlog, hl⟩, hqueued⟩ :=
            drained_spec (c := c.wrote (min n c.outputBuffer.readableBytes)) hcomplete
          refine ⟨.write c.outputBuffer.peek :: l, [.writeCompleteCallback], ?_, hqueued, le_rfl, ?_,
            not_highWater (by rw [hbuf', hzero]; exact Nat.zero_le _) (by simp)⟩
          · rw [hlog, wrote, hall]
            simp [emit]
          · rw [hbuf', ← Buffer.readableBytes_eq_zero]
            simp [hzero]
        · rw [if_neg hzero]
          refine ⟨[.write _], [], rfl, (List.append_nil _).symm, Nat.zero_le _, ?_,
            not_highWater (by omega) (by simp)⟩
          rw [← Buffer.readableBytes_eq_zero]
          simp [hzero]
      · rw [if_neg hn]
        refine ⟨[.write []], [], rfl, (List.append_nil _).symm, Nat.zero_le _, ?_,
          not_highWater le_rfl (by simp)⟩
        rw [← Buffer.readableBytes_eq_zero]
        have hsame : (c.emit (.write [])).outputBuffer.readableBytes ≠ 0 := hpos.ne'
        simp [hsame]
  · unfold handleWrite
    rw [if_neg hw]
    exact hquiet

/-- Every step of the output notifies at the edges. -/
theorem apply_notifies (hs : c.Synced) (hcomplete : c.hasWriteCompleteCallback = true)
    (hhigh : c.hasHighWatermarkCallback = true) (op : OutputOp) :
    ∃ l cbs, Notifies c (c.apply op) op.message l cbs := by
  cases op with
  | sendInLoop message w => exact sendInLoop_notifies hs hcomplete hhigh message w
  | handleWrite w => exact handleWrite_notifies hs hcomplete w
  | shutdownInLoop =>
    simp only [apply, shutdownInLoop]
    split_ifs
    · exact ⟨[.shutdownWrite _], [], notifies_quiet rfl (by simp) rfl rfl⟩
    · exact ⟨[], [], notifies_quiet (List.append_nil _).symm (by simp) rfl rfl⟩
  | setDisconnecting =>
    simp only [apply]
    split_ifs
    · exact ⟨[.setState _], [], notifies_quiet rfl (by simp) rfl rfl⟩
    · exact ⟨[], [], notifies_quiet (List.append_nil _).symm (by simp) rfl rfl⟩

/-! ### Runs -/

/-- The mark, and whether the callbacks are set. -/
def settings (c : TcpConnection) : ℕ × Bool × Bool :=
  (c.highWatermark, c.hasWriteCompleteCallback, c.hasHighWatermarkCallback)

theorem settings_bufferRemaining (remaining : List UInt8) :
    (c.bufferRemaining remaining).settings = c.settings := by
  unfold bufferRemaining
  dsimp only
  split_ifs <;> rfl

theorem settings_sendInLoop (data : List UInt8) (w : WriteResult) :
    (c.sendInLoop data w).settings = c.settings := by
  have hwrite : (c.writeDirectly data w).1.settings = c.settings := by
    cases w with
    | room n =>
      simp only [writeDirectly]
      split_ifs <;> rfl
    | error e => rfl
  unfold sendInLoop
  split_ifs
  · rfl
  · dsimp only
    split_ifs
    · rw [settings_bufferRemaining, hwrite]
    · exact hwrite
  · dsimp only
    split_ifs
    · exact settings_bufferRemaining _
    · rfl

theorem settings_handleWrite (w : WriteResult) : (c.handleWrite w).settings = c.settings := by
  have hdrained : ∀ c : TcpConnection, c.drained.settings = c.settings := by
    intro c
    unfold drained shutdownInLoop
    dsimp only
    split_ifs <;> rfl
  unfold handleWrite
  split_ifs
  · cases w with
    | room n =>
      dsimp only
      split_ifs
      · exact hdrained _
      · rfl
      · rfl
    | error e => rfl
  · rfl

theorem settings_apply (op : OutputOp) : (c.apply op).settings = c.settings := by
  cases op with
  | sendInLoop message w => exact settings_sendInLoop message w
  | handleWrite w => exact settings_handleWrite w
  | shutdownInLoop =>
    simp only [apply, shutdownInLoop]
    split_ifs <;> rfl
  | setDisconnecting =>
    simp only [apply]
    split_ifs <;> rfl

theorem settings_runOutput : ∀ (ops : List OutputOp) {c : TcpConnection},
    (c.runOutput ops).settings = c.settings
  | [], c => rfl
  | op :: ops, c => by
    show ((c.apply op).runOutput ops).settings = _
    rw [settings_runOutput ops, settings_apply]

/-- The effects of a step. -/
def effectsOf (c : TcpConnection) (op : OutputOp) : List Effect := (c.apply op).log.drop c.log.length

/-- The functors a step queues. -/
def queuedBy (c : TcpConnection) (op : OutputOp) : List Functor :=
  (c.apply op).loop.queued.drop c.loop.queued.length

/-- Every step of a run notifies at the edges. -/
theorem run_notifies (fd : ℤ) (highWatermark : ℕ) (sameLoop : Bool) (ops : List OutputOp)
    (op : OutputOp) (hc : (established fd highWatermark true true sameLoop).runOutput ops = c) :
    c.highWatermark = highWatermark ∧
      Notifies c (c.apply op) op.message (c.effectsOf op) (c.queuedBy op) := by
  have hsettings : c.settings = (highWatermark, true, true) := by
    rw [← hc, settings_runOutput]
    rfl
  have hsynced : c.Synced := by
    rw [← hc]
    exact ((outputInv_established fd highWatermark true true sameLoop).run ops).synced
  obtain ⟨hmark, hcomplete, hhigh⟩ : c.highWatermark = highWatermark ∧
      c.hasWriteCompleteCallback = true ∧ c.hasHighWatermarkCallback = true := by
    simpa [settings] using hsettings
  obtain ⟨l, cbs, h⟩ := apply_notifies hsynced hcomplete hhigh op
  have hl : c.effectsOf op = l := by
    unfold effectsOf
    rw [h.log, List.drop_left]
  have hcbs : c.queuedBy op = cbs := by
    unfold queuedBy
    rw [h.queued, List.drop_left]
  rw [hl, hcbs]
  exact ⟨hmark, h⟩

/-- **Output notifications are exact.** In every run of a connection with both callbacks set, a step
queues at most one of them: the write complete callback if and only if it makes a successful write behind
which the output buffer is empty and that takes all bytes there were to send; the high water mark
callback if and only if the length of the output buffer is below the mark before the step and not
behind it, with that length. So between two notifications of the high water mark there is a state with
the length below it. -/
theorem output_notifications (fd : ℤ) (highWatermark : ℕ) (sameLoop : Bool) :
    let start := established fd highWatermark true true sameLoop
    (∀ ops op, let c := start.runOutput ops
      (c.apply op).log = c.log ++ c.effectsOf op ∧
      (c.apply op).loop.queued = c.loop.queued ++ c.queuedBy op ∧ (c.queuedBy op).length ≤ 1 ∧
      (.writeCompleteCallback ∈ c.queuedBy op ↔ ∃ d, .write d ∈ c.effectsOf op ∧
        (c.apply op).outputBuffer.peek = [] ∧ d = c.outputBuffer.peek ++ op.message) ∧
      ∀ len, .highWatermarkCallback len ∈ c.queuedBy op ↔
        c.outputBuffer.readableBytes < highWatermark ∧
          highWatermark ≤ (c.apply op).outputBuffer.readableBytes ∧
          len = (c.apply op).outputBuffer.readableBytes) ∧
    ∀ before op mid op' len len',
      .highWatermarkCallback len ∈ (start.runOutput before).queuedBy op →
      .highWatermarkCallback len' ∈ (start.runOutput (before ++ op :: mid)).queuedBy op' →
      ∃ mid', mid' <+: mid ∧
        (start.runOutput (before ++ op :: mid')).outputBuffer.readableBytes < highWatermark := by
  intro start
  constructor
  · intro ops op c
    obtain ⟨hmark, h⟩ := run_notifies fd highWatermark sameLoop ops op rfl
    refine ⟨h.log, h.queued, h.once, h.complete, fun len => ?_⟩
    rw [h.highWater len, hmark]
  · intro before op mid op' len len' _ hsecond
    obtain ⟨hmark, h⟩ := run_notifies fd highWatermark sameLoop (before ++ op :: mid) op' rfl
    obtain ⟨hlt, -⟩ := (h.highWater len').mp hsecond
    exact ⟨mid, List.prefix_rfl, hmark ▸ hlt⟩

end MuduoCpp11.Net.TcpConnection
