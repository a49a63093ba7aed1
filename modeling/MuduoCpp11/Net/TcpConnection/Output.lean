import MuduoCpp11.Net.TcpConnection

/-! # The output stream of a connection

The bytes the kernel has accepted (`wire`), followed by the output buffer, are the stream of the
messages sent. `SendInLoop` appends its message to the stream, by a direct write or through the
buffer; `HandleWrite` moves bytes from the buffer to the wire; neither reorders anything. Write
interest is set exactly while the buffer is not empty (`Synced`), and both functions keep it so.

Each function has one lemma that says what it does to the stream (`sendInLoop_appends`,
`handleWrite_moves`, `shutdownInLoop_shuts`); what holds for a run is put together from them. -/

namespace MuduoCpp11.Net

/-- The bytes an effect hands to the kernel. -/
def Effect.written : Effect → List UInt8
  | .write data => data
  | _ => []

/-- The bytes the kernel has accepted. -/
def wire (log : List Effect) : List UInt8 := log.flatMap Effect.written

/-- For each `ShutdownWrite` of the log, with `sent` on the wire before it: the wire at that moment
and the bytes still in the output buffer. -/
def shutdowns (sent : List UInt8) : List Effect → List (List UInt8 × List UInt8)
  | [] => []
  | .shutdownWrite unsent :: l => (sent, unsent) :: shutdowns sent l
  | e :: l => shutdowns (sent ++ e.written) l

theorem shutdowns_append (l' : List Effect) : ∀ (l : List Effect) (sent : List UInt8),
    shutdowns sent (l ++ l') = shutdowns sent l ++ shutdowns (sent ++ wire l) l'
  | [], sent => by simp [shutdowns, wire]
  | e :: l, sent => by
    cases e <;> simp [shutdowns, shutdowns_append l' l, wire, Effect.written]

theorem mem_shutdowns {u : List UInt8} : ∀ {l : List Effect} (sent : List UInt8),
    .shutdownWrite u ∈ l ↔ ∃ s, (s, u) ∈ shutdowns sent l
  | [], sent => by simp [shutdowns]
  | e :: l, sent => by
    cases e with
    | shutdownWrite v =>
      simp only [List.mem_cons, Effect.shutdownWrite.injEq, shutdowns, Prod.mk.injEq, exists_or,
        mem_shutdowns (l := l) sent]
      simp
    | _ => simpa [shutdowns] using mem_shutdowns (l := l) _

/-- The functor only calls the user. -/
def Functor.isCallback : Functor → Bool
  | .writeCompleteCallback | .highWatermarkCallback _ => true
  | _ => false

namespace TcpConnection

/-- Write interest is set exactly while there is something to write. -/
def Synced (c : TcpConnection) : Prop :=
  c.channel.isWriting = true ↔ 0 < c.outputBuffer.readableBytes

/-- From `c` to `c'`, the loop gets nothing but user callbacks. -/
def QueuesCallbacks (c c' : TcpConnection) : Prop :=
  ∃ cbs, c'.loop.queued = c.loop.queued ++ cbs ∧ ∀ f ∈ cbs, f.isCallback = true

/-- From `c` to `c'`, the bytes `d` are appended to the stream. -/
structure Appends (c c' : TcpConnection) (d : List UInt8) : Prop where
  state : c'.state = c.state
  synced : c'.Synced
  stream : wire c'.log ++ c'.outputBuffer.peek = wire c.log ++ c.outputBuffer.peek ++ d
  shutdowns : shutdowns [] c'.log = shutdowns [] c.log
  queue : QueuesCallbacks c c'

variable {c c' c'' : TcpConnection} {d d' : List UInt8}

theorem QueuesCallbacks.of_loop_eq (h : c'.loop = c.loop) : QueuesCallbacks c c' :=
  ⟨[], by simp [h], by simp⟩

theorem QueuesCallbacks.trans (h : QueuesCallbacks c c') (h' : QueuesCallbacks c' c'') :
    QueuesCallbacks c c'' := by
  obtain ⟨cbs, hq, hcb⟩ := h
  obtain ⟨cbs', hq', hcb'⟩ := h'
  refine ⟨cbs ++ cbs', by rw [hq', hq, List.append_assoc], fun f hf => ?_⟩
  rcases List.mem_append.mp hf with hf | hf
  · exact hcb f hf
  · exact hcb' f hf

theorem queueInLoop_queuesCallbacks {cb : Functor} (hcb : cb.isCallback = true) :
    QueuesCallbacks c (c.queueInLoop cb) := ⟨[cb], by simp [queueInLoop], by simp [hcb]⟩

theorem Appends.refl (hs : c.Synced) : Appends c c [] := ⟨rfl, hs, by simp, rfl, .of_loop_eq rfl⟩

theorem Appends.trans (h : Appends c c' d) (h' : Appends c' c'' d') : Appends c c'' (d ++ d') where
  state := h'.state.trans h.state
  synced := h'.synced
  stream := by rw [h'.stream, h.stream, List.append_assoc]
  shutdowns := h'.shutdowns.trans h.shutdowns
  queue := h.queue.trans h'.queue

theorem queueInLoop_appends (hs : c.Synced) (cb : Functor) (hcb : cb.isCallback = true) :
    Appends c (c.queueInLoop cb) [] :=
  ⟨rfl, hs, by simp [queueInLoop], rfl, queueInLoop_queuesCallbacks hcb⟩

theorem emit_write_appends (hs : c.Synced) (he : c.outputBuffer.peek = []) (d : List UInt8) :
    Appends c (c.emit (.write d)) d where
  state := rfl
  synced := hs
  stream := by simp [emit, he, wire, Effect.written]
  shutdowns := by simp [emit, shutdowns_append, Net.shutdowns]
  queue := .of_loop_eq rfl

/-- Bytes put into the output buffer. -/
theorem bufferRemaining_appends {remaining : List UInt8} (hr : remaining ≠ []) :
    Appends c (c.bufferRemaining remaining) remaining := by
  have hpos := List.length_pos_of_ne_nil hr
  obtain ⟨c₁, hc₁, hstate, hchan, hlog, hbuf, hqueue⟩ : ∃ c₁ : TcpConnection,
      c.bufferRemaining remaining =
        (if !c₁.channel.isWriting then c₁.update Channel.enableWriting else c₁) ∧
      c₁.state = c.state ∧ c₁.channel = c.channel ∧ c₁.log = c.log ∧
      c₁.outputBuffer = c.outputBuffer.append remaining ∧ QueuesCallbacks c c₁ := by
    refine ⟨_, rfl, ?_⟩
    dsimp only
    split_ifs
    · exact ⟨rfl, rfl, rfl, rfl, queueInLoop_queuesCallbacks rfl⟩
    · exact ⟨rfl, rfl, rfl, rfl, .of_loop_eq rfl⟩
  have hread : 0 < c₁.outputBuffer.readableBytes := by
    rw [hbuf, Buffer.readableBytes_append]; omega
  rw [hc₁]
  split_ifs with hw
  · refine ⟨hstate, ?_, ?_, ?_, hqueue⟩
    · simp [Synced, update, emit, hread]
    · simp [update, emit, wire, Effect.written, hlog, hbuf]
    · simp [update, emit, shutdowns_append, Net.shutdowns, hlog]
  · refine ⟨hstate, ?_, by simp [hlog, hbuf], by rw [hlog], hqueue⟩
    simp only [Bool.not_eq_eq_eq_not, Bool.not_true, Bool.not_eq_false] at hw
    simp [Synced, hw, hread]

/-- The direct write appends what it has written. -/
theorem writeDirectly_appends (hs : c.Synced) (he : c.outputBuffer.peek = []) (data : List UInt8)
    (w : WriteResult) :
    Appends c (c.writeDirectly data w).1 (data.take (c.writeDirectly data w).2.1) ∧
      (c.writeDirectly data w).2.2 = w.isFault := by
  cases w with
  | room n =>
    have hw := emit_write_appends hs he (data.take (min n data.length))
    simp only [writeDirectly]
    refine ⟨?_, rfl⟩
    split_ifs
    · simpa using hw.trans (queueInLoop_appends hw.synced .writeCompleteCallback rfl)
    · exact hw
  | error e => exact ⟨by simpa [writeDirectly] using Appends.refl hs, rfl⟩

/-- The direct write is tried and fails with `EPIPE` or `ECONNRESET`. -/
def directWriteFails (c : TcpConnection) (w : WriteResult) : Bool := c.writesDirectly && w.isFault

theorem writesDirectly_iff (hs : c.Synced) :
    c.writesDirectly = true ↔ c.outputBuffer.peek = [] := by
  have hz := c.outputBuffer.readableBytes_eq_zero
  simp only [writesDirectly, Bool.and_eq_true, Bool.not_eq_true', decide_eq_true_eq, hz]
  constructor
  · exact fun h => h.2
  · intro h
    refine ⟨?_, h⟩
    rw [Bool.eq_false_iff, ne_eq, show c.channel.isWriting = true ↔ _ from hs, hz.mpr h]
    simp

/-- **`SendInLoop` appends the message to the stream**, or leaves it out as a whole when the direct
write fails. -/
theorem sendInLoop_appends (hs : c.Synced) (hst : c.state ≠ .kDisconnected) (data : List UInt8)
    (w : WriteResult) :
    Appends c (c.sendInLoop data w) (if c.directWriteFails w then [] else data) := by
  unfold sendInLoop
  rw [if_neg hst]
  by_cases hd : c.writesDirectly
  · obtain ⟨hw, hf⟩ := writeDirectly_appends hs ((writesDirectly_iff hs).mp hd) data w
    have hfail : c.directWriteFails w = w.isFault := by simp [directWriteFails, hd]
    simp only [hd, if_true, hf, hfail]
    by_cases hfault : w.isFault
    · have h0 : data.take (c.writeDirectly data w).2.1 = [] := by
        cases w with
        | room n => simp [WriteResult.isFault] at hfault
        | error e => simp [writeDirectly]
      rw [h0] at hw
      simpa [hfault] using hw
    · rw [Bool.not_eq_true] at hfault
      simp only [hfault, Bool.not_false, Bool.false_eq_true, if_false, true_and]
      split_ifs with hpos
      · have hb := bufferRemaining_appends (c := (c.writeDirectly data w).1)
          (List.ne_nil_of_length_pos hpos)
        simpa using hw.trans hb
      · have hall : data.take (c.writeDirectly data w).2.1 = data :=
          List.take_of_length_le (by simpa using hpos)
        rw [hall] at hw
        exact hw
  · have hfail : c.directWriteFails w = false := by simp [directWriteFails, hd]
    simp only [hd, hfail]
    by_cases hdata : data = []
    · simpa [hdata] using Appends.refl hs
    · have hpos := List.length_pos_of_ne_nil hdata
      simpa [hpos] using bufferRemaining_appends hdata

/-! ### Moving bytes from the buffer to the wire -/

/-- From `c` to `c'`, bytes go from the buffer to the wire, and the write side is shut down behind
them in the moments `l`. -/
structure Moves (c c' : TcpConnection) (l : List (List UInt8 × List UInt8)) : Prop where
  state : c'.state = c.state
  synced : c'.Synced
  stream : wire c'.log ++ c'.outputBuffer.peek = wire c.log ++ c.outputBuffer.peek
  shutdowns : shutdowns [] c'.log = shutdowns [] c.log ++ l
  queue : QueuesCallbacks c c'

/-- The write of `HandleWrite` empties the output buffer. -/
def drains (c : TcpConnection) (w : WriteResult) : Bool :=
  match w with
  | .room n => 0 < c.outputBuffer.readableBytes ∧ c.outputBuffer.readableBytes ≤ n
  | .error _ => false

theorem shutdownInLoop_moves (hs : c.Synced) :
    Moves c c.shutdownInLoop
      (if c.outputBuffer.peek = [] then [(wire c.log, [])] else []) := by
  have hz := c.outputBuffer.readableBytes_eq_zero
  unfold shutdownInLoop
  by_cases hw : c.channel.isWriting
  · have hne : c.outputBuffer.peek ≠ [] := by
      rw [ne_eq, ← hz]
      have := hs.mp hw
      omega
    simp only [hw, Bool.not_true, Bool.false_eq_true, if_false, hne]
    exact ⟨rfl, hs, rfl, by simp, .of_loop_eq rfl⟩
  · have he : c.outputBuffer.peek = [] := by
      rw [← hz]
      have := hs.not.mp hw
      omega
    simp only [hw, Bool.not_false, if_true, he]
    exact ⟨rfl, hs, by simp [emit, wire, Effect.written],
      by simp [emit, shutdowns_append, Net.shutdowns], .of_loop_eq rfl⟩

/-- `HandleWrite` behind a write that empties the buffer. -/
theorem drained_moves (he : c.outputBuffer.peek = []) :
    Moves c c.drained (if c.state = .kDisconnecting then [(wire c.log, [])] else []) := by
  have hz := c.outputBuffer.readableBytes_eq_zero.mpr he
  obtain ⟨c₁, hc₁, hstate, hbuf, hwire, hsync, hshut, hqueue⟩ : ∃ c₁ : TcpConnection,
      c.drained = (if c₁.state = .kDisconnecting then c₁.shutdownInLoop else c₁) ∧
      c₁.state = c.state ∧ c₁.outputBuffer = c.outputBuffer ∧ wire c₁.log = wire c.log ∧ c₁.Synced ∧
      shutdowns [] c₁.log = shutdowns [] c.log ∧ QueuesCallbacks c c₁ := by
    refine ⟨_, rfl, ?_⟩
    split_ifs
    · refine ⟨rfl, rfl, ?_, ?_, ?_, queueInLoop_queuesCallbacks rfl⟩ <;>
        simp [queueInLoop, update, emit, Synced, hz, wire, Effect.written, shutdowns_append,
          Net.shutdowns]
    · refine ⟨rfl, rfl, ?_, ?_, ?_, .of_loop_eq rfl⟩ <;>
        simp [update, emit, Synced, hz, wire, Effect.written, shutdowns_append, Net.shutdowns]
  rw [hc₁, hstate]
  split_ifs with hd
  · have hm := shutdownInLoop_moves hsync
    rw [hbuf, if_pos he] at hm
    exact ⟨hm.state.trans hstate, hm.synced, by rw [hm.stream, hwire, hbuf],
      by rw [hm.shutdowns, hshut, hwire], hqueue.trans hm.queue⟩
  · exact ⟨hstate, hsync, by rw [hwire, hbuf], by simp [hshut], hqueue⟩

/-- The connection behind a write of `n` bytes from the output buffer. -/
def wrote (c : TcpConnection) (n : ℕ) : TcpConnection :=
  { c.emit (.write (c.outputBuffer.peek.take n)) with outputBuffer := c.outputBuffer.retrieve n }

theorem peek_wrote (c : TcpConnection) (n : ℕ) :
    (c.wrote n).outputBuffer.peek = c.outputBuffer.peek.drop n := c.outputBuffer.peek_retrieve n

theorem readableBytes_wrote (c : TcpConnection) (n : ℕ) :
    (c.wrote n).outputBuffer.readableBytes = c.outputBuffer.readableBytes - n := by
  rw [← Buffer.length_peek, peek_wrote, List.length_drop, Buffer.length_peek]

theorem wrote_moves {n : ℕ} (h : (c.wrote n).Synced) : Moves c (c.wrote n) [] where
  state := rfl
  synced := h
  stream := by simp [wrote, emit, wire, Effect.written]
  shutdowns := by simp [wrote, emit, shutdowns_append, Net.shutdowns]
  queue := .of_loop_eq rfl

theorem handleWrite_room (hw : c.channel.isWriting = true) (n : ℕ) :
    c.handleWrite (.room n) =
      if 0 < min n c.outputBuffer.readableBytes then
        if (c.wrote (min n c.outputBuffer.readableBytes)).outputBuffer.readableBytes = 0 then
          (c.wrote (min n c.outputBuffer.readableBytes)).drained
        else c.wrote (min n c.outputBuffer.readableBytes)
      else c.emit (.write []) := by
  unfold handleWrite
  rw [if_pos hw]
  by_cases hn : 0 < min n c.outputBuffer.readableBytes
  · simp only [hn, if_true]
    rfl
  · have h0 : min n c.outputBuffer.readableBytes = 0 := by omega
    simp [h0]

/-- **`HandleWrite` moves bytes from the buffer to the wire.** When that empties the buffer in
`kDisconnecting`, it shuts the write side down. -/
theorem handleWrite_moves (hs : c.Synced) (w : WriteResult) :
    Moves c (c.handleWrite w) (if c.drains w ∧ c.state = .kDisconnecting then
      [(wire c.log ++ c.outputBuffer.peek, [])] else []) := by
  have hrefl : Moves c c [] := ⟨rfl, hs, rfl, by simp, .of_loop_eq rfl⟩
  by_cases hw : c.channel.isWriting
  · have hpos := hs.mp hw
    cases w with
    | error e => simpa [handleWrite, drains, hw] using hrefl
    | room n =>
      rw [handleWrite_room hw]
      by_cases hn : 0 < n
      · rw [if_pos (by omega)]
        have hlen := c.readableBytes_wrote (min n c.outputBuffer.readableBytes)
        by_cases hle : c.outputBuffer.readableBytes ≤ n
        · have hall : min n c.outputBuffer.readableBytes = c.outputBuffer.readableBytes := by omega
          rw [hall] at hlen ⊢
          have he : (c.wrote c.outputBuffer.readableBytes).outputBuffer.peek = [] := by
            rw [peek_wrote, ← Buffer.length_peek, List.drop_length]
          have hwire : wire (c.wrote c.outputBuffer.readableBytes).log =
              wire c.log ++ c.outputBuffer.peek := by
            simp [wrote, emit, wire, Effect.written, ← Buffer.length_peek]
          have hm := drained_moves he
          rw [if_pos (by omega)]
          simp only [drains, hpos, hle, and_self, decide_true, true_and]
          refine ⟨hm.state, hm.synced, ?_, ?_, hm.queue⟩
          · rw [hm.stream, hwire, he, List.append_nil]
          · rw [hm.shutdowns, hwire, show (c.wrote _).state = c.state from rfl]
            by_cases hd : c.state = .kDisconnecting <;>
              simp [hd, wrote, emit, shutdowns_append, Net.shutdowns]
        · have hsync : (c.wrote (min n c.outputBuffer.readableBytes)).Synced := by
            have hw' : (c.wrote (min n c.outputBuffer.readableBytes)).channel.isWriting = true := hw
            simp only [Synced, hw', true_iff]
            omega
          rw [if_neg (by omega)]
          simpa [drains, hle] using wrote_moves hsync
      · have hle : ¬ c.outputBuffer.readableBytes ≤ n := by omega
        rw [if_neg (by omega)]
        simp only [drains, hle, and_false, decide_false, Bool.false_eq_true, false_and, if_false]
        exact ⟨rfl, hs, by simp [emit, wire, Effect.written],
          by simp [emit, shutdowns_append, Net.shutdowns], .of_loop_eq rfl⟩
  · have hzero : ¬ 0 < c.outputBuffer.readableBytes := hs.not.mp hw
    cases w with
    | room n => simpa [handleWrite, hw, drains, hzero] using hrefl
    | error e => simpa [handleWrite, hw, drains] using hrefl

/-! ### Runs -/

/-- What happens to the output of a connection: on the loop thread the three functions, and on any
thread the store to `state_` with which `Shutdown` begins. -/
inductive OutputOp where
  | sendInLoop (message : List UInt8) (w : WriteResult)
  | handleWrite (w : WriteResult)
  | shutdownInLoop
  | setDisconnecting
  deriving DecidableEq, Repr

def apply (c : TcpConnection) : OutputOp → TcpConnection
  | .sendInLoop message w => c.sendInLoop message w
  | .handleWrite w => c.handleWrite w
  | .shutdownInLoop => c.shutdownInLoop
  | .setDisconnecting => if c.state = .kConnected then c.setState .kDisconnecting else c

def runOutput (c : TcpConnection) (ops : List OutputOp) : TcpConnection := ops.foldl apply c

/-- The message of an operation, unless its direct write fails with `EPIPE` or `ECONNRESET`. -/
def kept (c : TcpConnection) : OutputOp → List (List UInt8)
  | .sendInLoop message w => if c.directWriteFails w then [] else [message]
  | .handleWrite _ | .shutdownInLoop | .setDisconnecting => []

/-- The messages given to `SendInLoop`, without those whose direct write failed so. -/
def keptMessages : TcpConnection → List OutputOp → List (List UInt8)
  | _, [] => []
  | c, op :: ops => c.kept op ++ keptMessages (c.apply op) ops

/-- A connection behind `ConnectEstablished`. -/
def established (fd : ℤ) (highWatermark : ℕ) (writeComplete highWater sameLoop : Bool) :
    TcpConnection :=
  (new fd highWatermark writeComplete highWater sameLoop).connectEstablished []

/-- **The output invariant**: the stream is the messages `ms`, and the write side was shut down only
behind an empty buffer. -/
structure OutputInv (c : TcpConnection) (ms : List (List UInt8)) : Prop where
  state : c.state = .kConnected ∨ c.state = .kDisconnecting
  synced : c.Synced
  stream : wire c.log ++ c.outputBuffer.peek = ms.flatten
  shutdown : ∀ p ∈ Net.shutdowns [] c.log, p.2 = []

theorem OutputInv.moves {ms : List (List UInt8)} (h : OutputInv c ms)
    {l : List (List UInt8 × List UInt8)} (hm : Moves c c' l) (hl : ∀ p ∈ l, p.2 = []) :
    OutputInv c' ms := by
  refine ⟨hm.state ▸ h.state, hm.synced, hm.stream.trans h.stream, ?_⟩
  rw [hm.shutdowns]
  intro p hp
  rcases List.mem_append.mp hp with hp | hp
  · exact h.shutdown p hp
  · exact hl p hp

theorem OutputInv.apply {ms : List (List UInt8)} (h : OutputInv c ms) (op : OutputOp) :
    OutputInv (c.apply op) (ms ++ c.kept op) := by
  have hne : c.state ≠ .kDisconnected := by rcases h.state with h | h <;> simp [h]
  cases op with
  | sendInLoop message w =>
    have ha := sendInLoop_appends h.synced hne message w
    refine ⟨ha.state ▸ h.state, ha.synced, ?_, ha.shutdowns ▸ h.shutdown⟩
    rw [TcpConnection.apply, ha.stream, h.stream, kept]
    split_ifs <;> simp
  | handleWrite w =>
    rw [kept, List.append_nil]
    exact h.moves (handleWrite_moves h.synced w) (by split_ifs <;> simp)
  | shutdownInLoop =>
    rw [kept, List.append_nil]
    exact h.moves (shutdownInLoop_moves h.synced) (by split_ifs <;> simp)
  | setDisconnecting =>
    simp only [TcpConnection.apply, kept, List.append_nil]
    split_ifs
    · refine ⟨Or.inr rfl, h.synced, ?_, ?_⟩
      · simpa [setState, emit, wire, Effect.written] using h.stream
      · simpa [setState, emit, shutdowns_append, Net.shutdowns] using h.shutdown
    · exact h

theorem OutputInv.run : ∀ {c : TcpConnection} {ms : List (List UInt8)} (ops : List OutputOp),
    OutputInv c ms → OutputInv (c.runOutput ops) (ms ++ c.keptMessages ops)
  | c, ms, [], h => by simpa [runOutput, keptMessages] using h
  | c, ms, op :: ops, h => by
    have hrun := OutputInv.run ops (h.apply op)
    rw [List.append_assoc] at hrun
    exact hrun

theorem outputInv_established (fd : ℤ) (highWatermark : ℕ)
    (writeComplete highWater sameLoop : Bool) :
    OutputInv (established fd highWatermark writeComplete highWater sameLoop) [] := by
  have hr : (Buffer.new).readableBytes = 0 := rfl
  refine ⟨Or.inl rfl, ?_, ?_, ?_⟩
  · simp only [Synced, established, new, connectEstablished, calls, List.foldl_nil, update, emit, setState,
      assert, decide_true, if_true, Channel.isWriting_enableReading]
    simp [hr, Channel.isWriting, hasEvent, Channel.tie, kNoneEvent]
  · simp [established, new, connectEstablished, calls, update, emit, setState, assert, wire,
      Effect.written]
  · simp [established, new, connectEstablished, calls, update, emit, setState, assert, Net.shutdowns]

/-- **Output stream integrity.** In every state of a run: write interest is set exactly while the
buffer is not empty; the bytes the kernel has accepted, followed by the buffer, are the messages in
order, without those whose direct write failed; and the write side is never shut down while the buffer
is not empty. -/
theorem output_integrity (fd : ℤ) (highWatermark : ℕ)
    (writeComplete highWater sameLoop : Bool) (ops : List OutputOp) :
    let start := established fd highWatermark writeComplete highWater sameLoop
    let c := start.runOutput ops
    (c.state = .kConnected ∨ c.state = .kDisconnecting) ∧
    (c.channel.isWriting = true ↔ 0 < c.outputBuffer.readableBytes) ∧
    wire c.log ++ c.outputBuffer.peek = (start.keptMessages ops).flatten ∧
    ∀ unsent, .shutdownWrite unsent ∈ c.log → unsent = [] := by
  intro start c
  have h : OutputInv c (start.keptMessages ops) :=
    (outputInv_established fd highWatermark writeComplete highWater sameLoop).run ops
  refine ⟨h.state, h.synced, h.stream, fun unsent hu => ?_⟩
  obtain ⟨sent, hp⟩ := (mem_shutdowns []).mp hu
  exact h.shutdown _ hp

end TcpConnection

end MuduoCpp11.Net
