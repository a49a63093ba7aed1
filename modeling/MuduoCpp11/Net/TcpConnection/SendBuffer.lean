import MuduoCpp11.Net.Buffer.SizeT
import MuduoCpp11.Net.TcpConnection

/-! # `Send(Buffer*)`

On the loop thread the readable bytes go to `SendInLoop` with a length of type `size_t`. On another
thread they are moved into a string, and the functor that holds it calls `SendInLoop` through a
`StringPiece`, whose length is an `int`. The way over `int` and back keeps the lengths below `2 ^ 31`
and those within `2 ^ 31` of the end of `size_t`, and no others (`toNat_int_iff`); a buffer of any
other length is not sent as it is (`sendBuffer_sends_iff`). -/

namespace MuduoCpp11.Net

/-- The bytes behind `ptr_`, and `length_`. -/
structure StringPiece where
  ptr : List UInt8
  length : Int32

/-- `StringPiece(const std::string&)` -/
def StringPiece.ofString (str : List UInt8) : StringPiece :=
  ⟨str, (UInt64.ofNat str.length).toUInt32.toInt32⟩

namespace TcpConnection

/-- `SendInLoop(const void*, size_t)` on the bytes behind the pointer; `none` if there are fewer than
`len`. -/
def sendInLoopRange (c : TcpConnection) (data : List UInt8) (len : UInt64) (w : WriteResult) :
    Option TcpConnection :=
  if c.state = .kDisconnected then some c
  else (copyFrom data 0 len.toNat).map fun data => c.sendInLoop data w

/-- `SendInLoop(const StringPiece&)` -/
def sendInLoopPiece (c : TcpConnection) (message : StringPiece) (w : WriteResult) :
    Option TcpConnection :=
  c.sendInLoopRange message.ptr message.length.toInt64.toUInt64 w

/-- What `Send(Buffer*)` has done on the loop thread: a call of `SendInLoop`, or a functor that makes
one. -/
inductive SendRequest where
  | call (data : List UInt8) (len : UInt64)
  | functor (str : List UInt8)

def SendRequest.run (c : TcpConnection) (w : WriteResult) : SendRequest → Option TcpConnection
  | .call data len => c.sendInLoopRange data len w
  | .functor str => c.sendInLoopPiece (.ofString str) w

/-- `Send(Buffer*)`: its request, if any, and the buffer afterwards. -/
def sendBuffer (c : TcpConnection) (isInLoopThread : Bool) (buf : RawBuffer) :
    Option (Option SendRequest × RawBuffer) :=
  if c.state = .kConnected then
    if isInLoopThread then
      some (some (.call (buf.buffer.drop buf.readerIndex.toNat) buf.readableBytes), buf.retrieveAll)
    else
      (buf.retrieveAsString buf.readableBytes).map fun (str, buf) => (some (.functor str), buf)
  else some (none, buf)

/-- The call leaves the buffer empty, and its request, carried out in `c`, is `SendInLoop` on the
bytes `data`. -/
def Sends (sent : Option (Option SendRequest × RawBuffer)) (c : TcpConnection)
    (data : List UInt8) : Prop :=
  ∃ request buf, sent = some (some request, buf) ∧ buf.peek = [] ∧
    ∀ w, request.run c w = some (c.sendInLoop data w)

/-! ### The length over `int` -/

theorem toNat_int_eq (n : UInt64) :
    n.toUInt32.toInt32.toInt64.toUInt64.toNat =
      n.toNat % 2 ^ 32 + if n.toNat % 2 ^ 32 < 2 ^ 31 then 0 else 2 ^ 64 - 2 ^ 32 := by
  have hlow : n.toUInt32.toBitVec.toNat = n.toNat % 2 ^ 32 := by simp
  have hmsb : n.toUInt32.toBitVec.msb = decide (2 ^ 31 ≤ n.toNat % 2 ^ 32) := by
    rw [BitVec.msb_eq_decide, hlow]
  have hext : n.toUInt32.toInt32.toInt64.toUInt64.toBitVec = n.toUInt32.toBitVec.signExtend 64 :=
    rfl
  have hset : (n.toUInt32.toBitVec.setWidth 64).toNat = n.toNat % 2 ^ 32 := by
    rw [BitVec.toNat_setWidth, hlow]
    omega
  rw [← UInt64.toNat_toBitVec, hext, BitVec.toNat_signExtend, hmsb, hset]
  by_cases hlt : n.toNat % 2 ^ 32 < 2 ^ 31
  · rw [if_pos hlt, if_neg (by simpa using hlt)]
  · rw [if_neg hlt, if_pos (by simpa using hlt)]

/-- The lengths that come back from an `int`. -/
theorem toNat_int_iff (n : UInt64) : n.toUInt32.toInt32.toInt64.toUInt64.toNat = n.toNat ↔
    n.toNat < 2 ^ 31 ∨ 2 ^ 64 - 2 ^ 31 ≤ n.toNat := by
  have hlt := n.toNat_lt
  rw [toNat_int_eq]
  split_ifs with h
  · omega
  · omega

/-! ### What `SendInLoop` is given -/

theorem copyFrom_eq_self_iff {l : List UInt8} {n : ℕ} :
    copyFrom l 0 n = some l ↔ n = l.length := by
  unfold copyFrom
  split_ifs with h
  · simp only [List.drop_zero, Option.some.injEq, List.take_eq_self_iff]
    omega
  · simp only [false_iff]
    omega

theorem outputBuffer_bufferRemaining (c : TcpConnection) (remaining : List UInt8) :
    (c.bufferRemaining remaining).outputBuffer = c.outputBuffer.append remaining := by
  unfold bufferRemaining
  dsimp only
  split_ifs <;> rfl

/-- A direct write for which there is no room. -/
theorem writeDirectly_room_zero (c : TcpConnection) (data : List UInt8) :
    ∃ c₁ : TcpConnection, c.writeDirectly data (.room 0) = (c₁, 0, false) ∧
      c₁.outputBuffer = c.outputBuffer := by
  unfold writeDirectly
  simp only [Nat.zero_min]
  refine ⟨_, rfl, ?_⟩
  split_ifs <;> rfl

/-- Where there is no room, `SendInLoop` puts its bytes into the output buffer. -/
theorem peek_sendInLoop_room_zero {c : TcpConnection} (hc : c.state ≠ .kDisconnected)
    (data : List UInt8) :
    (c.sendInLoop data (.room 0)).outputBuffer.peek = c.outputBuffer.peek ++ data := by
  have hbuffer : ∀ c₁ : TcpConnection, c₁.outputBuffer = c.outputBuffer →
      (if data.length > 0 then c₁.bufferRemaining data else c₁).outputBuffer.peek =
        c.outputBuffer.peek ++ data := by
    intro c₁ hc₁
    split_ifs with hpos
    · rw [outputBuffer_bufferRemaining, Buffer.peek_append, hc₁]
    · have hnil : data = [] := List.eq_nil_of_length_eq_zero (by omega)
      rw [hc₁, hnil, List.append_nil]
  unfold sendInLoop
  rw [if_neg hc]
  by_cases hd : c.writesDirectly
  · obtain ⟨c₁, hw, hc₁⟩ := c.writeDirectly_room_zero data
    simpa [hd, hw] using hbuffer c₁ hc₁
  · simpa [hd] using hbuffer c rfl

/-- What `SendInLoop` does, for all that the kernel may answer, tells which bytes it was given. -/
theorem sendInLoopRange_iff {c : TcpConnection} (hc : c.state ≠ .kDisconnected)
    {data bytes : List UInt8} {len : UInt64} :
    (∀ w, c.sendInLoopRange data len w = some (c.sendInLoop bytes w)) ↔
      copyFrom data 0 len.toNat = some bytes := by
  simp only [sendInLoopRange, if_neg hc, Option.map_eq_some_iff]
  constructor
  · intro h
    obtain ⟨d, hd, he⟩ := h (.room 0)
    have hpeek := congrArg (fun c => c.outputBuffer.peek) he
    simp only [peek_sendInLoop_room_zero hc, List.append_cancel_left_eq] at hpeek
    rw [hd, hpeek]
  · intro h w
    exact ⟨bytes, h, rfl⟩

/-- The functor sends its string exactly if the length of the string comes back from an `int`. -/
theorem functor_run_iff {c : TcpConnection} (hc : c.state ≠ .kDisconnected) {str : List UInt8}
    (hlen : str.length < 2 ^ 64) :
    (∀ w, (SendRequest.functor str).run c w = some (c.sendInLoop str w)) ↔
      str.length < 2 ^ 31 ∨ 2 ^ 64 - 2 ^ 31 ≤ str.length := by
  have hnat : (UInt64.ofNat str.length).toNat = str.length := RawBuffer.toNat_ofNat hlen
  have hint := toNat_int_iff (UInt64.ofNat str.length)
  rw [hnat] at hint
  simp only [SendRequest.run, sendInLoopPiece, StringPiece.ofString]
  rw [sendInLoopRange_iff hc, copyFrom_eq_self_iff, hint]

/-- What the functor makes of its string: a prefix, or nothing that is defined if the `int` is
negative. -/
theorem sendInLoopPiece_ofString {c : TcpConnection} (hc : c.state ≠ .kDisconnected)
    {str : List UInt8} (hlen : str.length < 2 ^ 63) (w : WriteResult) :
    c.sendInLoopPiece (.ofString str) w =
      if str.length % 2 ^ 32 < 2 ^ 31 then
        some (c.sendInLoop (str.take (str.length % 2 ^ 32)) w)
      else none := by
  have hnat : (UInt64.ofNat str.length).toNat = str.length :=
    RawBuffer.toNat_ofNat (hlen.trans (by decide))
  have hint := toNat_int_eq (UInt64.ofNat str.length)
  rw [hnat] at hint
  simp only [sendInLoopPiece, StringPiece.ofString, sendInLoopRange, if_neg hc, copyFrom, hint,
    List.drop_zero, Nat.zero_add]
  by_cases hlt : str.length % 2 ^ 32 < 2 ^ 31
  · have hle : str.length % 2 ^ 32 ≤ str.length := Nat.mod_le ..
    simp only [if_pos hlt, Nat.add_zero, if_pos hle, Option.map_some]
  · have hnot : ¬ str.length % 2 ^ 32 + (2 ^ 64 - 2 ^ 32) ≤ str.length := by omega
    simp only [if_neg hlt, if_neg hnot, Option.map_none]

/-! ### `Send(Buffer*)` -/

section
variable {c c' : TcpConnection} {r : RawBuffer} {b : Buffer}

/-- On the loop thread the bytes are sent as they are. -/
theorem sends_of_inLoopThread (hc : c.state = .kConnected) (hc' : c'.state ≠ .kDisconnected)
    (h : r.Represents b) : Sends (c.sendBuffer true r) c' b.peek := by
  have hempty : r.retrieveAll.peek = [] := by rw [h.retrieveAll.peek, Buffer.peek_retrieveAll]
  refine ⟨_, r.retrieveAll, by rw [sendBuffer, if_pos hc, if_pos rfl], hempty, ?_⟩
  have hreader : r.readerIndex.toNat ≤ r.buffer.length := by
    rw [h.reader, h.buffer]
    exact b.reader_le.trans b.writer_le
  have hcopy : copyFrom r.buffer r.readerIndex.toNat b.readableBytes = some b.peek := by
    rw [h.copyFrom le_rfl, ← b.length_peek, List.take_length]
  have hdrop : copyFrom (r.buffer.drop r.readerIndex.toNat) 0 r.readableBytes.toNat =
      some b.peek := by
    rw [← hcopy, h.readableBytes]
    unfold copyFrom
    simp only [List.length_drop, List.drop_zero, Nat.zero_add]
    congr 1
    rw [eq_iff_iff]
    omega
  exact (sendInLoopRange_iff hc').mpr hdrop

/-- On another thread the functor holds them, and the buffer is empty at once. -/
theorem sendBuffer_elsewhere (hc : c.state = .kConnected) (h : r.Represents b) :
    ∃ r', c.sendBuffer false r = some (some (.functor b.peek), r') ∧ r'.peek = [] := by
  obtain ⟨r', hr, h'⟩ := h.retrieveAsString (UInt64.le_refl r.readableBytes)
  rw [h.readableBytes, ← b.length_peek, List.take_length] at hr
  refine ⟨r', ?_, ?_⟩
  · simp only [sendBuffer, if_pos hc, Bool.false_eq_true, if_false, hr, Option.map_some]
  · rw [h'.peek, Buffer.peek_retrieve, h.readableBytes, ← b.length_peek, List.drop_length]

theorem sends_elsewhere_iff (hc : c.state = .kConnected) (h : r.Represents b)
    {data : List UInt8} : Sends (c.sendBuffer false r) c' data ↔
      ∀ w, (SendRequest.functor b.peek).run c' w = some (c'.sendInLoop data w) := by
  obtain ⟨r', hs, hempty⟩ := sendBuffer_elsewhere hc h
  constructor
  · rintro ⟨request, buf, hs', -, hrun⟩
    rw [hs] at hs'
    cases hs'
    exact hrun
  · intro hrun
    exact ⟨_, r', hs, hempty, hrun⟩

theorem readableBytes_lt (h : r.Represents b) : b.readableBytes < 2 ^ 64 := by
  rw [← h.readableBytes]
  exact r.readableBytes.toNat_lt

theorem sends_elsewhere_iff_length (hc : c.state = .kConnected) (hc' : c'.state ≠ .kDisconnected)
    (h : r.Represents b) : Sends (c.sendBuffer false r) c' b.peek ↔
      b.readableBytes < 2 ^ 31 ∨ 2 ^ 64 - 2 ^ 31 ≤ b.readableBytes := by
  have hlen := readableBytes_lt h
  rw [← b.length_peek] at hlen ⊢
  rw [sends_elsewhere_iff hc h, functor_run_iff hc' hlen]

/-- **When `Send(Buffer*)` sends the buffer.** For every buffer whose length a `size_t` can hold, and
every connection that is connected at the call and when `SendInLoop` runs: exactly if the call is
made on the loop thread, or an `int` brings the length back. -/
theorem sendBuffer_sends_iff (hc : c.state = .kConnected) (hc' : c'.state = .kConnected)
    (h : r.Represents b) (isInLoopThread : Bool) :
    Sends (c.sendBuffer isInLoopThread r) c' b.peek ↔
      isInLoopThread = true ∨ b.readableBytes < 2 ^ 31 ∨ 2 ^ 64 - 2 ^ 31 ≤ b.readableBytes := by
  have hlive : c'.state ≠ .kDisconnected := by simp [hc']
  cases isInLoopThread with
  | true => simp [sends_of_inLoopThread hc hlive h]
  | false => simp [sends_elsewhere_iff_length hc hlive h]

end

theorem le_writableBytes_new (n : ℕ) : n ≤ (Buffer.new n).writableBytes := by
  simp [Buffer.new, Buffer.writableBytes]

/-- A buffer of `n` readable bytes. -/
def zeros (n : ℕ) : Buffer := (Buffer.new n).hasWritten n (le_writableBytes_new n)

theorem represents_zeros {n : ℕ} (hn : kCheapPrepend + n < 2 ^ 64) :
    ∃ r : RawBuffer, r.Represents (zeros n) ∧ (zeros n).readableBytes = n := by
  have hlt : kCheapPrepend < 2 ^ 64 := by decide
  refine ⟨⟨(zeros n).buffer, UInt64.ofNat kCheapPrepend, UInt64.ofNat (kCheapPrepend + n)⟩,
    ⟨rfl, RawBuffer.toNat_ofNat hlt, RawBuffer.toNat_ofNat hn, ?_⟩, ?_⟩
  · simpa [zeros, Buffer.hasWritten, Buffer.new] using hn
  · simp [zeros, Buffer.hasWritten, Buffer.new, Buffer.readableBytes]

/-- Of `2 ^ 32` bytes the functor sends none. -/
theorem sends_none {c c' : TcpConnection} {r : RawBuffer} {b : Buffer}
    (hc : c.state = .kConnected) (hc' : c'.state ≠ .kDisconnected) (h : r.Represents b)
    (hlen : b.readableBytes = 2 ^ 32) : Sends (c.sendBuffer false r) c' [] := by
  have hnat : (UInt64.ofNat b.peek.length).toNat = 2 ^ 32 := by
    rw [b.length_peek, hlen]
    exact RawBuffer.toNat_ofNat (by decide)
  have hint := toNat_int_eq (UInt64.ofNat b.peek.length)
  rw [hnat] at hint
  rw [sends_elsewhere_iff hc h]
  simp only [SendRequest.run, sendInLoopPiece, StringPiece.ofString]
  rw [sendInLoopRange_iff hc', hint]
  simp [copyFrom]

/-- A connection that is connected. -/
def connected : TcpConnection := (new 7 1024 false false true).setState .kConnected

/-- A buffer of a thousand bytes is sent from another thread. -/
theorem sendBuffer_sends_thousand : ∃ r : RawBuffer, r.Represents (zeros 1000) ∧
    Sends (connected.sendBuffer false r) connected (zeros 1000).peek := by
  obtain ⟨r, h, hlen⟩ := represents_zeros (n := 1000) (by decide)
  exact ⟨r, h, (sendBuffer_sends_iff rfl rfl h false).mpr (Or.inr (Or.inl (by rw [hlen]; decide)))⟩

/-- **Four gigabytes are lost** when they are sent from another thread: the buffer is emptied, and
`SendInLoop` is called with no bytes. -/
theorem sendBuffer_four_gib : ∃ (b : Buffer) (r : RawBuffer), r.Represents b ∧
    b.readableBytes = 2 ^ 32 ∧ Sends (connected.sendBuffer false r) connected [] ∧
    ¬ Sends (connected.sendBuffer false r) connected b.peek := by
  have hlive : connected.state ≠ .kDisconnected := by decide
  obtain ⟨r, h, hlen⟩ := represents_zeros (n := 2 ^ 32) (by decide)
  refine ⟨zeros (2 ^ 32), r, h, hlen, sends_none rfl hlive h hlen, ?_⟩
  rw [sends_elsewhere_iff_length rfl hlive h, hlen]
  decide

end TcpConnection

end MuduoCpp11.Net
