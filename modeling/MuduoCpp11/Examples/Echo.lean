import MuduoCpp11.Net.TcpConnection.SendBuffer
import MuduoCpp11.Net.TcpConnection.Served

/-! # The echo server

`EchoServer::OnMessage` takes everything out of the input buffer and sends it back. `Send` gets it
through a `StringPiece`, whose length is an `int`, so the echo is complete only as long as no message
has `2 ^ 31` bytes. It never has: a buffer that is emptied by every message grows to 131079 bytes and no
further (`Idle.readFd`), because `ReadFd` uses its stack buffer only while fewer than 65536 bytes are
writable. -/

namespace MuduoCpp11.Net.Buffer

variable {b : Buffer}

theorem length_write (data : List UInt8) (h : data.length ≤ b.writableBytes) :
    (b.write data h).buffer.length = b.buffer.length := by
  have := b.writer_le
  unfold writableBytes at h
  exact length_overwrite (by omega)

/-- The vector of a buffer grows only as far as an append needs it. -/
theorem length_append_le (b : Buffer) (data : List UInt8) :
    (b.append data).buffer.length ≤ max b.buffer.length (b.writerIndex + data.length) := by
  unfold append
  rw [length_write]
  unfold ensureWritableBytes
  split_ifs with h
  · unfold makeSpace
    split_ifs with hs
    · simp [length_resize]
    · have := b.reader_le
      have := b.writer_le
      have hl := b.length_peek
      simp only [writableBytes, prependableBytes] at h hs
      rw [length_overwrite (by rw [hl]; unfold readableBytes; omega)]
      omega
  · omega

/-- The vector grows by a scatter read only if fewer than 65536 bytes are writable. -/
theorem length_readFd_le (b : Buffer) (r : ReadResult) : (b.readFd r).1.buffer.length ≤
    if b.writableBytes < 65536 then b.buffer.length + 65536 else b.buffer.length := by
  cases r with
  | error e =>
    show b.buffer.length ≤ _
    split_ifs <;> omega
  | bytes d =>
    have hlen : (d.take b.readvOffered).length ≤ b.readvOffered := by simp
    unfold readFd
    dsimp only
    split_ifs with hfit hsmall hsmall
    · rw [length_write]; omega
    · rw [length_write]
    · refine (length_append_le _ _).trans ?_
      have hwriter : (b.write ((d.take b.readvOffered).take b.writableBytes) (by simp)).writerIndex =
          b.buffer.length := by
        show b.writerIndex + ((d.take b.readvOffered).take b.writableBytes).length = _
        have := b.writer_le
        rw [List.length_take, min_eq_left (by omega)]
        unfold writableBytes
        omega
      rw [length_write, hwriter, List.length_drop]
      unfold readvOffered at hlen ⊢
      rw [if_pos hsmall] at hlen ⊢
      omega
    · unfold readvOffered at hlen hfit
      rw [if_neg hsmall] at hlen hfit
      omega

/-- A buffer that has been emptied, with a bound on its vector. -/
structure Idle (b : Buffer) : Prop where
  reader : b.readerIndex = kCheapPrepend
  writer : b.writerIndex = kCheapPrepend
  length : b.buffer.length ≤ 131079

theorem Idle.peek (h : b.Idle) : b.peek = [] := by
  rw [← readableBytes_eq_zero, readableBytes, h.reader, h.writer, Nat.sub_self]

/-- **A buffer that is emptied behind every read stays small.** -/
theorem Idle.readFd (h : b.Idle) (r : ReadResult) : (b.readFd r).1.buffer.length ≤ 131079 := by
  have hle := length_readFd_le b r
  have hlength := h.length
  unfold writableBytes at hle
  rw [h.writer] at hle
  unfold kCheapPrepend at hle
  split_ifs at hle <;> omega

theorem Idle.retrieve (h : b.Idle) (r : ReadResult) :
    ((b.readFd r).1.retrieve (b.readFd r).1.peek.length).Idle := by
  have hall : (b.readFd r).1.retrieve (b.readFd r).1.peek.length = (b.readFd r).1.retrieveAll := by
    rw [Buffer.retrieve, dif_neg (by rw [length_peek]; omega)]
  rw [hall]
  exact ⟨rfl, rfl, h.readFd r⟩

end MuduoCpp11.Net.Buffer

namespace MuduoCpp11.Examples.EchoServer

open MuduoCpp11.Lib MuduoCpp11.Net TcpConnection Served

/-- `OnMessage`: all of the input buffer is taken out and sent. -/
def onMessage : MessageCallback Unit := fun _ _ buf =>
  let msg := StringPiece.ofString buf
  (copyFrom msg.ptr 0 msg.length.toInt64.toUInt64.toNat).map fun message =>
    ⟨(), buf.length, [.send message]⟩

theorem onMessage_eq {buf : List UInt8} (h : buf.length < 2 ^ 31) (t : Base.Timestamp) :
    onMessage () t buf = some ⟨(), buf.length, [.send buf]⟩ := by
  have hlen : (UInt64.ofNat buf.length).toNat = buf.length := RawBuffer.toNat_ofNat (by omega)
  have hint := (toNat_int_iff (UInt64.ofNat buf.length)).mpr (Or.inl (by omega))
  simp only [onMessage, StringPiece.ofString, hint, hlen, copyFrom]
  simp

/-- **The invariant**: all that has been heard has been sent, and the input buffer is empty. -/
structure Inv (s : Served Unit) (v : Conversation Unit) : Prop where
  carries : CarriesOut s v
  idle : s.conn.inputBuffer.Idle
  isOpen : v.isOpen = true
  sent : v.sent = s.heard.map Arrival.data

variable {s s' : Served Unit} {v : Conversation Unit}

/-- **A step keeps it**: what arrives is a message of its own. -/
theorem step_inv (h : Inv s v) {a : Served.Act} (hs : step onMessage s a = some s') :
    ∃ v', Inv s' v' ∧ ∃ gs, s'.given = s.given ++ gs ∧
      (a.calm = true → ∀ g ∈ gs, g.lost = false) := by
  rcases step_carriesOut h.carries hs with
    ⟨hheard, hgiven, hin, hc⟩ | ⟨d, r, hears, hc, gs, hgiven, hcalm⟩
  · exact ⟨v, ⟨hc, by rw [hin]; exact h.idle, h.isOpen, by rw [hheard]; exact h.sent⟩, [],
      by rw [hgiven, List.append_nil], by simp⟩
  · obtain ⟨read, hpeek, hinput⟩ := hears.inputBuffer
    have hpending : v.pending = [] := by rw [← h.carries.pending, h.idle.peek]
    rw [hpending, List.nil_append] at hpeek
    have hsmall : d.data.length < 2 ^ 31 := by
      have hlength := h.idle.readFd read
      have hwriter := (s.conn.inputBuffer.readFd read).1.writer_le
      rw [← hpeek, Buffer.length_peek]
      unfold Buffer.readableBytes
      omega
    have hreaction := hears.reaction
    rw [hpending, List.nil_append, onMessage_eq hsmall, Option.some.injEq] at hreaction
    subst hreaction
    refine ⟨_, ⟨hc, ?_, ?_, ?_⟩, gs, hgiven, hcalm⟩
    · rw [hinput, ← hpeek]
      exact h.idle.retrieve read
    · simp [Conversation.answer, h.isOpen]
    · simp [Conversation.answer, h.isOpen, sentBy, h.sent, hears.heard]

theorem inv_start (fd : ℤ) (sameLoop : Bool) : Inv (start fd sameLoop ()) { context := () } := by
  refine ⟨carriesOut_start fd sameLoop (), ⟨rfl, rfl, ?_⟩, rfl, rfl⟩
  have hnew : Buffer.new.buffer.length = 8 + 1024 := List.length_replicate
  exact hnew.trans_le (by omega)

theorem run_inv {fd : ℤ} {sameLoop : Bool} {acts : List Served.Act}
    (hrun : run onMessage (start fd sameLoop ()) acts = some s) :
    ∃ v, Inv s v ∧ (acts.all Act.calm = true → ∀ g ∈ s.given, g.lost = false) := by
  refine Run.run_inv_history (P := fun acts s => ∃ v, Inv s v ∧
    (acts.all Act.calm = true → ∀ g ∈ s.given, g.lost = false))
    ⟨_, inv_start fd sameLoop, fun _ g hg => by cases hg⟩ ?_ hrun
  rintro acts m a m' hstep ⟨v, h, hcalm⟩
  obtain ⟨v', h', gs, hgiven, hgs⟩ := step_inv h hstep
  refine ⟨v', h', fun hall g hg => ?_⟩
  simp only [List.all_append, List.all_cons, List.all_nil, Bool.and_true, Bool.and_eq_true] at hall
  rw [hgiven] at hg
  exact (List.mem_append.mp hg).elim (hcalm hall.1 g) (hgs hall.2 g)

/-- **The echo server echoes.** In every run, however the kernel cuts reads and writes and whenever the
peer closes: the messages given to `SendInLoop` are the chunks that have arrived, in order; the wire
followed by the output buffer is these messages, each whole, without those whose direct write has failed
with `EPIPE` or `ECONNRESET`. The input buffer is empty between the events and never has more than 131079
bytes, and the server never shuts its side down. -/
theorem echo {fd : ℤ} {sameLoop : Bool} {acts : List Served.Act}
    (hrun : run onMessage (start fd sameLoop ()) acts = some s) :
    s.given.map Given.message = s.heard.map Arrival.data ∧
    (acts.all Act.calm = true → ∀ g ∈ s.given, g.lost = false) ∧
    wire s.conn.log ++ s.conn.outputBuffer.peek = (keptOf s.given).flatten ∧
    s.conn.inputBuffer.peek = [] ∧ s.conn.inputBuffer.buffer.length ≤ 131079 ∧
    shutdowns [] s.conn.log = [] := by
  obtain ⟨v, h, hcalm⟩ := run_inv hrun
  refine ⟨h.carries.given.trans h.sent, hcalm, h.carries.conn.stream, h.idle.peek, h.idle.length, ?_⟩
  rw [h.carries.conn.shutdowns, h.isOpen]
  simp

/-- Two messages; the first is written in part, the second behind it, and then the peer closes. -/
theorem echo_two : ∃ s,
    run onMessage (start 5 true ())
      [.dispatch POLLIN {} (.bytes [1, 2, 3]) (.room 0) [.room 1],
        .dispatch POLLIN {} (.bytes [4]) (.room 0) [.room 9],
        .dispatch POLLIN {} (.bytes []) (.room 0) []] = some s ∧
    wire s.conn.log ++ s.conn.outputBuffer.peek = [1, 2, 3, 4] ∧ s.conn.inputBuffer.peek = [] ∧
    shutdowns [] s.conn.log = [] := by
  have hsome : (run onMessage (start 5 true ())
      [.dispatch POLLIN {} (.bytes [1, 2, 3]) (.room 0) [.room 1],
        .dispatch POLLIN {} (.bytes [4]) (.room 0) [.room 9],
        .dispatch POLLIN {} (.bytes []) (.room 0) []]).map (fun s => s.heard.map Arrival.data) =
      some [[1, 2, 3], [4]] := by decide +kernel
  obtain ⟨s, hs, hheard⟩ := Option.map_eq_some_iff.mp hsome
  obtain ⟨hgiven, hcalm, hstream, hpeek, -, hshut⟩ := echo hs
  have hkept : keptOf s.given = [[1, 2, 3], [4]] :=
    (keptOf_of_forall (hcalm (by decide))).trans (hgiven.trans hheard)
  rw [hkept] at hstream
  exact ⟨s, hs, hstream, hpeek, hshut⟩

end MuduoCpp11.Examples.EchoServer
