import MuduoCpp11.Net.Buffer.SizeT

/-! # The scatter read

`ReadFd` offers the writable bytes of the vector to `readv` and, if these are fewer than 65536, a stack
buffer of that size behind them. What does not fit the vector is appended from the stack buffer, which
may move or resize the vector with the bytes that `readv` has just put there. On the machine words this
is `Buffer.readFd` (`Represents.readFd`), and that is an append (`Buffer.peek_readFd`). -/

namespace MuduoCpp11.Net

namespace RawBuffer

variable (r : RawBuffer)

/-- `Readv` into the writable bytes and, if `iovcnt` is 2, into `extrabuf`: the bytes fill the first
before the second. There is no room for more than these offer. -/
def readv (extrabuf : List UInt8) (iovcnt : ℕ) (data : List UInt8) :
    Option (RawBuffer × List UInt8) :=
  let writable := r.writableBytes.toNat
  if data.length ≤ writable + (if iovcnt = 2 then extrabuf.length else 0) then do
    let r ← r.store 0 (data.take writable)
    let extrabuf ← copyTo extrabuf 0 (data.drop writable)
    some (r, extrabuf)
  else none

/-- `ReadFd`: the buffer, the result and what is stored in `*saved_errno`. `extrabuf` is the stack buffer
as the call finds it. -/
def readFd (extrabuf : List UInt8) (result : ReadResult) :
    Option (RawBuffer × ℤ × Option Errno) :=
  let writable := r.writableBytes
  let iovcnt := if writable < UInt64.ofNat extrabuf.length then 2 else 1
  match result with
  | .error e => some (r, -1, some e)
  | .bytes data => do
    let (r, extrabuf) ← r.readv extrabuf iovcnt data
    let n := UInt64.ofNat data.length
    if n ≤ writable then some ({ r with writerIndex := r.writerIndex + n }, data.length, none)
    else
      let r : RawBuffer := { r with writerIndex := r.size }
      let rest ← copyFrom extrabuf 0 (n - writable).toNat
      let r ← r.append rest
      some (r, data.length, none)

end RawBuffer

namespace Buffer

variable {b : Buffer} {data : List UInt8}

/-- A scatter read that fits the vector. -/
theorem readFd_of_le (h : data.length ≤ b.writableBytes) :
    b.readFd (.bytes data) = (b.write data h, .bytes data) := by
  have hoffered : data.take b.readvOffered = data := by
    refine List.take_of_length_le ?_
    unfold readvOffered
    split_ifs <;> omega
  unfold readFd
  simp only [hoffered]
  rw [dif_pos h]

/-- A scatter read that needs the stack buffer. -/
theorem readFd_of_lt (h : b.writableBytes < data.length) (hle : data.length ≤ b.readvOffered) :
    b.readFd (.bytes data) =
      ((b.write (data.take b.writableBytes) (by simp)).append (data.drop b.writableBytes),
        .bytes data) := by
  unfold readFd
  simp only [List.take_of_length_le hle]
  rw [dif_neg (by omega)]

/-- **The scatter read appends what has been read.** -/
theorem peek_readFd (hle : data.length ≤ b.readvOffered) :
    (b.readFd (.bytes data)).1.peek = b.peek ++ data := by
  rcases le_or_gt data.length b.writableBytes with h | h
  · rw [readFd_of_le h]
    exact b.peek_write data h
  · rw [readFd_of_lt h hle]
    show (Buffer.append _ _).peek = _
    rw [peek_append, peek_write, List.append_assoc, List.take_append_drop]

end Buffer

namespace RawBuffer

variable {r : RawBuffer} {b : Buffer} {extrabuf data : List UInt8}

/-- The indices are in order, and the readable bytes are between them. -/
theorem Represents.ordered (h : r.Represents b) :
    r.readerIndex ≤ r.writerIndex ∧ r.writerIndex ≤ r.size := by
  rw [UInt64.le_iff_toNat_le, UInt64.le_iff_toNat_le, h.reader, h.writer, h.toNat_size]
  exact ⟨b.reader_le, b.writer_le⟩

/-- What `readv` leaves in the vector and in the stack buffer. -/
theorem Represents.readv (h : r.Represents b) (hextra : extrabuf.length = 65536)
    (hle : data.length ≤ b.readvOffered) :
    ∃ r', r.readv extrabuf (if r.writableBytes < UInt64.ofNat extrabuf.length then 2 else 1) data =
        some (r', overwrite extrabuf 0 (data.drop b.writableBytes)) ∧
      r'.Represents (b.store 0 (data.take b.writableBytes) (by simp)) := by
  have hwritable := h.writableBytes
  have hcond : r.writableBytes < UInt64.ofNat extrabuf.length ↔ b.writableBytes < 65536 := by
    rw [UInt64.lt_iff_toNat_lt, hwritable, hextra]
    rfl
  have hroom : data.length ≤ r.writableBytes.toNat +
      (if (if r.writableBytes < UInt64.ofNat extrabuf.length then 2 else 1) = 2
        then extrabuf.length else 0) := by
    unfold Buffer.readvOffered at hle
    simp only [hcond, hwritable]
    rw [hextra]
    split_ifs at hle ⊢ <;> omega
  have hfit : 0 + (data.drop b.writableBytes).length ≤ extrabuf.length := by
    unfold Buffer.readvOffered at hle
    rw [List.length_drop, hextra]
    split_ifs at hle <;> omega
  obtain ⟨r', hr', h'⟩ := h.store 0 (data.take b.writableBytes) (by simp)
  refine ⟨r', ?_, h'⟩
  unfold RawBuffer.readv
  rw [if_pos hroom, hwritable, hr', Option.bind_eq_bind, Option.bind_some]
  unfold Net.copyTo
  rw [if_pos hfit, Option.bind_eq_bind, Option.bind_some]

/-- The vector is full. -/
theorem Represents.full (h : r.Represents (b.store 0 (data.take b.writableBytes) (by simp)))
    (hlt : b.writableBytes < data.length) :
    ({ r with writerIndex := r.size } : RawBuffer).Represents
      (b.write (data.take b.writableBytes) (by simp)) where
  buffer := h.buffer
  reader := h.reader
  writer := by
    have hb := b.writer_le
    have htake : (data.take b.writableBytes).length = b.writableBytes := by
      rw [List.length_take, min_eq_left hlt.le]
    have hsum : b.writerIndex + 0 + (data.take b.writableBytes).length = b.buffer.length := by
      rw [htake]
      unfold Buffer.writableBytes
      omega
    rw [h.toNat_size]
    show (overwrite b.buffer (b.writerIndex + 0) (data.take b.writableBytes)).length = _
    rw [length_overwrite hsum.le, ← hsum]
    rfl
  size := h.size

/-- `ReadFd` on the machine words is the one on `Buffer`. A vector is never longer than `2 ^ 63 - 1`. -/
theorem Represents.readFd (h : r.Represents b) (hmax : b.buffer.length < 2 ^ 63)
    (hextra : extrabuf.length = 65536) (hle : data.length ≤ b.readvOffered) :
    ∃ r', r.readFd extrabuf (.bytes data) = some (r', (data.length : ℤ), none) ∧
      r'.Represents (b.readFd (.bytes data)).1 := by
  have hwritable := h.writableBytes
  have hb := b.writer_le
  have hoffered : b.readvOffered ≤ b.writableBytes + 65536 := by
    unfold Buffer.readvOffered
    split_ifs <;> omega
  have hlen : (UInt64.ofNat data.length).toNat = data.length := by
    unfold Buffer.writableBytes at hoffered
    exact toNat_ofNat (by omega)
  have hcond : UInt64.ofNat data.length ≤ r.writableBytes ↔ data.length ≤ b.writableBytes := by
    rw [UInt64.le_iff_toNat_le, hlen, hwritable]
  obtain ⟨r₁, hr₁, h₁⟩ := h.readv hextra hle
  unfold RawBuffer.readFd
  simp only [hr₁, Option.bind_eq_bind, Option.bind_some]
  rcases le_or_gt data.length b.writableBytes with hfit | hlt
  · rw [if_pos (hcond.mpr hfit), Buffer.readFd_of_le hfit]
    refine ⟨_, rfl, ?_, h₁.reader, ?_, ?_⟩
    · rw [h₁.buffer]
      show overwrite b.buffer (b.writerIndex + 0) (data.take b.writableBytes) = _
      rw [List.take_of_length_le hfit]
      rfl
    · have hwriter : r₁.writerIndex.toNat = b.writerIndex := h₁.writer
      unfold Buffer.writableBytes at hfit
      show (r₁.writerIndex + UInt64.ofNat data.length).toNat = b.writerIndex + data.length
      rw [toNat_add (by omega), hwriter, hlen]
    · show (overwrite b.buffer b.writerIndex data).length < 2 ^ 64
      unfold Buffer.writableBytes at hfit
      rw [length_overwrite (by omega)]
      omega
  · have hrest : Net.copyFrom (overwrite extrabuf 0 (data.drop b.writableBytes)) 0
        (UInt64.ofNat data.length - r.writableBytes).toNat = some (data.drop b.writableBytes) := by
      have hn : (UInt64.ofNat data.length - r.writableBytes).toNat =
          (data.drop b.writableBytes).length := by
        rw [toNat_sub (by omega), hlen, hwritable, List.length_drop]
      have hfit : 0 + (data.drop b.writableBytes).length ≤ extrabuf.length := by
        rw [List.length_drop]
        omega
      unfold Net.copyFrom
      rw [hn, length_overwrite hfit, if_pos hfit, List.drop_zero]
      have htake := take_overwrite (l := extrabuf) (d := data.drop b.writableBytes) (Nat.zero_le _)
      rw [Nat.zero_add, List.take_zero, List.nil_append] at htake
      rw [htake]
    have hwriter : (b.write (data.take b.writableBytes) (by simp)).writerIndex = b.buffer.length := by
      show b.writerIndex + (data.take b.writableBytes).length = _
      rw [List.length_take, min_eq_left hlt.le]
      unfold Buffer.writableBytes
      omega
    have hdrop : (data.drop b.writableBytes).length ≤ 65536 := by
      rw [List.length_drop]
      omega
    obtain ⟨r', hr', h'⟩ := (h₁.full hlt).append (data.drop b.writableBytes)
      (by unfold kCheapPrepend; omega) (by rw [hwriter]; omega)
    rw [if_neg (fun hc => absurd (hcond.mp hc) (by omega)), Buffer.readFd_of_lt hlt hle]
    refine ⟨r', ?_, h'⟩
    rw [hrest, Option.bind_some, hr', Option.bind_some]

/-- **The scatter read is an append.** For every buffer, and whatever the stack buffer holds: if `readv`
delivers `data`, at most what it was offered, then `ReadFd` returns its length, stores no error, and
leaves a buffer with the indices in order whose readable bytes are the old ones followed by `data`; if
`readv` fails, then `ReadFd` returns `-1`, saves the error and leaves the buffer as it is. -/
theorem readFd_appends (h : r.Represents b) (hmax : b.buffer.length < 2 ^ 63)
    (hextra : extrabuf.length = 65536) :
    (∀ data : List UInt8, data.length ≤ b.readvOffered →
      ∃ r', r.readFd extrabuf (.bytes data) = some (r', (data.length : ℤ), none) ∧
        r'.peek = r.peek ++ data ∧ r'.readerIndex ≤ r'.writerIndex ∧ r'.writerIndex ≤ r'.size) ∧
      ∀ e, r.readFd extrabuf (.error e) = some (r, -1, some e) := by
  refine ⟨fun data hle => ?_, fun e => rfl⟩
  obtain ⟨r', hr', h'⟩ := h.readFd hmax hextra hle
  refine ⟨r', hr', ?_, h'.ordered⟩
  rw [h'.peek, Buffer.peek_readFd hle, h.peek]

/-- A buffer without a writable byte: the three bytes come through the stack buffer. -/
theorem readFd_appends_of_full : ∃ r', (new 0).readFd (List.replicate 65536 0) (.bytes [1, 2, 3]) =
      some (r', 3, none) ∧
    r'.peek = [1, 2, 3] ∧ r'.readerIndex ≤ r'.writerIndex ∧ r'.writerIndex ≤ r'.size := by
  have hnew : (new 0).Represents (Buffer.new 0) := represents_new (by decide)
  have hoffered : [1, 2, 3].length ≤ (Buffer.new 0).readvOffered := by decide
  obtain ⟨r', hr', hpeek, hle⟩ := (readFd_appends hnew (by decide) List.length_replicate).1
    [1, 2, 3] hoffered
  exact ⟨r', hr', hpeek, hle⟩

end RawBuffer

end MuduoCpp11.Net
