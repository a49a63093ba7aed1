import MuduoCpp11.Net.Buffer

/-! # The buffer with its machine words

The members of the class `Buffer` as they are in memory: a vector and two words of type `size_t`, whose
sums and differences wrap. Nothing relates them. A member function gives `none` where one of its
assertions fails or where it would copy bytes that are not in the vector; a vector that is asked to
grow does so.

`Represents`: the words are the numbers of a `Buffer`, whose fields have the bounds. As long as no sum
wraps, each member function then represents the one on `Buffer`; in particular its assertions hold
(`Represents.makeSpace`, `Represents.ensureWritableBytes`, `Represents.append`, `Represents.shrink`). -/

namespace MuduoCpp11.Net

/-! ### Copies -/

section copies

variable {α : Type*}

/-- The bytes that `std::copy` reads. -/
def copyFrom (l : List α) (i n : ℕ) : Option (List α) :=
  if i + n ≤ l.length then some ((l.drop i).take n) else none

/-- The vector that `std::copy` leaves. -/
def copyTo (l : List α) (i : ℕ) (d : List α) : Option (List α) :=
  if i + d.length ≤ l.length then some (overwrite l i d) else none

end copies

structure RawBuffer where
  buffer : List UInt8
  readerIndex : UInt64
  writerIndex : UInt64
  deriving DecidableEq, Repr

namespace RawBuffer

/-- `kCheapPrepend` as a `size_t`. -/
def cheapPrepend : UInt64 := UInt64.ofNat kCheapPrepend

/-- `Buffer(size_t initial_size)` -/
def new (initialSize : UInt64) : RawBuffer where
  buffer := List.replicate (cheapPrepend + initialSize).toNat 0
  readerIndex := cheapPrepend
  writerIndex := cheapPrepend

variable (r : RawBuffer)

def size : UInt64 := UInt64.ofNat r.buffer.length

def readableBytes : UInt64 := r.writerIndex - r.readerIndex

def writableBytes : UInt64 := r.size - r.writerIndex

def prependableBytes : UInt64 := r.readerIndex

/-- The bytes from `Peek()` to `BeginWrite()`. -/
def peek : List UInt8 := (r.buffer.take r.writerIndex.toNat).drop r.readerIndex.toNat

/-- The `len` bytes behind `BeginWrite()`. -/
def beginWrite (len : UInt64) : List UInt8 := (r.buffer.drop r.writerIndex.toNat).take len.toNat

def retrieveAll : RawBuffer := { r with readerIndex := cheapPrepend, writerIndex := cheapPrepend }

def retrieve (len : UInt64) : Option RawBuffer :=
  if len ≤ r.readableBytes then
    some (if len < r.readableBytes then { r with readerIndex := r.readerIndex + len }
      else r.retrieveAll)
  else none

/-- `RetrieveUntil(end)`, `end` as an offset from `begin()`. -/
def retrieveUntil (till : UInt64) : Option RawBuffer :=
  if r.readerIndex ≤ till ∧ till ≤ r.writerIndex then r.retrieve (till - r.readerIndex) else none

def retrieveAsString (len : UInt64) : Option (List UInt8 × RawBuffer) :=
  if len ≤ r.readableBytes then do
    let result ← copyFrom r.buffer r.readerIndex.toNat len.toNat
    let r ← r.retrieve len
    some (result, r)
  else none

def makeSpace (len : UInt64) : Option RawBuffer :=
  if r.writableBytes + r.prependableBytes < len + cheapPrepend then
    some { r with buffer := resize r.buffer (r.writerIndex + len).toNat 0 }
  else if cheapPrepend < r.readerIndex then do
    let readable := r.readableBytes
    let data ← copyFrom r.buffer r.readerIndex.toNat readable.toNat
    let buffer ← copyTo r.buffer cheapPrepend.toNat data
    let r : RawBuffer := ⟨buffer, cheapPrepend, cheapPrepend + readable⟩
    if readable = r.readableBytes then some r else none
  else none

def ensureWritableBytes (len : UInt64) : Option RawBuffer :=
  (if r.writableBytes < len then r.makeSpace len else some r).bind fun r =>
    if r.writableBytes ≥ len then some r else none

/-- A store of the caller, `offset` bytes behind `BeginWrite()`. -/
def store (offset : ℕ) (data : List UInt8) : Option RawBuffer :=
  (copyTo r.buffer (r.writerIndex.toNat + offset) data).map fun buffer => { r with buffer }

def hasWritten (len : UInt64) : Option RawBuffer :=
  if len ≤ r.writableBytes then some { r with writerIndex := r.writerIndex + len } else none

def unwrite (len : UInt64) : Option RawBuffer :=
  if len ≤ r.readableBytes then some { r with writerIndex := r.writerIndex - len } else none

/-- `Append(data, len)` -/
def append (data : List UInt8) : Option RawBuffer := do
  let len := UInt64.ofNat data.length
  let r ← r.ensureWritableBytes len
  let r ← r.store 0 data
  r.hasWritten len

def prepend (data : List UInt8) : Option RawBuffer :=
  let len := UInt64.ofNat data.length
  if len ≤ r.prependableBytes then
    let readerIndex := r.readerIndex - len
    (copyTo r.buffer readerIndex.toNat data).map fun buffer => { r with buffer, readerIndex }
  else none

/-- `ToStringPiece`: the length goes through an `int` and back to a `size_t`. -/
def toStringPiece : Option (List UInt8) :=
  copyFrom r.buffer r.readerIndex.toNat r.readableBytes.toUInt32.toInt32.toInt64.toUInt64.toNat

def shrink (reserve : UInt64) : Option RawBuffer := do
  let other ← (new (UInt64.ofNat kInitialSize)).ensureWritableBytes (r.readableBytes + reserve)
  let str ← r.toStringPiece
  other.append str

/-! ### Words as numbers -/

@[simp] theorem toNat_cheapPrepend : cheapPrepend.toNat = kCheapPrepend := rfl

theorem toNat_add {m n : UInt64} (h : m.toNat + n.toNat < 2 ^ 64) :
    (m + n).toNat = m.toNat + n.toNat := by
  rw [UInt64.toNat_add, Nat.mod_eq_of_lt h]

theorem toNat_sub {m n : UInt64} (h : n.toNat ≤ m.toNat) : (m - n).toNat = m.toNat - n.toNat :=
  UInt64.toNat_sub_of_le m n (UInt64.le_iff_toNat_le.mpr h)

theorem toNat_ofNat {n : ℕ} (h : n < 2 ^ 64) : (UInt64.ofNat n).toNat = n :=
  UInt64.toNat_ofNat_of_lt' h

/-- A length below `2 ^ 31` fits an `int`. -/
theorem toNat_int {n : UInt64} (h : n.toNat < 2 ^ 31) :
    n.toUInt32.toInt32.toInt64.toUInt64.toNat = n.toNat := by
  have hlow : n.toUInt32.toBitVec.toNat = n.toNat := by
    simp
    omega
  have hmsb : n.toUInt32.toBitVec.msb = false := by
    rw [BitVec.msb_eq_false_iff_two_mul_lt, hlow]
    omega
  have hext : n.toUInt32.toInt32.toInt64.toUInt64.toBitVec = n.toUInt32.toBitVec.signExtend 64 := rfl
  rw [← UInt64.toNat_toBitVec, hext, BitVec.toNat_signExtend, hmsb, BitVec.toNat_setWidth, hlow]
  simp

/-- The assertions of the constructor hold, whether the sum wraps or not. -/
theorem new_asserts (n : UInt64) : (new n).readableBytes = 0 ∧ (new n).writableBytes = n ∧
    (new n).prependableBytes = cheapPrepend := by
  refine ⟨by simp [new, readableBytes], ?_, rfl⟩
  unfold writableBytes size
  simp only [new, List.length_replicate, UInt64.ofNat_toNat]
  rw [UInt64.add_comm, UInt64.add_sub_cancel]

/-! ### The words of a buffer -/

/-- The members are those of `b`. -/
structure Represents (r : RawBuffer) (b : Buffer) : Prop where
  buffer : r.buffer = b.buffer
  reader : r.readerIndex.toNat = b.readerIndex
  writer : r.writerIndex.toNat = b.writerIndex
  size : b.buffer.length < 2 ^ 64

theorem represents_new {n : UInt64} (hn : kCheapPrepend + n.toNat < 2 ^ 64) :
    (new n).Represents (Buffer.new n.toNat) where
  buffer := by
    simp only [new, Buffer.new]
    rw [toNat_add (by rwa [toNat_cheapPrepend]), toNat_cheapPrepend]
  reader := rfl
  writer := rfl
  size := by simpa [Buffer.new] using hn

namespace Represents

variable {r : RawBuffer} {b : Buffer} (h : r.Represents b)
include h

theorem toNat_size : r.size.toNat = b.buffer.length := by
  unfold RawBuffer.size
  rw [h.buffer, toNat_ofNat h.size]

theorem peek : r.peek = b.peek := by
  unfold RawBuffer.peek Buffer.peek
  rw [h.buffer, h.reader, h.writer]

theorem beginWrite (len : UInt64) : r.beginWrite len = b.beginWrite len.toNat := by
  unfold RawBuffer.beginWrite Buffer.beginWrite
  rw [h.buffer, h.writer]

theorem readableBytes : r.readableBytes.toNat = b.readableBytes := by
  have := b.reader_le
  unfold RawBuffer.readableBytes Buffer.readableBytes
  rw [toNat_sub (by rw [h.reader, h.writer]; omega), h.reader, h.writer]

theorem writableBytes : r.writableBytes.toNat = b.writableBytes := by
  have := b.writer_le
  unfold RawBuffer.writableBytes Buffer.writableBytes
  rw [toNat_sub (by rw [h.writer, h.toNat_size]; omega), h.writer, h.toNat_size]

theorem prependableBytes : r.prependableBytes.toNat = b.prependableBytes := h.reader

theorem le_readableBytes {len : UInt64} :
    len ≤ r.readableBytes ↔ len.toNat ≤ b.readableBytes := by
  rw [UInt64.le_iff_toNat_le, h.readableBytes]

theorem lt_readableBytes {len : UInt64} :
    len < r.readableBytes ↔ len.toNat < b.readableBytes := by
  rw [UInt64.lt_iff_toNat_lt, h.readableBytes]

theorem le_writableBytes {len : UInt64} :
    len ≤ r.writableBytes ↔ len.toNat ≤ b.writableBytes := by
  rw [UInt64.le_iff_toNat_le, h.writableBytes]

/-- The readable bytes are in the vector. -/
theorem copyFrom {n : ℕ} (hn : n ≤ b.readableBytes) :
    Net.copyFrom r.buffer r.readerIndex.toNat n = some (b.peek.take n) := by
  have := b.reader_le; have := b.writer_le
  unfold Buffer.readableBytes at hn
  unfold Net.copyFrom
  rw [h.buffer, h.reader, if_pos (by omega)]
  congr 1
  rw [Buffer.peek, List.drop_take, List.take_take, min_eq_left hn]

theorem copyTo {i : ℕ} {data : List UInt8} (hi : i + data.length ≤ b.buffer.length) :
    Net.copyTo r.buffer i data = some (overwrite b.buffer i data) := by
  unfold Net.copyTo
  rw [h.buffer, if_pos hi]

/-! ### The member functions -/

theorem retrieveAll : r.retrieveAll.Represents b.retrieveAll where
  buffer := h.buffer
  reader := rfl
  writer := rfl
  size := h.size

theorem retrieve {len : UInt64} (hlen : len ≤ r.readableBytes) :
    ∃ r', r.retrieve len = some r' ∧ r'.Represents (b.retrieve len.toNat) := by
  have := b.reader_le; have := b.writer_le; have := h.size
  unfold RawBuffer.retrieve Buffer.retrieve
  rw [if_pos hlen]
  by_cases hlt : len.toNat < b.readableBytes
  · rw [if_pos (h.lt_readableBytes.mpr hlt), dif_pos hlt]
    refine ⟨_, rfl, h.buffer, ?_, h.writer, h.size⟩
    unfold Buffer.readableBytes at hlt
    have hreader := h.reader
    show (r.readerIndex + len).toNat = b.readerIndex + len.toNat
    rw [toNat_add (by omega), hreader]
  · rw [if_neg fun hc => hlt (h.lt_readableBytes.mp hc), dif_neg hlt]
    exact ⟨_, rfl, h.retrieveAll⟩

theorem retrieveUntil {till : UInt64} (htill : r.readerIndex ≤ till ∧ till ≤ r.writerIndex) :
    ∃ r', r.retrieveUntil till = some r' ∧
      r'.Represents (b.retrieveUntil (till.toNat - b.readerIndex)) := by
  obtain ⟨hge, hle⟩ := htill
  have hnat : (till - r.readerIndex).toNat = till.toNat - b.readerIndex := by
    rw [toNat_sub (UInt64.le_iff_toNat_le.mp hge), h.reader]
  have hlen : till - r.readerIndex ≤ r.readableBytes := by
    rw [UInt64.le_iff_toNat_le, h.writer] at hle
    rw [h.le_readableBytes, hnat]
    unfold Buffer.readableBytes
    omega
  unfold RawBuffer.retrieveUntil Buffer.retrieveUntil
  rw [if_pos ⟨hge, hle⟩, ← hnat]
  exact h.retrieve hlen

theorem retrieveAsString {len : UInt64} (hlen : len ≤ r.readableBytes) :
    ∃ r', r.retrieveAsString len = some (b.peek.take len.toNat, r') ∧
      r'.Represents (b.retrieve len.toNat) := by
  obtain ⟨r', hr, h'⟩ := h.retrieve hlen
  refine ⟨r', ?_, h'⟩
  unfold RawBuffer.retrieveAsString
  rw [if_pos hlen, h.copyFrom (h.le_readableBytes.mp hlen), hr]
  rfl

theorem store (offset : ℕ) (data : List UInt8) (hd : offset + data.length ≤ b.writableBytes) :
    ∃ r', r.store offset data = some r' ∧ r'.Represents (b.store offset data hd) := by
  have := b.writer_le
  have hle : b.writerIndex + offset + data.length ≤ b.buffer.length := by
    unfold Buffer.writableBytes at hd
    omega
  unfold RawBuffer.store
  rw [h.writer, h.copyTo hle, Option.map_some]
  refine ⟨_, rfl, rfl, h.reader, h.writer, ?_⟩
  show (overwrite b.buffer (b.writerIndex + offset) data).length < 2 ^ 64
  rw [length_overwrite hle]
  exact h.size

theorem hasWritten {len : UInt64} (hlen : len.toNat ≤ b.writableBytes) :
    ∃ r', r.hasWritten len = some r' ∧ r'.Represents (b.hasWritten len.toNat hlen) := by
  have := b.writer_le; have hsize := h.size; have hwriter := h.writer
  unfold RawBuffer.hasWritten
  rw [if_pos (h.le_writableBytes.mpr hlen)]
  refine ⟨_, rfl, h.buffer, h.reader, ?_, h.size⟩
  unfold Buffer.writableBytes at hlen
  show (r.writerIndex + len).toNat = b.writerIndex + len.toNat
  rw [toNat_add (by omega), hwriter]

theorem unwrite {len : UInt64} (hlen : len.toNat ≤ b.readableBytes) :
    ∃ r', r.unwrite len = some r' ∧ r'.Represents (b.unwrite len.toNat hlen) := by
  have hwriter := h.writer
  unfold RawBuffer.unwrite
  rw [if_pos (h.le_readableBytes.mpr hlen)]
  refine ⟨_, rfl, h.buffer, h.reader, ?_, h.size⟩
  unfold Buffer.readableBytes at hlen
  show (r.writerIndex - len).toNat = b.writerIndex - len.toNat
  rw [toNat_sub (by omega), hwriter]

theorem prepend {data : List UInt8} (hd : data.length ≤ b.prependableBytes) :
    ∃ r', r.prepend data = some r' ∧ r'.Represents (b.prepend data hd) := by
  have := b.reader_le; have := b.writer_le; have := h.size
  have hreader := h.reader
  unfold Buffer.prependableBytes at hd
  have hlen : (UInt64.ofNat data.length).toNat = data.length := toNat_ofNat (by omega)
  have hnat : (r.readerIndex - UInt64.ofNat data.length).toNat = b.readerIndex - data.length := by
    rw [toNat_sub (by omega), hreader, hlen]
  have hle : b.readerIndex - data.length + data.length ≤ b.buffer.length := by omega
  have hassert : UInt64.ofNat data.length ≤ r.prependableBytes := by
    rw [UInt64.le_iff_toNat_le, h.prependableBytes, hlen]
    exact hd
  unfold RawBuffer.prepend
  simp only
  rw [if_pos hassert, hnat, h.copyTo hle, Option.map_some]
  refine ⟨_, rfl, rfl, hnat, h.writer, ?_⟩
  show (overwrite b.buffer (b.readerIndex - data.length) data).length < 2 ^ 64
  rw [length_overwrite hle]
  exact h.size

/-- The test of `MakeSpace`. -/
theorem lt_makeSpace {len : UInt64} (hlen : len.toNat + kCheapPrepend < 2 ^ 64) :
    r.writableBytes + r.prependableBytes < len + cheapPrepend ↔
      b.writableBytes + b.prependableBytes < len.toNat + kCheapPrepend := by
  have := b.reader_le; have := b.writer_le; have := h.size
  have hwritable := h.writableBytes; have hprependable := h.prependableBytes
  have hsum : (r.writableBytes + r.prependableBytes).toNat = b.writableBytes + b.prependableBytes := by
    unfold Buffer.writableBytes Buffer.prependableBytes at *
    rw [toNat_add (by omega), hwritable, hprependable]
  rw [UInt64.lt_iff_toNat_lt, hsum, toNat_add (by rwa [toNat_cheapPrepend]), toNat_cheapPrepend]

/-- Both assertions of `MakeSpace` hold: where the bytes in front make up for the missing space there
are more than `kCheapPrepend` of them. -/
theorem makeSpace {len : UInt64} (hlen : b.writableBytes < len.toNat)
    (hneed : len.toNat + kCheapPrepend < 2 ^ 64) (hw : b.writerIndex + len.toNat < 2 ^ 64) :
    ∃ r', r.makeSpace len = some r' ∧ r'.Represents (b.makeSpace len.toNat hlen) := by
  have := b.reader_le; have := b.writer_le
  have hsize := h.size; have hreader := h.reader; have hwriter := h.writer
  unfold RawBuffer.makeSpace Buffer.makeSpace
  by_cases hs : b.writableBytes + b.prependableBytes < len.toNat + kCheapPrepend
  · rw [if_pos ((h.lt_makeSpace hneed).mpr hs), dif_pos hs]
    have hnew : (r.writerIndex + len).toNat = b.writerIndex + len.toNat := by
      rw [toNat_add (by omega), hwriter]
    refine ⟨_, rfl, ?_, hreader, hwriter, ?_⟩
    · show resize r.buffer (r.writerIndex + len).toNat 0 = resize b.buffer (b.writerIndex + len.toNat) 0
      rw [h.buffer, hnew]
    · show (resize b.buffer (b.writerIndex + len.toNat) 0).length < 2 ^ 64
      rw [length_resize]
      exact hw
  · rw [if_neg fun hc => hs ((h.lt_makeSpace hneed).mp hc), dif_neg hs]
    have hassert : cheapPrepend < r.readerIndex := by
      rw [UInt64.lt_iff_toNat_lt, toNat_cheapPrepend, hreader]
      unfold Buffer.prependableBytes at hs
      omega
    have hdata : Net.copyFrom r.buffer r.readerIndex.toNat r.readableBytes.toNat = some b.peek := by
      rw [h.copyFrom h.readableBytes.le, h.readableBytes, ← b.length_peek, List.take_length]
    have hfit : kCheapPrepend + b.peek.length ≤ b.buffer.length := by
      rw [b.length_peek]
      unfold Buffer.writableBytes Buffer.prependableBytes Buffer.readableBytes at *
      omega
    have hreadable : (⟨overwrite b.buffer kCheapPrepend b.peek, cheapPrepend,
        cheapPrepend + r.readableBytes⟩ : RawBuffer).readableBytes = r.readableBytes := by
      show cheapPrepend + r.readableBytes - cheapPrepend = r.readableBytes
      rw [UInt64.add_comm, UInt64.add_sub_cancel]
    have hnew : (cheapPrepend + r.readableBytes).toNat = kCheapPrepend + b.readableBytes := by
      rw [toNat_add (by rw [toNat_cheapPrepend, h.readableBytes, ← b.length_peek]; omega),
        toNat_cheapPrepend, h.readableBytes]
    rw [if_pos hassert]
    simp only [Option.bind_eq_bind, Option.bind_some, hdata, toNat_cheapPrepend, h.copyTo hfit]
    rw [if_pos hreadable.symm]
    refine ⟨_, rfl, rfl, rfl, hnew, ?_⟩
    show (overwrite b.buffer kCheapPrepend b.peek).length < 2 ^ 64
    rw [length_overwrite hfit]
    exact hsize

/-- The assertion of `EnsureWritableBytes` holds. -/
theorem ensureWritableBytes (len : UInt64) (hneed : len.toNat + kCheapPrepend < 2 ^ 64)
    (hw : b.writerIndex + len.toNat < 2 ^ 64) : ∃ r', r.ensureWritableBytes len = some r' ∧
      r'.Represents (b.ensureWritableBytes len.toNat) := by
  have hspace : ∃ r', (if r.writableBytes < len then r.makeSpace len else some r) = some r' ∧
      r'.Represents (b.ensureWritableBytes len.toNat) := by
    unfold Buffer.ensureWritableBytes
    by_cases hlen : b.writableBytes < len.toNat
    · rw [if_pos (by rwa [UInt64.lt_iff_toNat_lt, h.writableBytes]), dif_pos hlen]
      exact h.makeSpace hlen hneed hw
    · rw [if_neg (by rwa [UInt64.lt_iff_toNat_lt, h.writableBytes]), dif_neg hlen]
      exact ⟨r, rfl, h⟩
  obtain ⟨r', hr, h'⟩ := hspace
  refine ⟨r', ?_, h'⟩
  unfold RawBuffer.ensureWritableBytes
  rw [hr, Option.bind_some, if_pos]
  exact h'.le_writableBytes.mpr (b.le_writableBytes_ensureWritableBytes _)

/-- `Append` in a buffer with enough room. -/
theorem append_of_le {data : List UInt8} (hd : data.length ≤ b.writableBytes) :
    ∃ r', (r.store 0 data).bind (fun r => r.hasWritten (UInt64.ofNat data.length)) = some r' ∧
      r'.Represents (b.write data hd) := by
  have hsize := h.size
  have hlen : (UInt64.ofNat data.length).toNat = data.length := by
    unfold Buffer.writableBytes at hd
    exact toNat_ofNat (by omega)
  obtain ⟨r₁, hr₁, h₁⟩ := h.store 0 data (by omega)
  have hroom : (UInt64.ofNat data.length).toNat ≤ (b.store 0 data (by omega)).writableBytes := by
    rw [hlen, Buffer.writableBytes_store]
    exact hd
  obtain ⟨r', hr', h'⟩ := h₁.hasWritten hroom
  refine ⟨r', by rw [hr₁, Option.bind_some, hr'], ?_⟩
  simp only [hlen] at h'
  rwa [Buffer.write_eq]

theorem append (data : List UInt8) (hneed : data.length + kCheapPrepend < 2 ^ 64)
    (hw : b.writerIndex + data.length < 2 ^ 64) :
    ∃ r', r.append data = some r' ∧ r'.Represents (b.append data) := by
  have hlen : (UInt64.ofNat data.length).toNat = data.length := toNat_ofNat (by omega)
  obtain ⟨r₁, hr₁, h₁⟩ := h.ensureWritableBytes (UInt64.ofNat data.length) (by omega) (by omega)
  rw [hlen] at h₁
  obtain ⟨r', hr', h'⟩ := h₁.append_of_le (b.le_writableBytes_ensureWritableBytes data.length)
  refine ⟨r', ?_, h'⟩
  unfold RawBuffer.append
  simp only [Option.bind_eq_bind, hr₁, Option.bind_some]
  exact hr'

theorem toStringPiece (hlen : b.readableBytes < 2 ^ 31) : r.toStringPiece = some b.peek := by
  have hread := h.readableBytes
  have hint := toNat_int (n := r.readableBytes) (by omega)
  have hdata := h.copyFrom h.readableBytes.le
  unfold RawBuffer.toStringPiece
  rw [hint, hdata, hread, ← b.length_peek, List.take_length]


theorem shrink {reserve : UInt64} (hlen : b.readableBytes < 2 ^ 31)
    (hw : b.readableBytes + reserve.toNat + kCheapPrepend < 2 ^ 64) :
    ∃ r', r.shrink reserve = some r' ∧ r'.Represents (b.shrink reserve.toNat) := by
  have hread := h.readableBytes
  have hsum : (r.readableBytes + reserve).toNat = b.readableBytes + reserve.toNat := by
    rw [toNat_add (by omega), hread]
  have hinit : (UInt64.ofNat kInitialSize).toNat = kInitialSize := rfl
  have hnew : (RawBuffer.new (UInt64.ofNat kInitialSize)).Represents Buffer.new :=
    represents_new (by rw [hinit]; decide)
  obtain ⟨other, hother, h₁⟩ := hnew.ensureWritableBytes (r.readableBytes + reserve) (by omega)
    (by rw [hsum]; show kCheapPrepend + _ < _; omega)
  rw [hsum] at h₁
  have hroom : b.peek.length ≤
      (Buffer.new.ensureWritableBytes (b.readableBytes + reserve.toNat)).writableBytes := by
    have := Buffer.new.le_writableBytes_ensureWritableBytes (b.readableBytes + reserve.toNat)
    rw [b.length_peek]
    omega
  have hsize := h₁.size
  have hwriter := (Buffer.new.ensureWritableBytes (b.readableBytes + reserve.toNat)).writer_le
  have hlength := b.length_peek
  obtain ⟨r', hr', h'⟩ := h₁.append b.peek (by omega)
    (by unfold Buffer.writableBytes at hroom; omega)
  refine ⟨r', ?_, h'⟩
  unfold RawBuffer.shrink
  simp only [Option.bind_eq_bind, hother, h.toStringPiece hlen, Option.bind_some]
  exact hr'

end Represents

end RawBuffer

end MuduoCpp11.Net
