import MuduoCpp11.Lib.Search
import MuduoCpp11.Net.SocketsOps

/-! # The buffer

A `Buffer` is a vector of bytes with a read and a write index,

    `0 ≤ readerIndex ≤ writerIndex ≤ buffer.length`,

and at least `kCheapPrepend` bytes long; the bytes between the indices (`peek`) are the contents. The
inequalities are fields of the structure. Pointers into the buffer are offsets from `Peek()`.

The contents follow the operations: `Append` extends them at the back (`peek_append`), `Retrieve`
drops from the front (`peek_retrieve`), whatever the indices and the size of the vector are; making
space moves or resizes the vector and leaves them alone (`peek_ensureWritableBytes`). `HasWritten` and
`Unwrite` move the end of the contents, `Prepend` writes in front of them. -/

namespace MuduoCpp11.Net

open MuduoCpp11.Lib.Search

def kCheapPrepend : ℕ := 8

def kInitialSize : ℕ := 1024

/-- `"\r\n"` -/
def kCRLF : List UInt8 := [13, 10]

theorem kCRLF_ne_nil : kCRLF ≠ [] := by decide

/-! ### The vector -/

section vector

variable {α : Type*}

/-- `std::copy(d.begin(), d.end(), l.begin() + i)` -/
def overwrite (l : List α) (i : ℕ) (d : List α) : List α := l.take i ++ d ++ l.drop (i + d.length)

/-- `std::vector::resize` -/
def resize (l : List α) (n : ℕ) (z : α) : List α := l.take n ++ List.replicate (n - l.length) z

theorem length_overwrite {l d : List α} {i : ℕ} (h : i + d.length ≤ l.length) :
    (overwrite l i d).length = l.length := by
  simp [overwrite]; omega

theorem take_overwrite {l d : List α} {i : ℕ} (h : i ≤ l.length) :
    (overwrite l i d).take (i + d.length) = l.take i ++ d := by
  have hl : (l.take i ++ d).length = i + d.length := by simp; omega
  unfold overwrite
  rw [← hl, List.take_left]

theorem take_overwrite_of_le {l d : List α} {i w : ℕ} (hw : w ≤ i) (h : i ≤ l.length) :
    (overwrite l i d).take w = l.take w := by
  unfold overwrite
  rw [List.append_assoc, List.take_append_of_le_length (by simp; omega), List.take_take,
    min_eq_left hw]

theorem drop_overwrite {l d : List α} {i : ℕ} (h : i ≤ l.length) :
    (overwrite l i d).drop i = d ++ l.drop (i + d.length) := by
  unfold overwrite
  rw [List.append_assoc, List.drop_append_of_le_length (by simp; omega),
    List.drop_eq_nil_of_le (by simp), List.nil_append]

theorem length_resize (l : List α) (n : ℕ) (z : α) : (resize l n z).length = n := by
  simp [resize]; omega

theorem take_resize {l : List α} {n w : ℕ} (hw : w ≤ l.length) (hn : l.length ≤ n) (z : α) :
    (resize l n z).take w = l.take w := by
  unfold resize
  rw [List.take_append_of_le_length (by simp; omega), List.take_take, min_eq_left (by omega)]

end vector

/-! ### The class -/

structure Buffer where
  buffer : List UInt8
  readerIndex : ℕ
  writerIndex : ℕ
  cheapPrepend_le : kCheapPrepend ≤ buffer.length
  reader_le : readerIndex ≤ writerIndex
  writer_le : writerIndex ≤ buffer.length

namespace Buffer

/-- `Buffer(size_t initial_size = kInitialSize)` -/
def new (initialSize : ℕ := kInitialSize) : Buffer where
  buffer := List.replicate (kCheapPrepend + initialSize) 0
  readerIndex := kCheapPrepend
  writerIndex := kCheapPrepend
  cheapPrepend_le := by simp
  reader_le := le_rfl
  writer_le := by simp

variable (b : Buffer)

def readableBytes : ℕ := b.writerIndex - b.readerIndex

def writableBytes : ℕ := b.buffer.length - b.writerIndex

def prependableBytes : ℕ := b.readerIndex

/-- The bytes from `Peek()` to `BeginWrite()`. -/
def peek : List UInt8 := (b.buffer.take b.writerIndex).drop b.readerIndex

/-- `FindCRLF`: the offset of the first CRLF, if any. -/
def findCRLF : Option ℕ :=
  let crlf := search kCRLF b.peek
  if crlf = b.peek.length then none else some crlf

def retrieveAll : Buffer where
  buffer := b.buffer
  readerIndex := kCheapPrepend
  writerIndex := kCheapPrepend
  cheapPrepend_le := b.cheapPrepend_le
  reader_le := le_rfl
  writer_le := b.cheapPrepend_le

def retrieve (len : ℕ) : Buffer :=
  if h : len < b.readableBytes then
    { b with
      readerIndex := b.readerIndex + len
      reader_le := by unfold readableBytes at h; omega }
  else b.retrieveAll

/-- `RetrieveUntil(end)`, `end` as an offset from `Peek()`. -/
def retrieveUntil (till : ℕ) : Buffer := b.retrieve till

/-- `MakeSpace`, called when fewer than `len` bytes are writable. -/
def makeSpace (len : ℕ) (h : b.writableBytes < len) : Buffer :=
  if hs : b.writableBytes + b.prependableBytes < len + kCheapPrepend then
    { b with
      buffer := resize b.buffer (b.writerIndex + len) 0
      cheapPrepend_le := by
        have := b.cheapPrepend_le
        unfold writableBytes at h
        rw [length_resize]; omega
      writer_le := by rw [length_resize]; omega }
  else
    have hfit : kCheapPrepend + b.peek.length ≤ b.buffer.length := by
      have := b.reader_le; have := b.writer_le
      simp only [writableBytes, prependableBytes] at h hs
      simp only [peek, List.length_drop, List.length_take]
      omega
    { buffer := overwrite b.buffer kCheapPrepend b.peek
      readerIndex := kCheapPrepend
      writerIndex := kCheapPrepend + b.readableBytes
      cheapPrepend_le := by rw [length_overwrite hfit]; exact b.cheapPrepend_le
      reader_le := by omega
      writer_le := by
        rw [length_overwrite hfit]
        have : b.peek.length = b.readableBytes := by
          simp [peek, readableBytes, min_eq_left b.writer_le]
        omega }

def ensureWritableBytes (len : ℕ) : Buffer :=
  if h : b.writableBytes < len then b.makeSpace len h else b

/-- The bytes `data` stored at `BeginWrite()`, then `HasWritten(data.size())`. -/
def write (data : List UInt8) (h : data.length ≤ b.writableBytes) : Buffer where
  buffer := overwrite b.buffer b.writerIndex data
  readerIndex := b.readerIndex
  writerIndex := b.writerIndex + data.length
  cheapPrepend_le := by
    have := b.writer_le
    unfold writableBytes at h
    rw [length_overwrite (by omega)]; exact b.cheapPrepend_le
  reader_le := by have := b.reader_le; omega
  writer_le := by
    have := b.writer_le
    unfold writableBytes at h
    rw [length_overwrite (by omega)]; omega

theorem length_peek : b.peek.length = b.readableBytes := by
  simp [peek, readableBytes, min_eq_left b.writer_le]

/-- The assertion of `EnsureWritableBytes`. -/
theorem le_writableBytes_ensureWritableBytes (len : ℕ) :
    len ≤ (b.ensureWritableBytes len).writableBytes := by
  unfold ensureWritableBytes
  split_ifs with h
  · unfold makeSpace
    split_ifs with hs
    · simp [writableBytes, length_resize]
    · have := b.reader_le; have := b.writer_le
      have hl := b.length_peek
      simp only [writableBytes, prependableBytes] at h hs ⊢
      rw [length_overwrite (by rw [hl]; unfold readableBytes; omega)]
      unfold readableBytes
      omega
  · omega

/-- `Append(data, len)` -/
def append (data : List UInt8) : Buffer :=
  (b.ensureWritableBytes data.length).write data (b.le_writableBytes_ensureWritableBytes _)

/-- The `len` bytes behind `BeginWrite()`. -/
def beginWrite (len : ℕ) : List UInt8 := (b.buffer.drop b.writerIndex).take len

/-- A store into the writable bytes, `offset` bytes behind `BeginWrite()`. -/
def store (offset : ℕ) (data : List UInt8) (h : offset + data.length ≤ b.writableBytes) : Buffer where
  buffer := overwrite b.buffer (b.writerIndex + offset) data
  readerIndex := b.readerIndex
  writerIndex := b.writerIndex
  cheapPrepend_le := by
    have := b.writer_le
    unfold writableBytes at h
    rw [length_overwrite (by omega)]; exact b.cheapPrepend_le
  reader_le := b.reader_le
  writer_le := by
    have := b.writer_le
    unfold writableBytes at h
    rw [length_overwrite (by omega)]; exact b.writer_le

def hasWritten (len : ℕ) (h : len ≤ b.writableBytes) : Buffer :=
  { b with
    writerIndex := b.writerIndex + len
    reader_le := by have := b.reader_le; omega
    writer_le := by have := b.writer_le; unfold writableBytes at h; omega }

theorem writableBytes_store (offset : ℕ) (data : List UInt8)
    (h : offset + data.length ≤ b.writableBytes) :
    (b.store offset data h).writableBytes = b.writableBytes := by
  have := b.writer_le
  unfold writableBytes at h ⊢
  simp only [store]
  rw [length_overwrite (by omega)]

theorem write_eq (data : List UInt8) (h : data.length ≤ b.writableBytes) :
    b.write data h = (b.store 0 data (by omega)).hasWritten data.length
      (by rw [writableBytes_store]; exact h) := rfl

def unwrite (len : ℕ) (h : len ≤ b.readableBytes) : Buffer :=
  { b with
    writerIndex := b.writerIndex - len
    reader_le := by have := b.reader_le; unfold readableBytes at h; omega
    writer_le := by have := b.writer_le; omega }

def prepend (data : List UInt8) (h : data.length ≤ b.prependableBytes) : Buffer where
  buffer := overwrite b.buffer (b.readerIndex - data.length) data
  readerIndex := b.readerIndex - data.length
  writerIndex := b.writerIndex
  cheapPrepend_le := by
    have := b.reader_le; have := b.writer_le
    unfold prependableBytes at h
    rw [length_overwrite (by omega)]; exact b.cheapPrepend_le
  reader_le := by have := b.reader_le; omega
  writer_le := by
    have := b.reader_le; have := b.writer_le
    unfold prependableBytes at h
    rw [length_overwrite (by omega)]; exact b.writer_le

/-- `Shrink(reserve)`: the contents in another buffer, which is then swapped in. -/
def shrink (reserve : ℕ) : Buffer :=
  (new.ensureWritableBytes (b.readableBytes + reserve)).append b.peek

/-- The bytes `readv` can deliver: the writable region, and a stack buffer behind it when that
region is small. -/
def readvOffered : ℕ :=
  if b.writableBytes < 65536 then b.writableBytes + 65536 else b.writableBytes

/-- `ReadFd`: the buffer afterwards, and the bytes read or the saved `errno`. -/
def readFd (r : ReadResult) : Buffer × ReadResult :=
  match r with
  | .error e => (b, .error e)
  | .bytes data =>
    let data := data.take b.readvOffered
    if h : data.length ≤ b.writableBytes then (b.write data h, .bytes data)
    else
      ((b.write (data.take b.writableBytes) (by simp)).append (data.drop b.writableBytes),
        .bytes data)

/-! ### The contents -/

@[simp] theorem peek_new (n : ℕ) : (new n).peek = [] := by
  simp [peek, new, List.take_replicate]

@[simp] theorem peek_retrieveAll : b.retrieveAll.peek = [] := by
  have := b.cheapPrepend_le
  simp [peek, retrieveAll]

/-- **`Retrieve` drops from the front.** -/
@[simp] theorem peek_retrieve (len : ℕ) : (b.retrieve len).peek = b.peek.drop len := by
  unfold retrieve
  split_ifs with h
  · simp [peek, List.drop_drop]
  · rw [peek_retrieveAll, List.drop_eq_nil_of_le]
    rw [length_peek]; omega

@[simp] theorem peek_retrieveUntil (till : ℕ) : (b.retrieveUntil till).peek = b.peek.drop till :=
  b.peek_retrieve till

theorem peek_makeSpace (len : ℕ) (h : b.writableBytes < len) : (b.makeSpace len h).peek = b.peek := by
  have hl := b.length_peek
  unfold makeSpace
  split_ifs with hs
  · have := b.writer_le
    simp only [writableBytes] at h
    simp only [peek]
    rw [take_resize b.writer_le (by omega)]
  · change ((overwrite b.buffer kCheapPrepend b.peek).take (kCheapPrepend + b.readableBytes)).drop
      kCheapPrepend = b.peek
    have hc : (b.buffer.take kCheapPrepend).length = kCheapPrepend := by
      simp [min_eq_left b.cheapPrepend_le]
    rw [← hl, take_overwrite b.cheapPrepend_le, List.drop_append_of_le_length hc.ge,
      List.drop_eq_nil_of_le hc.le, List.nil_append]

@[simp] theorem peek_ensureWritableBytes (len : ℕ) : (b.ensureWritableBytes len).peek = b.peek := by
  unfold ensureWritableBytes
  split_ifs with h
  · exact b.peek_makeSpace len h
  · rfl

theorem peek_write (data : List UInt8) (h : data.length ≤ b.writableBytes) :
    (b.write data h).peek = b.peek ++ data := by
  have := b.reader_le; have := b.writer_le
  simp only [peek, write]
  rw [take_overwrite b.writer_le, List.drop_append_of_le_length (by simp; omega)]

/-- **`Append` extends the contents at the back.** -/
@[simp] theorem peek_append (data : List UInt8) : (b.append data).peek = b.peek ++ data := by
  unfold append
  rw [peek_write, peek_ensureWritableBytes]

theorem peek_store (offset : ℕ) (data : List UInt8) (h : offset + data.length ≤ b.writableBytes) :
    (b.store offset data h).peek = b.peek := by
  have := b.writer_le
  unfold writableBytes at h
  simp only [peek, store]
  rw [take_overwrite_of_le (by omega) (by omega)]

theorem peek_hasWritten (len : ℕ) (h : len ≤ b.writableBytes) :
    (b.hasWritten len h).peek = b.peek ++ b.beginWrite len := by
  have := b.reader_le; have := b.writer_le
  simp only [peek, hasWritten, beginWrite]
  rw [List.take_add, List.drop_append_of_le_length (by simp; omega)]

theorem peek_unwrite (len : ℕ) (h : len ≤ b.readableBytes) :
    (b.unwrite len h).peek = b.peek.take (b.peek.length - len) := by
  have := b.reader_le
  have hl := b.length_peek
  unfold readableBytes at h hl
  rw [hl]
  simp only [peek, unwrite, List.take_drop, List.take_take]
  congr 2
  omega

theorem peek_prepend (data : List UInt8) (h : data.length ≤ b.prependableBytes) :
    (b.prepend data h).peek = data ++ b.peek := by
  have := b.reader_le; have := b.writer_le
  unfold prependableBytes at h
  have hr : b.readerIndex - data.length + data.length = b.readerIndex := by omega
  have hw : b.writerIndex - (b.readerIndex - data.length) =
      data.length + (b.writerIndex - b.readerIndex) := by omega
  simp only [peek, prepend]
  rw [List.drop_take, drop_overwrite (by omega), hr, hw, List.take_length_add_append,
    List.drop_take]

/-- **`Shrink` leaves the contents alone.** -/
@[simp] theorem peek_shrink (reserve : ℕ) : (b.shrink reserve).peek = b.peek := by
  unfold shrink
  rw [peek_append, peek_ensureWritableBytes, peek_new, List.nil_append]

theorem ensureWritableBytes_eq_self {len : ℕ} (h : len ≤ b.writableBytes) :
    b.ensureWritableBytes len = b := by
  unfold ensureWritableBytes
  rw [dif_neg (by omega)]

theorem writableBytes_write (data : List UInt8) (h : data.length ≤ b.writableBytes) :
    (b.write data h).writableBytes = b.writableBytes - data.length := by
  have := b.writer_le
  unfold writableBytes at h ⊢
  simp only [write]
  rw [length_overwrite (by omega)]
  omega

/-- `Shrink` leaves room for `reserve` bytes. -/
theorem le_writableBytes_shrink (reserve : ℕ) : reserve ≤ (b.shrink reserve).writableBytes := by
  have h := new.le_writableBytes_ensureWritableBytes (b.readableBytes + reserve)
  have hl := b.length_peek
  unfold shrink append
  rw [writableBytes_write, ensureWritableBytes_eq_self _ (by omega)]
  omega

theorem readableBytes_append (data : List UInt8) :
    (b.append data).readableBytes = b.readableBytes + data.length := by
  simp [← length_peek]

theorem readableBytes_eq_zero : b.readableBytes = 0 ↔ b.peek = [] := by
  rw [← length_peek, List.length_eq_zero_iff]

/-- `FindCRLF` finds the end of the first line of the contents. -/
theorem findCRLF_eq : b.findCRLF = (cut kCRLF b.peek).map fun c => c.1.length := by
  have hle : search kCRLF b.peek ≤ b.peek.length := search_le b.peek
  simp only [findCRLF, cut]
  rcases eq_or_lt_of_le hle with h | h
  · simp [h]
  · rw [if_neg (by omega), if_pos h]
    simp; omega

end Buffer

end MuduoCpp11.Net
