import MuduoCpp11.Lib.Endian
import MuduoCpp11.Net.Buffer

/-! # Integers in network byte order

`AppendInt8` to `AppendInt64` and `PrependInt8` to `PrependInt64` write an integer in front of or behind
the contents, `ReadInt8` to `ReadInt64` take one out. The wider ones go through the unsigned swaps of
the host; the conversions between signed and unsigned keep the bits. `none` is a failed assertion.

An integer of `n` bytes is written as its `n` bytes in two's complement, the most significant first
(`peek_appendInt`, `peek_prependInt`), and where such bytes lead the contents it is read back
(`readInt_of_peek`); so sequences of integers of any widths come back as they were written
(`network_ints_round_trip`). -/

namespace MuduoCpp11.Net

open MuduoCpp11.Lib.Endian

/-! ### The conversions of `endian.h` -/

section endian

variable (host : ByteOrder)

def hostToNetwork64 (host64 : UInt64) : UInt64 := UInt64.ofNat (host.htobe 8 host64.toNat)

def hostToNetwork32 (host32 : UInt32) : UInt32 := UInt32.ofNat (host.htobe 4 host32.toNat)

def hostToNetwork16 (host16 : UInt16) : UInt16 := UInt16.ofNat (host.htobe 2 host16.toNat)

def networkToHost64 (net64 : UInt64) : UInt64 := UInt64.ofNat (host.betoh 8 net64.toNat)

def networkToHost32 (net32 : UInt32) : UInt32 := UInt32.ofNat (host.betoh 4 net32.toNat)

def networkToHost16 (net16 : UInt16) : UInt16 := UInt16.ofNat (host.betoh 2 net16.toNat)

end endian

namespace Buffer

variable (host : ByteOrder) (b : Buffer)

/-! ### The members of `Buffer` -/

def retrieveInt64 : Buffer := b.retrieve 8

def retrieveInt32 : Buffer := b.retrieve 4

def retrieveInt16 : Buffer := b.retrieve 2

def retrieveInt8 : Buffer := b.retrieve 1

/-- `Append(&be, sizeof be)` -/
def appendWord (size be : ℕ) : Buffer := b.append (host.bytes size be)

/-- The assertion, then `memcpy(&be, Peek(), sizeof be)`. -/
def peekWord (size : ℕ) : Option ℕ :=
  if size ≤ b.readableBytes then some (host.load (b.peek.take size)) else none

/-- `Prepend(&be, sizeof be)` -/
def prependWord (size be : ℕ) (h : size ≤ b.prependableBytes) : Buffer :=
  b.prepend (host.bytes size be) (by rw [ByteOrder.length_bytes]; exact h)

def appendInt64 (x : Int64) : Buffer :=
  let be64 : Int64 := (hostToNetwork64 host x.toUInt64).toInt64
  b.appendWord host 8 be64.toUInt64.toNat

def appendInt32 (x : Int32) : Buffer :=
  let be32 : Int32 := (hostToNetwork32 host x.toUInt32).toInt32
  b.appendWord host 4 be32.toUInt32.toNat

def appendInt16 (x : Int16) : Buffer :=
  let be16 : Int16 := (hostToNetwork16 host x.toUInt16).toInt16
  b.appendWord host 2 be16.toUInt16.toNat

def appendInt8 (x : Int8) : Buffer := b.appendWord host 1 x.toUInt8.toNat

def peekInt64 : Option Int64 :=
  (b.peekWord host 8).map fun w =>
    let be64 : Int64 := (UInt64.ofNat w).toInt64
    (networkToHost64 host be64.toUInt64).toInt64

def peekInt32 : Option Int32 :=
  (b.peekWord host 4).map fun w =>
    let be32 : Int32 := (UInt32.ofNat w).toInt32
    (networkToHost32 host be32.toUInt32).toInt32

def peekInt16 : Option Int16 :=
  (b.peekWord host 2).map fun w =>
    let be16 : Int16 := (UInt16.ofNat w).toInt16
    (networkToHost16 host be16.toUInt16).toInt16

/-- `int8_t x = *Peek()` -/
def peekInt8 : Option Int8 :=
  if 1 ≤ b.readableBytes then some (b.peek.headD 0).toInt8 else none

def readInt64 : Option (Int64 × Buffer) :=
  (b.peekInt64 host).map fun result => (result, b.retrieveInt64)

def readInt32 : Option (Int32 × Buffer) :=
  (b.peekInt32 host).map fun result => (result, b.retrieveInt32)

def readInt16 : Option (Int16 × Buffer) :=
  (b.peekInt16 host).map fun result => (result, b.retrieveInt16)

def readInt8 : Option (Int8 × Buffer) :=
  b.peekInt8.map fun result => (result, b.retrieveInt8)

def prependInt64 (x : Int64) (h : 8 ≤ b.prependableBytes) : Buffer :=
  let be64 : Int64 := (hostToNetwork64 host x.toUInt64).toInt64
  b.prependWord host 8 be64.toUInt64.toNat h

def prependInt32 (x : Int32) (h : 4 ≤ b.prependableBytes) : Buffer :=
  let be32 : Int32 := (hostToNetwork32 host x.toUInt32).toInt32
  b.prependWord host 4 be32.toUInt32.toNat h

def prependInt16 (x : Int16) (h : 2 ≤ b.prependableBytes) : Buffer :=
  let be16 : Int16 := (hostToNetwork16 host x.toUInt16).toInt16
  b.prependWord host 2 be16.toUInt16.toNat h

def prependInt8 (x : Int8) (h : 1 ≤ b.prependableBytes) : Buffer :=
  b.prependWord host 1 x.toUInt8.toNat h

end Buffer

/-! ### Integers of any width -/

inductive Width where
  | int8 | int16 | int32 | int64
  deriving DecidableEq, Repr

/-- `sizeof` -/
def Width.size : Width → ℕ
  | .int8 => 1
  | .int16 => 2
  | .int32 => 4
  | .int64 => 8

/-- An integer with its width. -/
inductive NetInt where
  | int8 (x : Int8)
  | int16 (x : Int16)
  | int32 (x : Int32)
  | int64 (x : Int64)
  deriving DecidableEq

namespace NetInt

def width : NetInt → Width
  | .int8 _ => .int8
  | .int16 _ => .int16
  | .int32 _ => .int32
  | .int64 _ => .int64

def toInt : NetInt → ℤ
  | .int8 x => x.toInt
  | .int16 x => x.toInt
  | .int32 x => x.toInt
  | .int64 x => x.toInt

/-- The unsigned integer with the same bits. -/
def toNat : NetInt → ℕ
  | .int8 x => x.toUInt8.toNat
  | .int16 x => x.toUInt16.toNat
  | .int32 x => x.toUInt32.toNat
  | .int64 x => x.toUInt64.toNat

/-- **The bytes of an integer in network byte order**: its width in two's complement, the most
significant first. -/
def bytes (x : NetInt) : List UInt8 := bigEndian x.width.size x.toInt

theorem toNat_eq (x : NetInt) : x.toNat = (x.toInt % 256 ^ x.width.size).toNat := by
  have hbits : ∀ {w : ℕ} (v : BitVec w), v.toNat = (v.toInt % 2 ^ w).toNat := by
    intro w v
    have h := BitVec.toNat_ofInt (n := w) v.toInt
    rw [BitVec.ofInt_toInt] at h
    exact_mod_cast h
  cases x with
  | int8 x => exact hbits x.toBitVec
  | int16 x => exact hbits x.toBitVec
  | int32 x => exact hbits x.toBitVec
  | int64 x => exact hbits x.toBitVec

theorem toNat_lt (x : NetInt) : x.toNat < 256 ^ x.width.size := by
  cases x with
  | int8 x => exact x.toUInt8.toNat_lt
  | int16 x => exact x.toUInt16.toNat_lt
  | int32 x => exact x.toUInt32.toNat_lt
  | int64 x => exact x.toUInt64.toNat_lt

theorem toBE_toNat (x : NetInt) : toBE x.width.size x.toNat = x.bytes := by
  rw [toNat_eq, toBE_toNat_emod, bytes]

@[simp] theorem length_bytes (x : NetInt) : x.bytes.length = x.width.size := by
  simp [bytes, bigEndian]

theorem ofBE_bytes (x : NetInt) : ofBE x.bytes = x.toNat := by
  rw [← toBE_toNat, ofBE_toBE, Nat.mod_eq_of_lt x.toNat_lt]

end NetInt

namespace Buffer

variable (host : ByteOrder) (b : Buffer)

def appendInt : NetInt → Buffer
  | .int8 x => b.appendInt8 host x
  | .int16 x => b.appendInt16 host x
  | .int32 x => b.appendInt32 host x
  | .int64 x => b.appendInt64 host x

def prependInt (x : NetInt) (h : x.width.size ≤ b.prependableBytes) : Buffer :=
  match x with
  | .int8 x => b.prependInt8 host x h
  | .int16 x => b.prependInt16 host x h
  | .int32 x => b.prependInt32 host x h
  | .int64 x => b.prependInt64 host x h

def readInt : Width → Option (NetInt × Buffer)
  | .int8 => b.readInt8.map fun r => (.int8 r.1, r.2)
  | .int16 => (b.readInt16 host).map fun r => (.int16 r.1, r.2)
  | .int32 => (b.readInt32 host).map fun r => (.int32 r.1, r.2)
  | .int64 => (b.readInt64 host).map fun r => (.int64 r.1, r.2)

/-- The integers appended in order. -/
def appendInts (xs : List NetInt) : Buffer := xs.foldl (appendInt host) b

/-- The integers of the given widths read in order. -/
def readInts (b : Buffer) : List Width → Option (List NetInt × Buffer)
  | [] => some ([], b)
  | w :: ws => (b.readInt host w).bind fun r =>
    (readInts r.2 ws).map fun r' => (r.1 :: r'.1, r'.2)

end Buffer

/-! ### One integer -/

section
variable (host : ByteOrder)

/-- The object `be64` holds the bytes of `x` in network byte order. -/
theorem bytes_hostToNetwork64 (x : Int64) :
    host.bytes 8 (hostToNetwork64 host x.toUInt64).toInt64.toUInt64.toNat =
      (NetInt.int64 x).bytes := by
  have hlt : host.htobe 8 x.toUInt64.toNat < 2 ^ 64 := host.htobe_lt x.toUInt64.toNat_lt
  rw [UInt64.toUInt64_toInt64, hostToNetwork64, UInt64.toNat_ofNat_of_lt' hlt, host.bytes_htobe]
  exact (NetInt.int64 x).toBE_toNat

theorem bytes_hostToNetwork32 (x : Int32) :
    host.bytes 4 (hostToNetwork32 host x.toUInt32).toInt32.toUInt32.toNat =
      (NetInt.int32 x).bytes := by
  have hlt : host.htobe 4 x.toUInt32.toNat < 2 ^ 32 := host.htobe_lt x.toUInt32.toNat_lt
  rw [UInt32.toUInt32_toInt32, hostToNetwork32, UInt32.toNat_ofNat_of_lt' hlt, host.bytes_htobe]
  exact (NetInt.int32 x).toBE_toNat

theorem bytes_hostToNetwork16 (x : Int16) :
    host.bytes 2 (hostToNetwork16 host x.toUInt16).toInt16.toUInt16.toNat =
      (NetInt.int16 x).bytes := by
  have hlt : host.htobe 2 x.toUInt16.toNat < 2 ^ 16 := host.htobe_lt x.toUInt16.toNat_lt
  rw [UInt16.toUInt16_toInt16, hostToNetwork16, UInt16.toNat_ofNat_of_lt' hlt, host.bytes_htobe]
  exact (NetInt.int16 x).toBE_toNat

/-- One byte is in network byte order as it is. -/
theorem bytes_int8 (x : Int8) : host.bytes 1 x.toUInt8.toNat = (NetInt.int8 x).bytes := by
  rw [← (NetInt.int8 x).toBE_toNat]
  cases host <;> rfl

theorem load_bytes_lt (x : NetInt) : host.load x.bytes < 256 ^ x.width.size :=
  (host.load_lt x.bytes).trans_eq (by rw [x.length_bytes])

theorem betoh_load_bytes (x : NetInt) :
    host.betoh x.width.size (host.load x.bytes) = x.toNat := by
  rw [← x.length_bytes, host.betoh_load, x.ofBE_bytes]

/-- An object with such bytes is converted to `x`. -/
theorem networkToHost64_load (x : Int64) :
    (networkToHost64 host
      (UInt64.ofNat (host.load (NetInt.int64 x).bytes)).toInt64.toUInt64).toInt64 = x := by
  have hlt : host.load (NetInt.int64 x).bytes < 2 ^ 64 := load_bytes_lt host (.int64 x)
  have hload : host.betoh 8 (host.load (NetInt.int64 x).bytes) = x.toUInt64.toNat :=
    betoh_load_bytes host (.int64 x)
  rw [UInt64.toUInt64_toInt64, networkToHost64, UInt64.toNat_ofNat_of_lt' hlt, hload,
    UInt64.ofNat_toNat, Int64.toInt64_toUInt64]

theorem networkToHost32_load (x : Int32) :
    (networkToHost32 host
      (UInt32.ofNat (host.load (NetInt.int32 x).bytes)).toInt32.toUInt32).toInt32 = x := by
  have hlt : host.load (NetInt.int32 x).bytes < 2 ^ 32 := load_bytes_lt host (.int32 x)
  have hload : host.betoh 4 (host.load (NetInt.int32 x).bytes) = x.toUInt32.toNat :=
    betoh_load_bytes host (.int32 x)
  rw [UInt32.toUInt32_toInt32, networkToHost32, UInt32.toNat_ofNat_of_lt' hlt, hload,
    UInt32.ofNat_toNat, Int32.toInt32_toUInt32]

theorem networkToHost16_load (x : Int16) :
    (networkToHost16 host
      (UInt16.ofNat (host.load (NetInt.int16 x).bytes)).toInt16.toUInt16).toInt16 = x := by
  have hlt : host.load (NetInt.int16 x).bytes < 2 ^ 16 := load_bytes_lt host (.int16 x)
  have hload : host.betoh 2 (host.load (NetInt.int16 x).bytes) = x.toUInt16.toNat :=
    betoh_load_bytes host (.int16 x)
  rw [UInt16.toUInt16_toInt16, networkToHost16, UInt16.toNat_ofNat_of_lt' hlt, hload,
    UInt16.ofNat_toNat, Int16.toInt16_toUInt16]

end

namespace Buffer

variable (host : ByteOrder) (b : Buffer)

/-- **`AppendInt` extends the contents by the bytes of the integer.** -/
theorem peek_appendInt (x : NetInt) : (b.appendInt host x).peek = b.peek ++ x.bytes := by
  cases x with
  | int8 x => rw [appendInt, appendInt8, appendWord, peek_append, bytes_int8]
  | int16 x =>
    simp only [appendInt, appendInt16, appendWord, peek_append, bytes_hostToNetwork16]
  | int32 x =>
    simp only [appendInt, appendInt32, appendWord, peek_append, bytes_hostToNetwork32]
  | int64 x =>
    simp only [appendInt, appendInt64, appendWord, peek_append, bytes_hostToNetwork64]

/-- **`PrependInt` writes them in front.** -/
theorem peek_prependInt (x : NetInt) (h : x.width.size ≤ b.prependableBytes) :
    (b.prependInt host x h).peek = x.bytes ++ b.peek := by
  cases x with
  | int8 x => simp only [prependInt, prependInt8, prependWord, peek_prepend, bytes_int8]
  | int16 x =>
    simp only [prependInt, prependInt16, prependWord, peek_prepend, bytes_hostToNetwork16]
  | int32 x =>
    simp only [prependInt, prependInt32, prependWord, peek_prepend, bytes_hostToNetwork32]
  | int64 x =>
    simp only [prependInt, prependInt64, prependWord, peek_prepend, bytes_hostToNetwork64]

theorem peekWord_of_peek {l rest : List UInt8} (h : b.peek = l ++ rest) :
    b.peekWord host l.length = some (host.load l) := by
  have hlen : l.length ≤ b.readableBytes := by rw [← length_peek, h]; simp
  rw [peekWord, if_pos hlen, h, List.take_left]

theorem peekInt64_of_peek {x : Int64} {rest : List UInt8}
    (h : b.peek = (NetInt.int64 x).bytes ++ rest) : b.peekInt64 host = some x := by
  have hw : b.peekWord host 8 = _ := b.peekWord_of_peek host h
  simp only [peekInt64, hw, Option.map_some, networkToHost64_load]

theorem peekInt32_of_peek {x : Int32} {rest : List UInt8}
    (h : b.peek = (NetInt.int32 x).bytes ++ rest) : b.peekInt32 host = some x := by
  have hw : b.peekWord host 4 = _ := b.peekWord_of_peek host h
  simp only [peekInt32, hw, Option.map_some, networkToHost32_load]

theorem peekInt16_of_peek {x : Int16} {rest : List UInt8}
    (h : b.peek = (NetInt.int16 x).bytes ++ rest) : b.peekInt16 host = some x := by
  have hw : b.peekWord host 2 = _ := b.peekWord_of_peek host h
  simp only [peekInt16, hw, Option.map_some, networkToHost16_load]

theorem peekInt8_of_peek {x : Int8} {rest : List UInt8}
    (h : b.peek = (NetInt.int8 x).bytes ++ rest) : b.peekInt8 = some x := by
  have hlen : 1 ≤ b.readableBytes := by rw [← length_peek, h]; simp [NetInt.width, Width.size]
  have hbytes : (NetInt.int8 x).bytes = [x.toUInt8] := by
    rw [← bytes_int8 .little]
    simp [ByteOrder.bytes, toLE]
  rw [peekInt8, if_pos hlen, h, hbytes, List.singleton_append, List.headD_cons,
    Int8.toInt8_toUInt8]

/-- **`ReadInt` takes an integer out of the front.** -/
theorem readInt_of_peek {x : NetInt} {rest : List UInt8} (h : b.peek = x.bytes ++ rest) :
    ∃ c : Buffer, b.readInt host x.width = some (x, c) ∧ c.peek = rest := by
  have hrest : (b.retrieve x.width.size).peek = rest := by
    rw [peek_retrieve, h, ← x.length_bytes, List.drop_left]
  refine ⟨b.retrieve x.width.size, ?_, hrest⟩
  cases x with
  | int8 x => simp only [readInt, NetInt.width, readInt8, b.peekInt8_of_peek h, Option.map_some]; rfl
  | int16 x =>
    simp only [readInt, NetInt.width, readInt16, b.peekInt16_of_peek host h, Option.map_some]; rfl
  | int32 x =>
    simp only [readInt, NetInt.width, readInt32, b.peekInt32_of_peek host h, Option.map_some]; rfl
  | int64 x =>
    simp only [readInt, NetInt.width, readInt64, b.peekInt64_of_peek host h, Option.map_some]; rfl

/-! ### Sequences -/

theorem peek_appendInts (xs : List NetInt) :
    (b.appendInts host xs).peek = b.peek ++ xs.flatMap NetInt.bytes := by
  induction xs generalizing b with
  | nil => simp [appendInts]
  | cons x xs ih =>
    have hcons : b.appendInts host (x :: xs) = (b.appendInt host x).appendInts host xs := rfl
    rw [hcons, ih, peek_appendInt, List.flatMap_cons, List.append_assoc]

theorem readInts_of_peek (xs : List NetInt) {b : Buffer} {rest : List UInt8}
    (h : b.peek = xs.flatMap NetInt.bytes ++ rest) :
    ∃ c : Buffer, readInts host b (xs.map NetInt.width) = some (xs, c) ∧ c.peek = rest := by
  induction xs generalizing b with
  | nil => exact ⟨b, rfl, h⟩
  | cons x xs ih =>
    rw [List.flatMap_cons, List.append_assoc] at h
    obtain ⟨c, hread, hc⟩ := b.readInt_of_peek host h
    obtain ⟨c', hreads, hc'⟩ := ih hc
    exact ⟨c', by simp [readInts, hread, hreads], hc'⟩

end Buffer

/-- **Integers in network byte order come back as they were written**, on a host of either byte order
and for every buffer. Appended in order they extend the contents by their bytes; with any bytes
behind them and the earlier contents retrieved, reads of the same widths give them in order and leave
what is behind. An integer written in front of the contents is read back and leaves the contents. -/
theorem network_ints_round_trip (host : ByteOrder) (b : Buffer) :
    (∀ xs : List NetInt,
      (b.appendInts host xs).peek = b.peek ++ xs.flatMap NetInt.bytes ∧
      ∀ suffix : List UInt8, ∃ c : Buffer,
        Buffer.readInts host (((b.appendInts host xs).append suffix).retrieve b.readableBytes)
          (xs.map NetInt.width) = some (xs, c) ∧ c.peek = suffix) ∧
    ∀ (x : NetInt) (h : x.width.size ≤ b.prependableBytes),
      (b.prependInt host x h).peek = x.bytes ++ b.peek ∧
      ∃ c : Buffer, (b.prependInt host x h).readInt host x.width = some (x, c) ∧
        c.peek = b.peek := by
  refine ⟨fun xs => ⟨b.peek_appendInts host xs, fun suffix => ?_⟩, fun x h => ?_⟩
  · apply Buffer.readInts_of_peek
    rw [Buffer.peek_retrieve, Buffer.peek_append, Buffer.peek_appendInts, List.append_assoc,
      ← Buffer.length_peek, List.drop_left]
  · have hpeek := b.peek_prependInt host x h
    exact ⟨hpeek, Buffer.readInt_of_peek host _ hpeek⟩

/-- The least integer of 64 bits, in the eight bytes in front of a new buffer. -/
theorem network_ints_round_trip_minValue :
    (NetInt.int64 Int64.minValue).bytes = [128, 0, 0, 0, 0, 0, 0, 0] ∧
      ∃ (h : 8 ≤ Buffer.new.prependableBytes) (c : Buffer),
        (Buffer.new.prependInt .little (.int64 Int64.minValue) h).readInt .little .int64 =
          some (.int64 Int64.minValue, c) ∧ c.peek = Buffer.new.peek := by
  have h : 8 ≤ Buffer.new.prependableBytes := le_rfl
  exact ⟨by decide, h, ((network_ints_round_trip .little Buffer.new).2
    (.int64 Int64.minValue) h).2⟩

end MuduoCpp11.Net
