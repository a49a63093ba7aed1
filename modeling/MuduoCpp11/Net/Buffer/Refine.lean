import MuduoCpp11.Lib.Run
import MuduoCpp11.Net.Buffer.SizeT

/-! # The buffer refines a byte sequence

Any number of buffers, each constructed with a size of its own, and any sequence of calls on them that
meet their asserted preconditions and whose sums do not wrap. Beside each buffer stands the sequence
it is meant for: `Append` and `HasWritten` extend it at the back, `Prepend` at the front, `Retrieve` and
its kin drop from the front and `Unwrite` from the back.

The constructor adds `kCheapPrepend` to its argument, and if this sum wraps then the vector is shorter
than the indices say. In all other cases no assertion ever fails, the indices stay in order and the
readable bytes are the sequence (`refines_iff`). -/

namespace MuduoCpp11.Net

open MuduoCpp11.Lib

/-- What the caller does with one buffer: a call, or a store behind `BeginWrite()`. -/
inductive Call where
  | append (data : List UInt8)
  | prepend (data : List UInt8)
  | ensureWritableBytes (len : UInt64)
  | store (offset : ℕ) (data : List UInt8)
  | hasWritten (len : UInt64)
  | unwrite (len : UInt64)
  | retrieve (len : UInt64)
  | retrieveUntil (till : UInt64)
  | retrieveAll
  | retrieveAsString (len : UInt64)
  | shrink (reserve : UInt64)

namespace Call

def run (r : RawBuffer) : Call → Option RawBuffer
  | .append data => r.append data
  | .prepend data => r.prepend data
  | .ensureWritableBytes len => r.ensureWritableBytes len
  | .store offset data => r.store offset data
  | .hasWritten len => r.hasWritten len
  | .unwrite len => r.unwrite len
  | .retrieve len => r.retrieve len
  | .retrieveUntil till => r.retrieveUntil till
  | .retrieveAll => some r.retrieveAll
  | .retrieveAsString len => (r.retrieveAsString len).map Prod.snd
  | .shrink reserve => r.shrink reserve

/-- The asserted preconditions of a call, and that no sum in it wraps. -/
def Legal (r : RawBuffer) : Call → Prop
  | .append data => r.writerIndex.toNat + data.length + kCheapPrepend < 2 ^ 64
  | .prepend data => data.length ≤ r.prependableBytes.toNat
  | .ensureWritableBytes len => r.writerIndex.toNat + len.toNat + kCheapPrepend < 2 ^ 64
  | .store offset data => offset + data.length ≤ r.writableBytes.toNat
  | .hasWritten len => len ≤ r.writableBytes
  | .unwrite len => len ≤ r.readableBytes
  | .retrieve len => len ≤ r.readableBytes
  | .retrieveUntil till => r.readerIndex ≤ till ∧ till ≤ r.writerIndex
  | .retrieveAll => True
  | .retrieveAsString len => len ≤ r.readableBytes
  | .shrink reserve => r.readableBytes.toNat < 2 ^ 31 ∧
      r.readableBytes.toNat + reserve.toNat + kCheapPrepend < 2 ^ 64

/-- What the call does to the sequence. The bytes that `HasWritten` appends are in the buffer. -/
def effect (r : RawBuffer) (contents : List UInt8) : Call → List UInt8
  | .append data => contents ++ data
  | .prepend data => data ++ contents
  | .ensureWritableBytes _ => contents
  | .store _ _ => contents
  | .hasWritten len => contents ++ r.beginWrite len
  | .unwrite len => contents.take (contents.length - len.toNat)
  | .retrieve len => contents.drop len.toNat
  | .retrieveUntil till => contents.drop (till.toNat - r.readerIndex.toNat)
  | .retrieveAll => []
  | .retrieveAsString len => contents.drop len.toNat
  | .shrink _ => contents

/-- The writable bytes that the call is to provide. -/
def requested : Call → ℕ
  | .ensureWritableBytes len => len.toNat
  | .shrink reserve => reserve.toNat
  | _ => 0

/-- A legal call on a represented buffer: its assertions hold and it has its effect. -/
theorem run_represents {r : RawBuffer} {b : Buffer} (h : r.Represents b) {c : Call}
    (hc : c.Legal r) : ∃ r' b', c.run r = some r' ∧ r'.Represents b' ∧
      b'.peek = c.effect r b.peek ∧ c.requested ≤ b'.writableBytes := by
  have hwriter := h.writer
  cases c with
  | append data =>
    change r.writerIndex.toNat + data.length + kCheapPrepend < 2 ^ 64 at hc
    obtain ⟨r', hr, h'⟩ := h.append data (by omega) (by omega)
    exact ⟨r', _, hr, h', b.peek_append data, Nat.zero_le _⟩
  | prepend data =>
    change data.length ≤ r.prependableBytes.toNat at hc
    rw [h.prependableBytes] at hc
    obtain ⟨r', hr, h'⟩ := h.prepend hc
    exact ⟨r', _, hr, h', b.peek_prepend data hc, Nat.zero_le _⟩
  | ensureWritableBytes len =>
    change r.writerIndex.toNat + len.toNat + kCheapPrepend < 2 ^ 64 at hc
    obtain ⟨r', hr, h'⟩ := h.ensureWritableBytes len (by omega) (by omega)
    exact ⟨r', _, hr, h', b.peek_ensureWritableBytes _, b.le_writableBytes_ensureWritableBytes _⟩
  | store offset data =>
    change offset + data.length ≤ r.writableBytes.toNat at hc
    rw [h.writableBytes] at hc
    obtain ⟨r', hr, h'⟩ := h.store offset data hc
    exact ⟨r', _, hr, h', b.peek_store offset data hc, Nat.zero_le _⟩
  | hasWritten len =>
    have hlen := h.le_writableBytes.mp hc
    obtain ⟨r', hr, h'⟩ := h.hasWritten hlen
    refine ⟨r', _, hr, h', ?_, Nat.zero_le _⟩
    rw [b.peek_hasWritten _ hlen, ← h.beginWrite]
    rfl
  | unwrite len =>
    have hlen := h.le_readableBytes.mp hc
    obtain ⟨r', hr, h'⟩ := h.unwrite hlen
    exact ⟨r', _, hr, h', b.peek_unwrite _ hlen, Nat.zero_le _⟩
  | retrieve len =>
    obtain ⟨r', hr, h'⟩ := h.retrieve hc
    exact ⟨r', _, hr, h', b.peek_retrieve _, Nat.zero_le _⟩
  | retrieveUntil till =>
    obtain ⟨r', hr, h'⟩ := h.retrieveUntil hc
    refine ⟨r', _, hr, h', ?_, Nat.zero_le _⟩
    rw [b.peek_retrieveUntil, ← h.reader]
    rfl
  | retrieveAll => exact ⟨_, _, rfl, h.retrieveAll, b.peek_retrieveAll, Nat.zero_le _⟩
  | retrieveAsString len =>
    obtain ⟨r', hr, h'⟩ := h.retrieveAsString hc
    refine ⟨r', _, ?_, h', b.peek_retrieve _, Nat.zero_le _⟩
    simp [run, hr]
  | shrink reserve =>
    obtain ⟨hlen, hsum⟩ := hc
    rw [h.readableBytes] at hlen hsum
    obtain ⟨r', hr, h'⟩ := h.shrink hlen hsum
    exact ⟨r', _, hr, h', b.peek_shrink _, b.le_writableBytes_shrink _⟩

end Call

/-! ### Runs -/

/-- Buffers, and beside each of them the sequence it is meant for. -/
structure Buffers (ι : Type*) where
  raw : ι → RawBuffer
  contents : ι → List UInt8

namespace Buffers

inductive Op (ι : Type*) where
  | call (i : ι) (c : Call)
  | swap (i j : ι)

/-- The indices are in order, and the readable bytes are the sequence. -/
structure Refines (r : RawBuffer) (contents : List UInt8) : Prop where
  cheapPrepend_le : kCheapPrepend ≤ r.buffer.length
  reader_le : r.readerIndex ≤ r.writerIndex
  writer_le : r.writerIndex.toNat ≤ r.buffer.length
  peek : r.peek = contents

variable {ι : Type*}

def new (initialSize : ι → UInt64) : Buffers ι where
  raw i := RawBuffer.new (initialSize i)
  contents _ := []

def Legal (s : Buffers ι) : Op ι → Prop
  | .call i c => c.Legal (s.raw i)
  | .swap _ _ => True

/-- Each buffer has the bounds as a structure, and the contents. -/
def Sound (s : Buffers ι) : Prop := ∀ i, ∃ b, (s.raw i).Represents b ∧ b.peek = s.contents i

theorem sound_new {initialSize : ι → UInt64}
    (h : ∀ i, kCheapPrepend + (initialSize i).toNat < 2 ^ 64) : (new initialSize).Sound :=
  fun i => ⟨_, RawBuffer.represents_new (h i), Buffer.peek_new _⟩

theorem Sound.refines {s : Buffers ι} (h : s.Sound) (i : ι) : Refines (s.raw i) (s.contents i) := by
  obtain ⟨b, hb, hpeek⟩ := h i
  refine ⟨?_, ?_, ?_, hb.peek.trans hpeek⟩
  · rw [hb.buffer]
    exact b.cheapPrepend_le
  · rw [UInt64.le_iff_toNat_le, hb.reader, hb.writer]
    exact b.reader_le
  · rw [hb.writer, hb.buffer]
    exact b.writer_le

variable [DecidableEq ι]

def step (s : Buffers ι) : Op ι → Option (Buffers ι)
  | .call i c => (c.run (s.raw i)).map fun r =>
    { raw := Function.update s.raw i r
      contents := Function.update s.contents i (c.effect (s.raw i) (s.contents i)) }
  | .swap i j => some
    { raw := fun k => s.raw (Equiv.swap i j k)
      contents := fun k => s.contents (Equiv.swap i j k) }

def run : Buffers ι → List (Op ι) → Option (Buffers ι) := Run.run step

theorem Sound.step {s : Buffers ι} (h : s.Sound) {op : Op ι} (hop : s.Legal op) :
    ∃ s', s.step op = some s' ∧ s'.Sound := by
  cases op with
  | call i c =>
    obtain ⟨b, hb, hpeek⟩ := h i
    obtain ⟨r', b', hr, hb', hpeek', -⟩ := Call.run_represents hb hop
    have hstep : s.step (.call i c) = some
        { raw := Function.update s.raw i r'
          contents := Function.update s.contents i (c.effect (s.raw i) (s.contents i)) } := by
      simp [Buffers.step, hr]
    refine ⟨_, hstep, fun j => ?_⟩
    by_cases hj : j = i
    · subst hj
      refine ⟨b', ?_, ?_⟩
      · simpa using hb'
      · simpa [← hpeek] using hpeek'
    · simpa [hj] using h j
  | swap i j => exact ⟨_, rfl, fun k => h (Equiv.swap i j k)⟩

/-- **The buffers refine byte sequences**, in all runs of legal calls, if and only if the sums in their
constructors do not wrap: no assertion fails, the indices stay in order, the readable bytes are the
sequence, and the writable bytes are as many as were asked for. -/
theorem refines_iff (initialSize : ι → UInt64) :
    (∀ ops, Run.Along step Legal (new initialSize) ops →
      ∃ s, run (new initialSize) ops = some s ∧ (∀ i, Refines (s.raw i) (s.contents i)) ∧
        ∀ i (c : Call), c.Legal (s.raw i) → ∃ r, c.run (s.raw i) = some r ∧
          c.requested ≤ r.writableBytes.toNat) ↔
      ∀ i, kCheapPrepend + (initialSize i).toNat < 2 ^ 64 := by
  constructor
  · intro h i
    obtain ⟨s, hr, hrefines, -⟩ := h [] trivial
    cases hr
    -- A sum that wraps is smaller than `kCheapPrepend`.
    have hle : kCheapPrepend ≤ (RawBuffer.cheapPrepend + initialSize i).toNat := by
      simpa [new, RawBuffer.new] using (hrefines i).cheapPrepend_le
    rw [UInt64.toNat_add, RawBuffer.toNat_cheapPrepend] at hle
    have := (initialSize i).toNat_lt
    have : kCheapPrepend = 8 := rfl
    omega
  · intro h ops hlegal
    obtain ⟨s, hr, hs⟩ := Run.run_progress (fun _ _ hop hm => Sound.step hm hop) hlegal (sound_new h)
    refine ⟨s, hr, hs.refines, fun i c hc => ?_⟩
    obtain ⟨b, hb, -⟩ := hs i
    obtain ⟨r', b', hr', hb', -, hroom⟩ := Call.run_represents hb hc
    exact ⟨r', hr', by rwa [hb'.writableBytes]⟩

/-- `Buffer(SIZE_MAX - 7)` has an empty vector: its assertions hold, and `Append` of one byte stores it
outside of the vector. -/
theorem append_outside_vector :
    ∃ r, r = RawBuffer.new 18446744073709551608 ∧ r.buffer = [] ∧
      r.writableBytes = 18446744073709551608 ∧ ¬ Refines r [] ∧
      (Call.append [1]).Legal r ∧ (Call.append [1]).run r = none := by
  refine ⟨_, rfl, rfl, by decide, fun h => ?_, ?_, by decide⟩
  · exact absurd h.cheapPrepend_le (by decide)
  · show _ + _ + _ < _
    decide

end Buffers

end MuduoCpp11.Net
