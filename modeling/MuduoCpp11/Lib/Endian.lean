import Mathlib.Tactic
import Mathlib.Data.Nat.Digits.Lemmas

/-! # Byte orders

A word of `n` bytes as a number below `256 ^ n`. A host stores the least significant byte of a word
first or last; `htobe` and `betoh` swap the bytes on a host of the first kind and do nothing on one of
the second. On either, the bytes of `htobe n x` in memory are those of `x` with the most significant
first (`bytes_htobe`), and `betoh` reads them back (`betoh_load`). For an integer in two's complement
these bytes are its digits to the base 256 (`toBE_toNat_emod`). -/

namespace MuduoCpp11.Lib.Endian

/-- The number with the given bytes, the least significant first. -/
def ofLE (l : List UInt8) : ℕ := Nat.ofDigits 256 (l.map UInt8.toNat)

/-- The `n` low bytes of a number, the least significant first. -/
def toLE : ℕ → ℕ → List UInt8
  | 0, _ => []
  | n + 1, x => UInt8.ofNat x :: toLE n (x / 256)

/-- The number with the given bytes, the most significant first. -/
def ofBE (l : List UInt8) : ℕ := ofLE l.reverse

/-- The `n` low bytes of a number, the most significant first. -/
def toBE (n x : ℕ) : List UInt8 := (toLE n x).reverse

/-- The `n` bytes of an integer in two's complement, the most significant first: byte `i` is the
digit of `256 ^ (n - 1 - i)`. -/
def bigEndian (n : ℕ) (v : ℤ) : List UInt8 :=
  (List.range n).map fun i => UInt8.ofNat (v / 256 ^ (n - 1 - i) % 256).toNat

/-! ### Words and bytes -/

@[simp] theorem length_toLE (n x : ℕ) : (toLE n x).length = n := by
  induction n generalizing x with
  | zero => rfl
  | succ n ih => simp [toLE, ih]

@[simp] theorem length_toBE (n x : ℕ) : (toBE n x).length = n := by simp [toBE]

theorem ofLE_cons (c : UInt8) (l : List UInt8) : ofLE (c :: l) = c.toNat + 256 * ofLE l := by
  simp [ofLE, Nat.ofDigits_cons]

theorem ofLE_toLE (n x : ℕ) : ofLE (toLE n x) = x % 256 ^ n := by
  induction n generalizing x with
  | zero => simp [toLE, ofLE, Nat.mod_one]
  | succ n ih =>
    have hc : (UInt8.ofNat x).toNat = x % 256 := UInt8.toNat_ofNat'
    rw [toLE, ofLE_cons, ih, hc, pow_succ', Nat.mod_mul]

theorem toLE_ofLE (l : List UInt8) : toLE l.length (ofLE l) = l := by
  induction l with
  | nil => rfl
  | cons c l ih =>
    have hdiv : (c.toNat + 256 * ofLE l) / 256 = ofLE l := by have := c.toNat_lt; omega
    have hmod : UInt8.ofNat (c.toNat + 256 * ofLE l) = c := by
      apply UInt8.toNat_inj.mp
      rw [UInt8.toNat_ofNat']
      have := c.toNat_lt; omega
    rw [List.length_cons, toLE, ofLE_cons, hdiv, hmod, ih]

theorem ofLE_lt (l : List UInt8) : ofLE l < 256 ^ l.length := by
  have h := Nat.ofDigits_lt_base_pow_length (b := 256) (l := l.map UInt8.toNat) (by decide)
    (fun x hx => by obtain ⟨c, -, rfl⟩ := List.mem_map.mp hx; exact c.toNat_lt)
  rwa [List.length_map] at h

theorem ofBE_toBE (n x : ℕ) : ofBE (toBE n x) = x % 256 ^ n := by
  rw [ofBE, toBE, List.reverse_reverse, ofLE_toLE]

/-! ### The host -/

/-- Where a host stores the least significant byte of a word: first or last. -/
inductive ByteOrder where
  | little | big
  deriving DecidableEq, Repr

namespace ByteOrder

variable (host : ByteOrder)

/-- The bytes in memory of a word of `n` bytes. -/
def bytes (n x : ℕ) : List UInt8 :=
  match host with
  | .little => toLE n x
  | .big => toBE n x

/-- The word with the given bytes in memory. -/
def load (l : List UInt8) : ℕ :=
  match host with
  | .little => ofLE l
  | .big => ofBE l

/-- The word with the bytes of `x` in the other order. -/
def byteSwap (n x : ℕ) : ℕ := ofLE (toBE n x)

/-- `htobe` on a word of `n` bytes -/
def htobe (n x : ℕ) : ℕ :=
  match host with
  | .little => byteSwap n x
  | .big => x

/-- `betoh` on a word of `n` bytes -/
def betoh (n x : ℕ) : ℕ :=
  match host with
  | .little => byteSwap n x
  | .big => x

@[simp] theorem length_bytes (n x : ℕ) : (host.bytes n x).length = n := by
  cases host with
  | little => exact length_toLE n x
  | big => exact length_toBE n x

theorem load_lt (l : List UInt8) : host.load l < 256 ^ l.length := by
  cases host with
  | little => exact ofLE_lt l
  | big => exact (ofLE_lt l.reverse).trans_eq (by rw [List.length_reverse])

theorem htobe_lt {n x : ℕ} (h : x < 256 ^ n) : host.htobe n x < 256 ^ n := by
  cases host with
  | little => exact (ofLE_lt (toBE n x)).trans_eq (by rw [length_toBE])
  | big => exact h

/-- **`htobe` is big-endian in memory.** -/
theorem bytes_htobe (n x : ℕ) : host.bytes n (host.htobe n x) = toBE n x := by
  cases host with
  | little =>
    have h := toLE_ofLE (toBE n x)
    rwa [length_toBE] at h
  | big => rfl

/-- **`betoh` reads big-endian bytes.** -/
theorem betoh_load (l : List UInt8) : host.betoh l.length (host.load l) = ofBE l := by
  cases host with
  | little =>
    change ofLE (toLE l.length (ofLE l)).reverse = ofLE l.reverse
    rw [toLE_ofLE]
  | big => rfl

end ByteOrder

/-! ### Two's complement -/

theorem bigEndian_succ (n : ℕ) (v : ℤ) :
    bigEndian (n + 1) v = bigEndian n (v / 256) ++ [UInt8.ofNat (v % 256).toNat] := by
  have hdigit : ∀ i ∈ List.range n, UInt8.ofNat (v / 256 ^ (n + 1 - 1 - i) % 256).toNat =
      UInt8.ofNat (v / 256 / 256 ^ (n - 1 - i) % 256).toNat := by
    intro i hi
    have hi : i < n := List.mem_range.mp hi
    have hpow : n + 1 - 1 - i = n - 1 - i + 1 := by omega
    rw [hpow, pow_succ', Int.ediv_ediv_of_nonneg (by decide)]
  rw [bigEndian, List.range_succ, List.map_append, List.map_congr_left hdigit]
  simp [bigEndian]

theorem emod_pow_succ (n : ℕ) (v : ℤ) :
    v % 256 ^ (n + 1) = v % 256 + 256 * (v / 256 % 256 ^ n) := by
  have hpos : (0 : ℤ) < 256 ^ n := by positivity
  have hlow : 0 ≤ v % 256 ∧ v % 256 < 256 := by omega
  have hhigh : 0 ≤ v / 256 % 256 ^ n := Int.emod_nonneg _ hpos.ne'
  have hlt : v / 256 % 256 ^ n < 256 ^ n := Int.emod_lt_of_pos _ hpos
  have h1 := Int.emod_add_mul_ediv v 256
  have h2 := Int.emod_add_mul_ediv (v / 256) (256 ^ n)
  refine ((Int.ediv_emod_unique (q := v / 256 / 256 ^ n) (by positivity)).mpr ⟨?_, ?_, ?_⟩).2
  · rw [pow_succ']
    linear_combination h1 + 256 * h2
  · omega
  · rw [pow_succ']
    omega

/-- The bytes of the word that stands for `v`. -/
theorem toBE_toNat_emod (n : ℕ) (v : ℤ) : toBE n (v % 256 ^ n).toNat = bigEndian n v := by
  induction n generalizing v with
  | zero => rfl
  | succ n ih =>
    have hlow : 0 ≤ v % 256 ∧ v % 256 < 256 := by omega
    have hpos : (0 : ℤ) < 256 ^ n := by positivity
    have hhigh : 0 ≤ v / 256 % 256 ^ n := Int.emod_nonneg _ hpos.ne'
    have hsplit := emod_pow_succ n v
    have hdiv : (v % 256 ^ (n + 1)).toNat / 256 = (v / 256 % 256 ^ n).toNat := by omega
    have hmod : UInt8.ofNat (v % 256 ^ (n + 1)).toNat = UInt8.ofNat (v % 256).toNat := by
      apply UInt8.toNat_inj.mp
      rw [UInt8.toNat_ofNat', UInt8.toNat_ofNat']
      omega
    rw [bigEndian_succ, ← ih, toBE, toLE, List.reverse_cons, hdiv, hmod, toBE]

end MuduoCpp11.Lib.Endian
