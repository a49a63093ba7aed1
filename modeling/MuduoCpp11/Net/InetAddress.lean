import MuduoCpp11.Lib.Decimal

/-! # Addresses

An IPv4 address with a port, and its text. Both parts of the text go through a buffer of 32 bytes, which
is large enough: the text has at most 21 characters (`length_toIpPort`). -/

namespace MuduoCpp11.Net

open MuduoCpp11.Lib.Decimal

/-- The four bytes of `sin_addr` in network order, and the port. -/
structure InetAddress where
  a : UInt8
  b : UInt8
  c : UInt8
  d : UInt8
  port : UInt16
  deriving DecidableEq, Repr

namespace InetAddress

variable (addr : InetAddress)

/-- `inet_ntop(AF_INET, ...)` -/
def inetNtop : List Char :=
  decimal addr.a.toNat ++ '.' :: decimal addr.b.toNat ++ '.' :: decimal addr.c.toNat ++
    '.' :: decimal addr.d.toNat

/-- `ToIpPort`, in `char buf[32]`. -/
def toIpPort : List Char :=
  addr.inetNtop ++ snprintf (32 - addr.inetNtop.length) (':' :: decimal addr.port.toNat)

theorem length_decimal_byte (n : UInt8) : (decimal n.toNat).length ≤ 3 := by
  have := n.toNat_lt
  rw [length_decimal_le_iff (by decide)]
  omega

theorem length_decimal_port (n : UInt16) : (decimal n.toNat).length ≤ 5 := by
  have := n.toNat_lt
  rw [length_decimal_le_iff (by decide)]
  omega

theorem length_inetNtop : addr.inetNtop.length ≤ 15 := by
  have ha := length_decimal_byte addr.a
  have hb := length_decimal_byte addr.b
  have hc := length_decimal_byte addr.c
  have hd := length_decimal_byte addr.d
  simp only [inetNtop, List.length_append, List.length_cons]
  omega

/-- The buffer does not cut the port. -/
theorem toIpPort_eq : addr.toIpPort = addr.inetNtop ++ ':' :: decimal addr.port.toNat := by
  have hip := addr.length_inetNtop
  have hport := length_decimal_port addr.port
  unfold toIpPort
  rw [snprintf_of_length_lt (by simp only [List.length_cons]; omega)]

theorem length_toIpPort : addr.toIpPort.length ≤ 21 := by
  have hip := addr.length_inetNtop
  have hport := length_decimal_port addr.port
  rw [toIpPort_eq]
  simp only [List.length_append, List.length_cons]
  omega

example : (⟨192, 168, 1, 20, 80⟩ : InetAddress).toIpPort = "192.168.1.20:80".toList := by decide

end InetAddress

end MuduoCpp11.Net
