import Mathlib.Tactic

/-! # Results of the socket calls

`sockets::Read`, `Readv` and `Write` return what the kernel decides. A call of the model takes that
decision as an argument: the bytes delivered or the room found, or the `errno` of a failed call. The
decision is unconstrained; the length contract (`n ≤ len`) is applied where the call is made. -/

namespace MuduoCpp11.Net

/-- The values of `errno` the code tells apart. -/
inductive Errno where
  | ewouldblock
  | epipe
  | econnreset
  | other (code : ℕ)
  deriving DecidableEq, Repr

/-- `errno == EPIPE || errno == ECONNRESET`. -/
def Errno.isFault : Errno → Bool
  | .epipe | .econnreset => true
  | _ => false

/-- What `sockets::Write` finds: room for `n` bytes, or an error. -/
inductive WriteResult where
  | room (n : ℕ)
  | error (e : Errno)
  deriving DecidableEq, Repr

/-- What `sockets::Readv` finds: bytes (none at the end of the stream), or an error. -/
inductive ReadResult where
  | bytes (data : List UInt8)
  | error (e : Errno)
  deriving DecidableEq, Repr

/-- The write fails with `EPIPE` or `ECONNRESET`. -/
def WriteResult.isFault : WriteResult → Bool
  | .room _ => false
  | .error e => e.isFault

end MuduoCpp11.Net
