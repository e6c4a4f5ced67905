import Lockstep.Buffer.Basic

/-!
# Transfers between host and buffers

Buffers are handed out, filled from host bytes and copied back; the books count
the buffers and the bytes moved either way.
-/

namespace Lockstep

/-- The books of an allocator. -/
structure Transfers where
  allocations : Nat
  bytesIn : Nat
  bytesOut : Nat
  deriving DecidableEq

namespace Transfers

def none : Transfers := ⟨0, 0, 0⟩

def allocate (s : Transfers) (t : ScalarType) (length : Nat) : Buffer × Transfers :=
  (.zeros t length, { s with allocations := s.allocations + 1 })

/-- The sizes must agree exactly. -/
def copyIn (s : Transfers) (b : Buffer) (host : Array UInt8) :
    Except CopyError (Buffer × Transfers) :=
  if b.size = host.size then
    .ok ({ b with bytes := host }, { s with bytesIn := s.bytesIn + host.size })
  else .error (.sizeMismatch b.size host.size)

/-- Copies a buffer out to a host side of the given size. -/
def copyOut (s : Transfers) (b : Buffer) (hostSize : Nat) :
    Except CopyError (Array UInt8 × Transfers) :=
  if b.size = hostSize then .ok (b.bytes, { s with bytesOut := s.bytesOut + hostSize })
  else .error (.sizeMismatch b.size hostSize)

end Transfers

end Lockstep
