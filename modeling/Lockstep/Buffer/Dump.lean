import Lockstep.Buffer.Basic

/-!
# Hexadecimal dumps

The bytes of a buffer in lines of sixteen, each line headed by the position of
its first byte.
-/

namespace Lockstep

/-- Lower-case hexadecimal digits, padded with zeros to a width. -/
def hexText (width n : Nat) : List Char :=
  let ds := Nat.toDigits 16 n
  List.replicate (width - ds.length) '0' ++ ds

def byteText (b : UInt8) : List Char := hexText 2 b.toNat

/-- One line of a dump, ended by a line feed. -/
def dumpLine (start : Nat) (bytes : List UInt8) : List Char :=
  hexText 8 start ++ ':' :: bytes.flatMap (fun b => ' ' :: byteText b) ++ ['\n']

/-- The lines of the bytes from `start` on, of which there are at most
`16 * lines`. -/
def dumpLines (start : Nat) (bytes : List UInt8) : Nat → List Char
  | 0 => []
  | lines + 1 =>
    dumpLine start (bytes.take 16) ++ dumpLines (start + 16) (bytes.drop 16) lines

def Buffer.dump (b : Buffer) : String :=
  String.ofList (dumpLines 0 b.bytes.toList ((b.size + 15) / 16))

end Lockstep
