/-!
# Padding

Texts filled with spaces to a width, which is counted in characters.
-/

namespace Lockstep

def blanks (n : Nat) : String := String.ofList (List.replicate n ' ')

def padLeft (width : Nat) (s : String) : String := blanks (width - s.length) ++ s

def padRight (width : Nat) (s : String) : String := s ++ blanks (width - s.length)

end Lockstep
