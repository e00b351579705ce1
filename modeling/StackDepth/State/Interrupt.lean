import StackDepth.State.Basic

/-!
# Interrupts

Bit `n` of the external mask enables interrupt `n + 2`, bit `n` of the timer mask interrupt `17 - n`.
An interrupt may fire unless its mask bit or the enable flag is known to be clear. Vectors stand at
equal distances from the start of flash; the first one belongs to reset.
-/

namespace StackDepth

/-- The distance between vectors when every vector is a jump of four bytes. -/
def defaultVectorSize : Int := 4

/-- The interrupts that may fire, external ones first. -/
def State.interrupts (s : State) : List Nat :=
  if s.flag Flag.I = .no then []
  else
    ((List.range 8).filter fun n => s.eimsk.bit n ≠ .no).map (· + 2) ++
      ((List.range 8).filter fun n => s.timsk.bit n ≠ .no).map (17 - ·)

/-- The address of the vector of an interrupt, modulo the flash. -/
def vectorAddress (num : Nat) (vectorSize : Int) : Address :=
  BitVec.ofInt 16 (((num : Int) - 1) * vectorSize)

end StackDepth
