import StackDepth.Program.Basic

/-!
# Listings

A listing shows every instruction with its address, preceded by the labels defined there. An annotated
site also shows its possible targets.
-/

namespace StackDepth

namespace Program

/-- The line of an instruction. -/
def listingLine (p : Program) (pc : Address) (i : Instruction) : String :=
  let line := "  " ++ Text.hex4 pc.toNat ++ "  " ++ i.disassemble
  match p.targets? pc with
  | none => line
  | some targets =>
      Text.padRight 32 line ++ "; -> " ++
        Text.joinWith " " (targets.map fun t => Text.hex4 t.toNat)

/-- The lines of an address. -/
def listingLines (p : Program) (pc : Address) (i : Instruction) : List String :=
  (p.labelsAt pc).map (· ++ ":") ++ [p.listingLine pc i]

/-- The listing of a program. -/
def listing (p : Program) : String :=
  Text.unlines (p.flash.toList.flatMap fun (pc, i) => p.listingLines pc i)

end Program

end StackDepth
