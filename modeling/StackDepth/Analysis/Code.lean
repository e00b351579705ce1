import StackDepth.Program.Basic

/-!
# The code under analysis

The analysis reads a program through three questions: which cell stands at an address, where the
instruction after it starts, and which targets an indirect transfer may have.
-/

namespace StackDepth

/-- What the analysis reads. -/
structure Code where
  /-- The cell at an address. -/
  fetch : Address → Except FetchError Cell
  /-- The address of the next instruction. -/
  next : NextAddress
  /-- The possible targets of the indirect transfer at an address. -/
  targets? : Address → Option (List Address)

/-- A program as the analysis reads it. -/
def Program.code (p : Program) : Code :=
  { fetch := fun pc => (p.flash.fetch pc).map .instr, next := p.flash.next, targets? := p.targets? }

/-- The code with other cells at some addresses. The distance to the next instruction stays that of
the code. -/
def Code.override (c : Code) (cells : List (Address × Cell)) : Code :=
  { c with fetch := fun pc =>
      match cells.lookup pc with
      | some cell => .ok cell
      | none => c.fetch pc }

end StackDepth
